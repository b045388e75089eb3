import Mathlib.Data.List.Basic
import ShaderTyping.Ty.Text

namespace ShaderTyping

/-!
# The pieces of a raw text

Names, numbers, lengths in brackets and lists with separators, and where each of them ends when it
is read from the left together with what follows it.
-/

/-- Whether a character can stand in a name: a letter, a digit or an underscore. -/
def isNameCharacter (character : Char) : Bool :=
  character.isAlphanum || character == '_'

/-- A name: letters, digits and underscores, at least one of them. -/
def IsName (text : String) : Prop :=
  text ≠ "" ∧ ∀ character ∈ text.toList, isNameCharacter character

/-- Digits can stand in a name. -/
theorem isNameCharacter_of_isDigit
    {character : Char}
    (isDigit : character.isDigit) :
    isNameCharacter character := by
  simp [isNameCharacter, Char.isAlphanum, isDigit]

/-- A number is written with characters of names. -/
theorem isNameCharacter_of_mem_repr
    {number : Nat}
    {character : Char}
    (member : character ∈ (Nat.repr number).toList) :
    isNameCharacter character := by
  rw [Nat.toList_repr] at member
  exact isNameCharacter_of_isDigit (Nat.isDigit_of_mem_toDigits (by decide) (by decide) member)

/-- Different numbers are written differently: their digits can be read back. -/
theorem decimal_injective : Function.Injective Nat.repr := by
  intro number other same
  have sameDigits := congrArg String.toList same
  rw [Nat.toList_repr, Nat.toList_repr] at sameDigits
  calc
    number = Nat.ofDigitChars 10 (Nat.toDigits 10 number) 0 :=
      Nat.ofDigitChars_ten_toDigits.symm
    _ = Nat.ofDigitChars 10 (Nat.toDigits 10 other) 0 := by rw [sameDigits]
    _ = other := Nat.ofDigitChars_ten_toDigits

/-- What follows does not go on with a name. -/
def EndsName (rest : List Char) : Prop :=
  ∀ character ∈ rest.head?, isNameCharacter character = false

/-- A name reaches as far as its characters do. -/
theorem name_append_inj
    {name other rest otherRest : List Char}
    (isName : ∀ character ∈ name, isNameCharacter character)
    (otherIsName : ∀ character ∈ other, isNameCharacter character)
    (ends : EndsName rest)
    (otherEnds : EndsName otherRest)
    (same : name ++ rest = other ++ otherRest) :
    name = other ∧ rest = otherRest := by
  have taken
      {name rest : List Char}
      (isName : ∀ character ∈ name, isNameCharacter character)
      (ends : EndsName rest) :
      (name ++ rest).takeWhile isNameCharacter = name := by
    rw [List.takeWhile_append_of_pos isName]
    cases rest with
    | nil => simp
    | cons first rest => simp [ends first rfl]
  have sameName : name = other := by
    rw [← taken isName ends, same, taken otherIsName otherEnds]
  subst sameName
  exact ⟨rfl, List.append_cancel_left same⟩

/-- What follows goes on neither with a name nor with a bracket. -/
def EndsOperand (rest : List Char) : Prop :=
  ∀ character ∈ rest.head?, isNameCharacter character = false ∧ character ≠ '['

/-- What ends an operand ends a name. -/
theorem EndsOperand.endsName {rest : List Char} (ends : EndsOperand rest) : EndsName rest :=
  fun character isFirst => (ends character isFirst).1

namespace Length

/-- The text of a length is made of characters of names. -/
theorem isNameCharacter_of_mem_rawText
    {length : Length}
    {character : Char}
    (member : character ∈ length.rawText.toList) :
    isNameCharacter character := by
  cases length with
  | known count => exact isNameCharacter_of_mem_repr member
  | var id =>
      rw [rawText, render, Var.rawName, String.toList_append, List.mem_append] at member
      rcases member with isLetter | isDigit
      · cases List.mem_singleton.mp isLetter
        decide
      · exact isNameCharacter_of_mem_repr isDigit

/-- The letter in front of a length variable tells it apart from a number. -/
theorem repr_ne_rawText_var (count : Nat) (id : LengthId) :
    Nat.repr count ≠ (Length.var id).rawText := by
  intro same
  have isLetter : 'n' ∈ (Nat.repr count).toList := by
    rw [same, rawText, render, Var.rawName, String.toList_append]
    exact List.mem_append_left _ (List.mem_singleton_self _)
  rw [Nat.toList_repr] at isLetter
  exact absurd (Nat.isDigit_of_mem_toDigits (by decide) (by decide) isLetter) (by decide)

/-- Different lengths have different texts. -/
theorem rawText_injective {length other : Length} (same : length.rawText = other.rawText) :
    length = other := by
  cases length with
  | known count =>
      cases other with
      | known otherCount => exact congrArg known (decimal_injective same)
      | var otherId => exact absurd same (repr_ne_rawText_var count otherId)
  | var id =>
      cases other with
      | known otherCount => exact absurd same.symm (repr_ne_rawText_var otherCount id)
      | var otherId =>
          have sameNumber := decimal_injective ((String.append_right_inj "n").mp same)
          exact congrArg var (LengthId.ext sameNumber)

/-- A length in brackets. -/
def bracket (length : Length) : List Char :=
  '[' :: (length.rawText.toList ++ [']'])

/-- A length in brackets reaches up to the closing bracket. -/
theorem bracket_append_inj
    {length other : Length}
    {rest otherRest : List Char}
    (same : length.bracket ++ rest = other.bracket ++ otherRest) :
    length = other ∧ rest = otherRest := by
  simp only [bracket, List.cons_append, List.append_assoc, List.nil_append, List.cons.injEq,
    true_and] at same
  have ends (rest : List Char) : EndsName (']' :: rest) := by
    rintro character ⟨⟩
    decide
  obtain ⟨sameText, sameRest⟩ :=
    name_append_inj (fun _ => isNameCharacter_of_mem_rawText)
      (fun _ => isNameCharacter_of_mem_rawText) (ends _) (ends _) same
  exact ⟨rawText_injective (String.toList_inj.mp sameText), List.tail_eq_of_cons_eq sameRest⟩

/-- Lengths in brackets one after the other are counted up to the last bracket. -/
theorem brackets_append_inj
    {lengths others : List Length}
    {rest otherRest : List Char}
    (ends : EndsOperand rest)
    (otherEnds : EndsOperand otherRest)
    (same : lengths.flatMap bracket ++ rest = others.flatMap bracket ++ otherRest) :
    lengths = others ∧ rest = otherRest := by
  induction lengths generalizing others with
  | nil =>
      cases others with
      | nil => exact ⟨rfl, same⟩
      | cons other others =>
          simp only [List.flatMap_nil, List.nil_append] at same
          exact absurd rfl (ends '[' (same ▸ rfl)).2
  | cons length lengths inductionHypothesis =>
      cases others with
      | nil =>
          simp only [List.flatMap_nil, List.nil_append] at same
          exact absurd rfl (otherEnds '[' (same ▸ rfl)).2
      | cons other others =>
          rw [List.flatMap_cons, List.flatMap_cons, List.append_assoc, List.append_assoc] at same
          obtain ⟨rfl, sameTail⟩ := bracket_append_inj same
          obtain ⟨rfl, sameRest⟩ := inductionHypothesis sameTail
          exact ⟨rfl, sameRest⟩

/-- Brackets do not go on with a name either. -/
theorem endsName_brackets
    {rest : List Char}
    (ends : EndsOperand rest)
    (lengths : List Length) :
    EndsName (lengths.flatMap bracket ++ rest) := by
  cases lengths with
  | nil => exact ends.endsName
  | cons length lengths =>
      rintro character ⟨⟩
      decide

end Length

/-- What can follow a complete type in a text. -/
inductive EndsType : List Char → Prop where
  | nil : EndsType []
  | parenthesis (rest : List Char) : EndsType (')' :: rest)
  | comma (rest : List Char) : EndsType (',' :: rest)
  | bar (rest : List Char) : EndsType (' ' :: '|' :: rest)
  | brace (rest : List Char) : EndsType (' ' :: '}' :: rest)

namespace EndsType

/-- What ends a type ends an operand: neither a name nor a bracket goes on. -/
theorem endsOperand {rest : List Char} (ends : EndsType rest) : EndsOperand rest := by
  intro character isFirst
  cases ends with
  | nil => contradiction
  | _ =>
      cases isFirst
      decide

/-- An arrow does not follow a complete type. -/
theorem ne_arrow {rest : List Char} (ends : EndsType rest) (more : List Char) :
    rest ≠ " -> ".toList ++ more := by
  intro same
  cases ends with
  | nil => contradiction
  | parenthesis rest => exact absurd (List.cons.inj same).1 (by decide)
  | comma rest => exact absurd (List.cons.inj same).1 (by decide)
  | bar rest => exact absurd (List.cons.inj (List.cons.inj same).2).1 (by decide)
  | brace rest => exact absurd (List.cons.inj (List.cons.inj same).2).1 (by decide)

end EndsType

/-- An arrow ends an operand. -/
theorem endsOperand_arrow (rest : List Char) : EndsOperand (" -> ".toList ++ rest) := by
  rintro character ⟨⟩
  decide

section Separated

variable
  {α β : Type}
  {write : α → List Char}
  {key : α → β}
  {separator closing : List Char}

/-- Two items that are written alike in front of complete types have the same key. -/
def ItemUnique (write : α → List Char) (key : α → β) (item other : α) : Prop :=
  ∀ rest otherRest,
    EndsType rest →
    EndsType otherRest →
    write item ++ rest = write other ++ otherRest →
    key item = key other ∧ rest = otherRest

theorem ItemUnique.symm {item other : α} (unique : ItemUnique write key item other) :
    ItemUnique write key other item := by
  intro rest otherRest ends otherEnds same
  obtain ⟨sameKey, sameRest⟩ := unique otherRest rest otherEnds ends same.symm
  exact ⟨sameKey.symm, sameRest.symm⟩

/-- Items behind separators, and then the closing text, end a type. -/
theorem endsType_separated
    (separatorEnds : ∀ rest, EndsType (separator ++ rest))
    (closingEnds : ∀ rest, EndsType (closing ++ rest))
    (items : List α)
    (rest : List Char) :
    EndsType ((items.flatMap fun item => separator ++ write item) ++ (closing ++ rest)) := by
  cases items with
  | nil => exact closingEnds rest
  | cons item items =>
      rw [List.flatMap_cons, List.append_assoc, List.append_assoc]
      exact separatorEnds _

/-- Items behind separators are counted up to the closing text. -/
theorem separated_append_inj
    (separatorEnds : ∀ rest, EndsType (separator ++ rest))
    (closingEnds : ∀ rest, EndsType (closing ++ rest))
    (differ : ∀ rest otherRest, separator ++ rest ≠ closing ++ otherRest)
    {items others : List α}
    (each : ∀ item ∈ items, ∀ other ∈ others, ItemUnique write key item other)
    {rest otherRest : List Char}
    (same :
      (items.flatMap fun item => separator ++ write item) ++ (closing ++ rest) =
        (others.flatMap fun other => separator ++ write other) ++ (closing ++ otherRest)) :
    items.map key = others.map key ∧ rest = otherRest := by
  induction items generalizing others with
  | nil =>
      cases others with
      | nil => exact ⟨rfl, List.append_cancel_left same⟩
      | cons other others =>
          rw [List.flatMap_cons, List.append_assoc, List.append_assoc] at same
          exact absurd same.symm (differ _ _)
  | cons item items inductionHypothesis =>
      cases others with
      | nil =>
          rw [List.flatMap_cons, List.append_assoc, List.append_assoc] at same
          exact absurd same (differ _ _)
      | cons other others =>
          rw [List.flatMap_cons, List.flatMap_cons, List.append_assoc, List.append_assoc,
            List.append_assoc, List.append_assoc] at same
          obtain ⟨sameKey, sameTail⟩ :=
            each item List.mem_cons_self other List.mem_cons_self _ _
              (endsType_separated separatorEnds closingEnds _ _)
              (endsType_separated separatorEnds closingEnds _ _)
              (List.append_cancel_left same)
          obtain ⟨sameKeys, sameRest⟩ :=
            inductionHypothesis
              (fun item isItem other isOther =>
                each item (List.mem_cons_of_mem _ isItem) other (List.mem_cons_of_mem _ isOther))
              sameTail
          exact ⟨by rw [List.map_cons, List.map_cons, sameKey, sameKeys], sameRest⟩

/-- A list with separators is its first item and the others behind separators. -/
theorem intercalate_map_cons (separator : List Char) (first : α) (rest : List α) :
    separator.intercalate ((first :: rest).map write) =
      write first ++ rest.flatMap fun item => separator ++ write item := by
  induction rest generalizing first with
  | nil => simp
  | cons second rest inductionHypothesis =>
      rw [List.map_cons, List.map_cons, List.intercalate_cons_cons, ← List.map_cons,
        inductionHypothesis, List.flatMap_cons, List.append_assoc, List.append_assoc]

/-- Lists with separators between their items are read up to the closing text. -/
theorem intercalate_append_inj
    (separatorEnds : ∀ rest, EndsType (separator ++ rest))
    (closingEnds : ∀ rest, EndsType (closing ++ rest))
    (differ : ∀ rest otherRest, separator ++ rest ≠ closing ++ otherRest)
    {item other : α}
    {items others : List α}
    (each :
      ∀ first ∈ item :: items, ∀ second ∈ other :: others, ItemUnique write key first second)
    {rest otherRest : List Char}
    (same :
      separator.intercalate ((item :: items).map write) ++ (closing ++ rest) =
        separator.intercalate ((other :: others).map write) ++ (closing ++ otherRest)) :
    (item :: items).map key = (other :: others).map key ∧ rest = otherRest := by
  rw [intercalate_map_cons, intercalate_map_cons, List.append_assoc, List.append_assoc] at same
  obtain ⟨sameKey, sameTail⟩ :=
    each item List.mem_cons_self other List.mem_cons_self _ _
      (endsType_separated separatorEnds closingEnds _ _)
      (endsType_separated separatorEnds closingEnds _ _) same
  obtain ⟨sameKeys, sameRest⟩ :=
    separated_append_inj separatorEnds closingEnds differ
      (fun first isFirst second isSecond =>
        each first (List.mem_cons_of_mem _ isFirst) second (List.mem_cons_of_mem _ isSecond))
      sameTail
  exact ⟨by rw [List.map_cons, List.map_cons, sameKey, sameKeys], sameRest⟩

end Separated

end ShaderTyping
