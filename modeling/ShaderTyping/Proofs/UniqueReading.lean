import ShaderTyping.Proofs.TextPieces

namespace ShaderTyping

/-!
# Raw texts can be read in one way only

Raw texts of different types are different, up to the scopes of references, placeholders and
quantified types, which a text does not show.  A text is compared from the left, together with
what follows it: the brackets behind the innermost component of an array come one after the
other, a parenthesis is closed behind a function type and goes on behind the first member of an
overload set, and an arrow never follows a complete type.
-/

/-! ## Types that differ in their text -/

namespace Ty

/--
A type whose overload sets have at least two members, whose labels and references are names, and
whose references are called neither like a primitive type nor like a quantified one.
-/
inductive Readable : Ty → Prop where
  | primitive (kind : Primitive) : Readable (.primitive kind)
  | array {component : Ty} (length : Length) :
      Readable component → Readable (.array component length)
  | struct {fields : List (String × Ty)} :
      (∀ field ∈ fields, IsName field.1) →
      (∀ field ∈ fields, Readable field.2) →
      Readable (.struct fields)
  | function {param result : Ty} :
      Readable param → Readable result → Readable (.function param result)
  | union {members : List Ty} :
      2 ≤ members.length → (∀ member ∈ members, Readable member) → Readable (.union members)
  | named {name : String} (scope : ScopeId) :
      IsName name →
      (∀ kind : Primitive, name ≠ kind.name) →
      (∀ label : LabelId, name ≠ (Var.parametric scope label).rawName) →
      Readable (.named scope name)
  | placeholder (scope : ScopeId) (id : PlaceholderId) : Readable (.placeholder scope id)
  | parametric (scope : ScopeId) (label : LabelId) : Readable (.parametric scope label)

mutual

/-- A type with all its references and variables in the outermost scope. -/
def unscoped : Ty → Ty
  | .primitive kind => .primitive kind
  | .array component length => .array component.unscoped length
  | .struct fields => .struct (unscopedFields fields)
  | .function param result => .function param.unscoped result.unscoped
  | .union members => .union (unscopedMembers members)
  | .named _ name => .named .native name
  | .placeholder _ id => .placeholder .native id
  | .parametric _ label => .parametric .native label

/-- The fields of a struct without scopes. -/
def unscopedFields : List (String × Ty) → List (String × Ty)
  | [] => []
  | (label, ty) :: rest => (label, ty.unscoped) :: unscopedFields rest

/-- The members of an overload set without scopes. -/
def unscopedMembers : List Ty → List Ty
  | [] => []
  | ty :: rest => ty.unscoped :: unscopedMembers rest

end

/-- The fields of a struct lose their scopes one by one. -/
theorem unscopedFields_eq_map (fields : List (String × Ty)) :
    unscopedFields fields = fields.map fun field => (field.1, field.2.unscoped) := by
  induction fields with
  | nil => rfl
  | cons field rest inductionHypothesis =>
      rw [unscopedFields, inductionHypothesis, List.map_cons]

/-- The members of an overload set lose their scopes one by one. -/
theorem unscopedMembers_eq_map (members : List Ty) :
    unscopedMembers members = members.map unscoped := by
  induction members with
  | nil => rfl
  | cons member rest inductionHypothesis =>
      rw [unscopedMembers, inductionHypothesis, List.map_cons]

/-- Scopes do not decide whether a type is a function. -/
theorem isFunction_unscoped (ty : Ty) : ty.unscoped.isFunction = ty.isFunction := by
  cases ty <;> rfl

/-- The raw text does not show scopes. -/
theorem rawText_unscoped (ty : Ty) : ty.unscoped.rawText = ty.rawText := by
  unfold rawText
  induction ty using Ty.induction with
  | array component length componentText =>
      rw [unscoped, render, render, operand, operand, isFunction_unscoped, componentText]
  | struct fields fieldsText =>
      rw [unscoped, render, render, unscopedFields_eq_map, renderFields_eq_map,
        renderFields_eq_map, List.map_map]
      refine congrArg (fun texts => "\x7b " ++ ", ".intercalate texts ++ " \x7d") ?_
      refine List.map_congr_left fun field isField => ?_
      rw [Function.comp_apply, fieldsText field isField]
  | function param result paramText resultText =>
      rw [unscoped, render, render, operand, operand, isFunction_unscoped, paramText, resultText]
  | union members membersText =>
      rw [unscoped, render, render, unscopedMembers_eq_map, renderMembers_eq_map,
        renderMembers_eq_map, List.map_map]
      refine congrArg (fun texts => "(" ++ " | ".intercalate texts ++ ")") ?_
      exact List.map_congr_left membersText
  | primitive | named | placeholder | parametric => rfl

/-! ## The characters of a type -/

/-- The characters of the raw text. -/
def characters (ty : Ty) : List Char :=
  ty.rawText.toList

/-- The characters of the raw text before an arrow or a bracket. -/
def operandCharacters (ty : Ty) : List Char :=
  (ty.operand ty.rawText).toList

/-- A function stands in parentheses as an operand. -/
theorem operandCharacters_function (param result : Ty) :
    (function param result).operandCharacters =
      '(' :: ((function param result).characters ++ [')']) := by
  rw [operandCharacters, operand, isFunction, if_pos rfl, String.toList_append,
    String.toList_append, List.append_assoc]
  rfl

/-- Any other type is written alike as an operand. -/
theorem operandCharacters_of_not_function
    {ty : Ty}
    (notFunction : ty.isFunction = false) :
    ty.operandCharacters = ty.characters := by
  rw [operandCharacters, operand, notFunction]
  rfl

/-- A function is written as its parameter, an arrow and its result. -/
theorem characters_function (param result : Ty) :
    (function param result).characters =
      param.operandCharacters ++ (" -> ".toList ++ result.characters) := by
  rw [characters, rawText, render, String.toList_append, String.toList_append, List.append_assoc]
  rfl

/-- An array is written as its component with a bracket behind it. -/
theorem characters_array (component : Ty) (length : Length) :
    (array component length).characters = component.operandCharacters ++ length.bracket := by
  rw [characters, rawText, render, String.toList_append, String.toList_append,
    String.toList_append, List.append_assoc, List.append_assoc]
  rfl

/-- A field as it is written. -/
def fieldCharacters (field : String × Ty) : List Char :=
  field.1.toList ++ (": ".toList ++ field.2.characters)

/-- A struct is written as its fields between braces. -/
theorem characters_struct (fields : List (String × Ty)) :
    (struct fields).characters =
      "\x7b ".toList ++
        ((", ".toList).intercalate (fields.map fieldCharacters) ++ " \x7d".toList) := by
  rw [characters, rawText, render, renderFields_eq_map, String.toList_append,
    String.toList_append, String.toList_intercalate, List.map_map, List.append_assoc]
  unfold fieldCharacters
  simp only [Function.comp_def, String.toList_append, List.append_assoc]
  rfl

/-- An overload set is written as its members between parentheses. -/
theorem characters_union (members : List Ty) :
    (union members).characters =
      '(' :: ((" | ".toList).intercalate (members.map characters) ++ [')']) := by
  rw [characters, rawText, render, renderMembers_eq_map, String.toList_append,
    String.toList_append, String.toList_intercalate, List.map_map, List.append_assoc]
  rfl

/-- Whether a type is an array. -/
def isArray : Ty → Bool
  | .array _ _ => true
  | _ => false

/-- The component of an array of arrays that is no array itself. -/
def innermost : Ty → Ty
  | .array component _ => component.innermost
  | ty => ty

/-- The lengths of an array of arrays, in the order of their brackets. -/
def bounds : Ty → List Length
  | .array component length => component.bounds ++ [length]
  | _ => []

/-- Below all brackets there is no array. -/
theorem isArray_innermost (ty : Ty) : ty.innermost.isArray = false := by
  induction ty using Ty.induction with
  | array component length componentHypothesis => exact componentHypothesis
  | _ => rfl

/-- The innermost component of a readable type is readable. -/
theorem Readable.innermost {ty : Ty} (readable : ty.Readable) : ty.innermost.Readable := by
  induction readable with
  | array length _ componentHypothesis => exact componentHypothesis
  | primitive kind => exact .primitive kind
  | struct labels fields _ => exact .struct labels fields
  | function param result => exact .function param result
  | union many members _ => exact .union many members
  | named scope isName notPrimitive notParametric =>
      exact .named scope isName notPrimitive notParametric
  | placeholder scope id => exact .placeholder scope id
  | parametric scope label => exact .parametric scope label

/-- Behind the innermost component stand the lengths. -/
theorem operandCharacters_eq (ty : Ty) :
    ty.operandCharacters = ty.innermost.operandCharacters ++ ty.bounds.flatMap Length.bracket := by
  induction ty using Ty.induction with
  | array component length componentHypothesis =>
      rw [operandCharacters_of_not_function rfl, characters_array, innermost, bounds,
        List.flatMap_append, componentHypothesis, List.flatMap_singleton, List.append_assoc]
  | _ => exact (List.append_nil _).symm

/-- An array is its innermost component with the lengths around it. -/
theorem unscoped_eq (ty : Ty) : ty.unscoped = ty.bounds.foldl array ty.innermost.unscoped := by
  induction ty using Ty.induction with
  | array component length componentHypothesis =>
      rw [unscoped, innermost, bounds, List.foldl_append, ← componentHypothesis]
      rfl
  | _ => rfl

/-! ## Reading from the left -/

/-- No other operand has the same text in front of something that can follow an operand. -/
def OperandUnique (ty : Ty) : Prop :=
  ∀ other : Ty,
    other.Readable →
    ∀ rest otherRest,
      EndsOperand rest →
      EndsOperand otherRest →
      ty.operandCharacters ++ rest = other.operandCharacters ++ otherRest →
      ty.unscoped = other.unscoped ∧ rest = otherRest

/-- No other operand that is no array has the same text, also in front of brackets. -/
def CoreUnique (ty : Ty) : Prop :=
  ∀ other : Ty,
    other.Readable →
    other.isArray = false →
    ∀ rest otherRest,
      EndsName rest →
      EndsName otherRest →
      ty.operandCharacters ++ rest = other.operandCharacters ++ otherRest →
      ty.unscoped = other.unscoped ∧ rest = otherRest

/-- No other type has the same text in front of something that can follow a complete type. -/
def Unique (ty : Ty) : Prop :=
  ∀ other : Ty, other.Readable → ItemUnique characters unscoped ty other

/-- An operand is unique if its innermost component is: the brackets behind it are counted. -/
theorem CoreUnique.operandUnique {ty : Ty} (core : ty.innermost.CoreUnique) : ty.OperandUnique := by
  intro other readable rest otherRest ends otherEnds same
  rw [operandCharacters_eq ty, operandCharacters_eq other, List.append_assoc,
    List.append_assoc] at same
  obtain ⟨sameCore, sameTail⟩ :=
    core other.innermost readable.innermost other.isArray_innermost _ _
      (Length.endsName_brackets ends _) (Length.endsName_brackets otherEnds _) same
  obtain ⟨sameBounds, sameRest⟩ := Length.brackets_append_inj ends otherEnds sameTail
  exact ⟨by rw [unscoped_eq ty, unscoped_eq other, sameCore, sameBounds], sameRest⟩

/-- What is complete before a complete type ends is no parameter of a function. -/
theorem OperandUnique.unique
    {ty : Ty}
    (operandUnique : ty.OperandUnique)
    (notFunction : ty.isFunction = false) :
    ty.Unique := by
  intro other readable rest otherRest ends otherEnds same
  rw [← operandCharacters_of_not_function notFunction] at same
  cases form : other.isFunction with
  | false =>
      rw [← operandCharacters_of_not_function form] at same
      exact operandUnique other readable rest otherRest ends.endsOperand otherEnds.endsOperand same
  | true =>
      cases readable with
      | function param _ =>
          rw [characters_function, List.append_assoc, List.append_assoc] at same
          obtain ⟨_, sameRest⟩ :=
            operandUnique _ param _ _ ends.endsOperand (endsOperand_arrow _) same
          exact absurd sameRest (ends.ne_arrow _)
      | _ => contradiction

/-- A function is unique if its parameter is as an operand and its result as a type. -/
theorem unique_function
    {param result : Ty}
    (paramUnique : param.OperandUnique)
    (resultUnique : result.Unique) :
    (function param result).Unique := by
  intro other readable rest otherRest ends otherEnds same
  rw [characters_function, List.append_assoc, List.append_assoc] at same
  cases form : other.isFunction with
  | false =>
      rw [← operandCharacters_of_not_function form] at same
      obtain ⟨_, sameRest⟩ :=
        paramUnique other readable _ _ (endsOperand_arrow _) otherEnds.endsOperand same
      exact absurd sameRest.symm (otherEnds.ne_arrow _)
  | true =>
      cases readable with
      | function otherParam otherResult =>
          rw [characters_function, List.append_assoc, List.append_assoc] at same
          obtain ⟨sameParam, sameTail⟩ :=
            paramUnique _ otherParam _ _ (endsOperand_arrow _) (endsOperand_arrow _) same
          obtain ⟨sameResult, sameRest⟩ :=
            resultUnique _ otherResult _ _ ends otherEnds (List.append_cancel_left sameTail)
          exact ⟨by rw [unscoped, unscoped, sameParam, sameResult], sameRest⟩
      | _ => contradiction

/-! ## Types that are no arrays -/

/-- How the text of an operand begins. -/
inductive Opening where
  | name
  | question
  | brace
  | parenthesis
  deriving DecidableEq

/-- What a first character tells. -/
def Opening.of (character : Char) : Opening :=
  if character = '?' then .question
  else if character = '\x7b' then .brace
  else if character = '(' then .parenthesis
  else .name

/-- How the text of a type begins, in parentheses if it is a function. -/
def opening : Ty → Opening
  | .primitive _ | .named _ _ | .parametric _ _ => .name
  | .array component _ => component.opening
  | .struct _ => .brace
  | .function _ _ | .union _ => .parenthesis
  | .placeholder _ _ => .question

/-- Whether the text of a type is a name. -/
def isNamed : Ty → Bool
  | .primitive _ | .named _ _ | .parametric _ _ => true
  | _ => false

/-- A text that begins like a name is a name, unless brackets follow. -/
theorem isNamed_of_opening
    {ty : Ty}
    (notArray : ty.isArray = false)
    (isName : ty.opening = .name) :
    ty.isNamed = true := by
  cases ty <;> first | rfl | contradiction

/-- Primitive types are called by names. -/
theorem isName_primitive (kind : Primitive) : IsName kind.name := by
  cases kind <;> exact ⟨by decide, List.all_eq_true.mp (by decide)⟩

/-- Quantified types are called by names. -/
theorem isName_parametric (scope : ScopeId) (label : LabelId) :
    IsName (Var.parametric scope label).rawName := by
  have isShape : (Var.parametric scope label).rawName.toList =
      'T' :: (Nat.repr label.number).toList := String.toList_append
  refine ⟨fun isEmpty => ?_, fun character member => ?_⟩
  · rw [isEmpty] at isShape
    contradiction
  · rw [isShape, List.mem_cons] at member
    rcases member with rfl | isDigit
    · decide
    · exact isNameCharacter_of_mem_repr isDigit

/-- A readable type that is written as a name is written as one. -/
theorem Readable.isName_rawText
    {ty : Ty}
    (readable : ty.Readable)
    (named : ty.isNamed = true) :
    IsName ty.rawText := by
  cases readable with
  | primitive kind => exact isName_primitive kind
  | named _ isName _ _ => exact isName
  | parametric scope label => exact isName_parametric scope label
  | _ => contradiction

/-- The names of quantified types begin with a `T`. -/
theorem ne_parametric_of_head
    {name : String}
    (otherLetter : name.toList.head? ≠ some 'T')
    (scope : ScopeId)
    (label : LabelId) :
    name ≠ (Var.parametric scope label).rawName := by
  rintro rfl
  rw [Var.rawName, String.toList_append] at otherLetter
  exact otherLetter rfl

/-- No primitive type is called like a quantified one: those begin with a capital letter. -/
theorem primitive_name_ne_parametric (kind : Primitive) (scope : ScopeId) (label : LabelId) :
    kind.name ≠ (Var.parametric scope label).rawName :=
  ne_parametric_of_head (by cases kind <;> decide) scope label

/-- Types that are written as names are told apart by their names. -/
theorem unscoped_eq_of_named
    {ty other : Ty}
    (readable : ty.Readable)
    (otherReadable : other.Readable)
    (named : ty.isNamed = true)
    (otherNamed : other.isNamed = true)
    (same : ty.rawText = other.rawText) :
    ty.unscoped = other.unscoped := by
  cases readable with
  | primitive kind =>
      cases otherReadable with
      | primitive otherKind =>
          have found := congrArg Primitive.ofName? same
          simp only [rawText, render, Primitive.ofName?_name, Option.some.injEq] at found
          rw [found]
      | named _ _ notPrimitive _ => exact absurd same.symm (notPrimitive kind)
      | parametric scope label => exact absurd same (primitive_name_ne_parametric kind scope label)
      | _ => contradiction
  | named scope _ notPrimitive notParametric =>
      cases otherReadable with
      | primitive otherKind => exact absurd same (notPrimitive otherKind)
      | named otherScope _ _ _ => exact congrArg (Ty.named .native) same
      | parametric otherScope label => exact absurd same (notParametric label)
      | _ => contradiction
  | parametric scope label =>
      cases otherReadable with
      | primitive otherKind =>
          exact absurd same.symm (primitive_name_ne_parametric otherKind scope label)
      | named _ _ _ notParametric => exact absurd same.symm (notParametric label)
      | parametric otherScope otherLabel =>
          have sameNumber := decimal_injective ((String.append_right_inj "T").mp same)
          exact congrArg (Ty.parametric .native) (LabelId.ext sameNumber)
      | _ => contradiction
  | _ => contradiction

/-- A character of a name begins a name. -/
theorem Opening.of_isNameCharacter
    {character : Char}
    (isName : isNameCharacter character) :
    Opening.of character = .name := by
  have differs (mark : Char) (noName : ¬isNameCharacter mark) : character ≠ mark := by
    rintro rfl
    exact noName isName
  rw [Opening.of, if_neg (differs '?' (by decide)), if_neg (differs '\x7b' (by decide)),
    if_neg (differs '(' (by decide))]

/-- The first character of a name tells that it is a name. -/
theorem exists_first_of_isName {text : String} (isName : IsName text) :
    ∃ first rest, text.toList = first :: rest ∧ Opening.of first = .name := by
  obtain ⟨notEmpty, characters⟩ := isName
  cases shape : text.toList with
  | nil => exact absurd (String.toList_inj.mp shape) notEmpty
  | cons first rest =>
      have isNameCharacter := characters first (by simp [shape])
      exact ⟨first, rest, rfl, Opening.of_isNameCharacter isNameCharacter⟩

/-- The first character of an operand tells what kind of operand it is. -/
theorem Readable.exists_first {ty : Ty} (readable : ty.Readable) :
    ∃ first rest, ty.operandCharacters = first :: rest ∧ Opening.of first = ty.opening := by
  induction readable with
  | primitive kind => exact exists_first_of_isName (isName_primitive kind)
  | array length _ componentFirst =>
      obtain ⟨first, rest, shape, isOpening⟩ := componentFirst
      refine ⟨first, rest ++ length.bracket, ?_, isOpening⟩
      rw [operandCharacters_of_not_function rfl, characters_array, shape, List.cons_append]
  | struct _ _ _ =>
      rw [operandCharacters_of_not_function rfl, characters_struct]
      exact ⟨_, _, rfl, rfl⟩
  | function _ _ _ _ => exact ⟨_, _, operandCharacters_function _ _, rfl⟩
  | union _ _ _ =>
      rw [operandCharacters_of_not_function rfl, characters_union]
      exact ⟨_, _, rfl, rfl⟩
  | named _ isName _ _ => exact exists_first_of_isName isName
  | placeholder _ id => exact ⟨_, _, String.toList_append, rfl⟩
  | parametric scope label => exact exists_first_of_isName (isName_parametric scope label)

/-- The first character tells which types can have a text. -/
theorem Readable.opening_eq
    {ty other : Ty}
    (readable : ty.Readable)
    (otherReadable : other.Readable)
    {rest otherRest : List Char}
    (same : ty.operandCharacters ++ rest = other.operandCharacters ++ otherRest) :
    ty.opening = other.opening := by
  obtain ⟨first, tail, shape, isOpening⟩ := readable.exists_first
  obtain ⟨otherFirst, otherTail, otherShape, otherIsOpening⟩ := otherReadable.exists_first
  rw [shape, otherShape] at same
  rw [← isOpening, ← otherIsOpening, (List.cons.inj same).1]

/-- A type that is written as a name is no function. -/
theorem isFunction_of_isNamed {ty : Ty} (named : ty.isNamed = true) : ty.isFunction = false := by
  cases ty <;> first | rfl | contradiction

/-- A type that is written as a name is unique: the name ends where its characters do. -/
theorem coreUnique_of_named
    {ty : Ty}
    (readable : ty.Readable)
    (named : ty.isNamed = true)
    (isName : ty.opening = .name) :
    ty.CoreUnique := by
  intro other otherReadable notArray rest otherRest ends otherEnds same
  have otherNamed : other.isNamed = true :=
    isNamed_of_opening notArray ((readable.opening_eq otherReadable same).symm.trans isName)
  rw [operandCharacters_of_not_function (isFunction_of_isNamed named),
    operandCharacters_of_not_function (isFunction_of_isNamed otherNamed)] at same
  obtain ⟨sameText, sameRest⟩ :=
    name_append_inj (readable.isName_rawText named).2 (otherReadable.isName_rawText otherNamed).2
      ends otherEnds same
  exact ⟨unscoped_eq_of_named readable otherReadable named otherNamed
    (String.toList_inj.mp sameText), sameRest⟩

/-- A placeholder is unique: its number ends where its digits do. -/
theorem coreUnique_placeholder (scope : ScopeId) (id : PlaceholderId) :
    (placeholder scope id).CoreUnique := by
  intro other otherReadable notArray rest otherRest ends otherEnds same
  have sameOpening := (Readable.placeholder scope id).opening_eq otherReadable same
  cases otherReadable with
  | placeholder otherScope otherId =>
      have isShape (scope : ScopeId) (id : PlaceholderId) :
          (placeholder scope id).operandCharacters = '?' :: (Nat.repr id.number).toList :=
        String.toList_append
      rw [isShape, isShape] at same
      obtain ⟨sameDigits, sameRest⟩ :=
        name_append_inj (fun _ => isNameCharacter_of_mem_repr)
          (fun _ => isNameCharacter_of_mem_repr) ends otherEnds (List.cons.inj same).2
      have sameNumber := decimal_injective (String.toList_inj.mp sameDigits)
      exact ⟨congrArg (Ty.placeholder .native) (PlaceholderId.ext sameNumber), sameRest⟩
  | array => contradiction
  | _ => cases sameOpening

/-- A field is unique if its label is a name and its type is unique. -/
theorem itemUnique_field
    {field other : String × Ty}
    (label : IsName field.1)
    (otherLabel : IsName other.1)
    (unique : field.2.Unique)
    (otherReadable : other.2.Readable) :
    ItemUnique fieldCharacters (fun field => (field.1, field.2.unscoped)) field other := by
  intro rest otherRest ends otherEnds same
  have colon (rest : List Char) : EndsName (": ".toList ++ rest) := by
    rintro character ⟨⟩
    decide
  simp only [fieldCharacters, List.append_assoc] at same
  obtain ⟨sameLabel, sameTail⟩ :=
    name_append_inj label.2 otherLabel.2 (colon _) (colon _) same
  obtain ⟨sameTy, sameRest⟩ :=
    unique other.2 otherReadable rest otherRest ends otherEnds (List.append_cancel_left sameTail)
  exact ⟨Prod.ext (String.toList_inj.mp sameLabel) sameTy, sameRest⟩

/-- A struct with fields does not look like one without. -/
theorem closing_ne_fields
    {field : String × Ty}
    (label : IsName field.1)
    (rest more : List Char) :
    " \x7d".toList ++ rest ≠ fieldCharacters field ++ more := by
  obtain ⟨first, tail, shape, isOpening⟩ := exists_first_of_isName label
  have isNameCharacter := label.2 first (by simp [shape])
  intro same
  rw [fieldCharacters, shape] at same
  rw [← (List.cons.inj same).1] at isNameCharacter
  contradiction

/-- A struct is unique if its fields are. -/
theorem coreUnique_struct
    {fields : List (String × Ty)}
    (labels : ∀ field ∈ fields, IsName field.1)
    (readable : ∀ field ∈ fields, field.2.Readable)
    (each : ∀ field ∈ fields, field.2.Unique) :
    (struct fields).CoreUnique := by
  intro other otherReadable notArray rest otherRest _ _ same
  have sameOpening := (Readable.struct labels readable).opening_eq otherReadable same
  cases otherReadable with
  | @struct others otherLabels otherFields =>
      rw [operandCharacters_of_not_function rfl, operandCharacters_of_not_function rfl,
        characters_struct, characters_struct, List.append_assoc, List.append_assoc,
        List.append_assoc, List.append_assoc] at same
      have sameInner := List.append_cancel_left same
      rw [unscoped, unscoped, unscopedFields_eq_map, unscopedFields_eq_map]
      cases fields with
      | nil =>
          cases others with
          | nil => exact ⟨rfl, List.append_cancel_left sameInner⟩
          | cons other others =>
              rw [intercalate_map_cons, List.append_assoc] at sameInner
              exact absurd sameInner (closing_ne_fields (otherLabels other List.mem_cons_self) _ _)
      | cons field fields =>
          cases others with
          | nil =>
              rw [intercalate_map_cons, List.append_assoc] at sameInner
              exact absurd sameInner.symm
                (closing_ne_fields (labels field List.mem_cons_self) _ _)
          | cons other others =>
              obtain ⟨sameFields, sameRest⟩ :=
                intercalate_append_inj (fun _ => .comma _) (fun _ => .brace _)
                  (fun _ _ mixed => absurd (List.cons.inj mixed).1 (by decide))
                  (fun field isField other isOther =>
                    itemUnique_field (labels field isField) (otherLabels other isOther)
                      (each field isField) (otherFields other isOther))
                  sameInner
              exact ⟨congrArg Ty.struct sameFields, sameRest⟩
  | array => contradiction
  | _ => cases sameOpening

/-- Behind its first type, a function in parentheses is closed and an overload set goes on. -/
theorem function_ne_union
    {param result first : Ty}
    (unique : ItemUnique characters unscoped (function param result) first)
    (second : Ty)
    (others : List Ty)
    (rest otherRest : List Char) :
    (function param result).operandCharacters ++ rest ≠
      (union (first :: second :: others)).operandCharacters ++ otherRest := by
  intro same
  rw [operandCharacters_function, operandCharacters_of_not_function rfl, characters_union,
    intercalate_map_cons, List.flatMap_cons] at same
  simp only [List.cons_append, List.append_assoc] at same
  obtain ⟨_, sameRest⟩ :=
    unique _ _ (.parenthesis _) (.bar _) (List.cons.inj same).2
  exact absurd (List.cons.inj sameRest).1 (by decide)

/-- A function in parentheses is unique if the function is: an overload set goes on otherwise. -/
theorem coreUnique_function
    {param result : Ty}
    (readable : (function param result).Readable)
    (unique : (function param result).Unique) :
    (function param result).CoreUnique := by
  intro other otherReadable notArray rest otherRest _ _ same
  have sameOpening := readable.opening_eq otherReadable same
  cases otherReadable with
  | function otherParam otherResult =>
      rw [operandCharacters_function, operandCharacters_function] at same
      simp only [List.cons_append, List.append_assoc] at same
      obtain ⟨sameTy, sameRest⟩ :=
        unique _ (.function otherParam otherResult) _ _ (.parenthesis _) (.parenthesis _)
          (List.cons.inj same).2
      exact ⟨sameTy, (List.cons.inj sameRest).2⟩
  | @union members many eachReadable =>
      match members, many with
      | first :: second :: others, _ =>
          have firstUnique := unique first (eachReadable first List.mem_cons_self)
          exact absurd same (function_ne_union firstUnique second others _ _)
  | array => contradiction
  | _ => cases sameOpening

/-- An overload set is unique if its members are; it has more than one, so it is no function. -/
theorem coreUnique_union
    {first second : Ty}
    {others : List Ty}
    (readable : ∀ member ∈ first :: second :: others, member.Readable)
    (each : ∀ member ∈ first :: second :: others, member.Unique) :
    (union (first :: second :: others)).CoreUnique := by
  intro other otherReadable notArray rest otherRest _ _ same
  have many : 2 ≤ (first :: second :: others).length := Nat.le_add_left 2 others.length
  have sameOpening := (Readable.union many readable).opening_eq otherReadable same
  cases otherReadable with
  | function otherParam otherResult =>
      have firstUnique := each first List.mem_cons_self _ (.function otherParam otherResult)
      exact absurd same.symm (function_ne_union firstUnique.symm second others _ _)
  | @union otherMembers otherMany otherEach =>
      match otherMembers, otherMany with
      | otherFirst :: otherSecond :: otherOthers, _ =>
          rw [operandCharacters_of_not_function rfl, operandCharacters_of_not_function rfl,
            characters_union, characters_union, List.cons_append, List.cons_append,
            List.append_assoc, List.append_assoc] at same
          obtain ⟨sameMembers, sameRest⟩ :=
            intercalate_append_inj (fun _ => .bar _) (fun _ => .parenthesis _)
              (fun _ _ mixed => absurd (List.cons.inj mixed).1 (by decide))
              (fun member isMember other isOther =>
                each member isMember other (otherEach other isOther))
              (List.cons.inj same).2
          rw [unscoped, unscoped, unscopedMembers_eq_map, unscopedMembers_eq_map]
          exact ⟨congrArg Ty.union sameMembers, sameRest⟩
  | array => contradiction
  | _ => cases sameOpening

/-- The text of a type tells the type, up to scopes, and where it ends. -/
theorem Readable.unique {ty : Ty} (readable : ty.Readable) :
    ty.Unique ∧ ty.innermost.CoreUnique := by
  have ofCore
      {ty : Ty}
      (notFunction : ty.isFunction = false)
      (core : ty.innermost.CoreUnique) :
      ty.Unique ∧ ty.innermost.CoreUnique :=
    ⟨core.operandUnique.unique notFunction, core⟩
  induction readable with
  | primitive kind => exact ofCore rfl (coreUnique_of_named (.primitive kind) rfl rfl)
  | array length _ componentUnique => exact ofCore rfl componentUnique.2
  | struct labels fields fieldsUnique =>
      exact ofCore rfl (coreUnique_struct labels fields fun field isField =>
        (fieldsUnique field isField).1)
  | function param result paramUnique resultUnique =>
      have unique := unique_function paramUnique.2.operandUnique resultUnique.1
      exact ⟨unique, coreUnique_function (.function param result) unique⟩
  | @union members many membersReadable membersUnique =>
      match members, many with
      | first :: second :: others, _ =>
          exact ofCore rfl (coreUnique_union membersReadable fun member isMember =>
            (membersUnique member isMember).1)
  | named scope isName notPrimitive notParametric =>
      exact ofCore rfl
        (coreUnique_of_named (.named scope isName notPrimitive notParametric) rfl rfl)
  | placeholder scope id => exact ofCore rfl (coreUnique_placeholder scope id)
  | parametric scope label =>
      exact ofCore rfl (coreUnique_of_named (.parametric scope label) rfl rfl)

/-- Readable types have the same raw text exactly if they differ in scopes at most. -/
theorem rawText_eq_iff
    {left right : Ty}
    (leftReadable : left.Readable)
    (rightReadable : right.Readable) :
    left.rawText = right.rawText ↔ left.unscoped = right.unscoped := by
  constructor
  · intro same
    have sameCharacters : left.characters ++ [] = right.characters ++ [] := by
      rw [characters, characters, same]
    exact (leftReadable.unique.1 right rightReadable [] [] .nil .nil sameCharacters).1
  · intro same
    rw [← rawText_unscoped left, same, rawText_unscoped]

/-- The parentheses tell an array of functions from a function that returns an array. -/
theorem rawText_eq_iff_functions :
    let param (scope : ScopeId) := union [array float (.known 3), parametric scope ⟨0⟩]
    let light (scope : ScopeId) := struct [("kind", named scope "Light_2"), ("lit", bool)]
    let functions := array (function (param ⟨1⟩) (light ⟨1⟩)) (.var ⟨2⟩)
    let function := function (param ⟨2⟩) (array (light ⟨3⟩) (.var ⟨2⟩))
    functions.rawText = "((float[3] | T0) -> \x7b kind: Light_2, lit: bool \x7d)[n2]" ∧
      function.rawText = "(float[3] | T0) -> \x7b kind: Light_2, lit: bool \x7d[n2]" ∧
      functions.Readable ∧
      function.Readable ∧
      (functions.rawText = function.rawText ↔ functions.unscoped = function.unscoped) := by
  intro param light functions function
  have isName : IsName "Light_2" := ⟨by decide, List.all_eq_true.mp (by decide)⟩
  have paramReadable (scope : ScopeId) : (param scope).Readable := by
    refine .union (Nat.le_refl 2) ?_
    simp only [List.forall_mem_cons, List.not_mem_nil, false_implies, implies_true, and_true]
    exact ⟨.array _ (.primitive _), .parametric _ _⟩
  have lightReadable (scope : ScopeId) : (light scope).Readable := by
    refine .struct ?_ ?_
    · simp only [List.forall_mem_cons, List.not_mem_nil, false_implies, implies_true, and_true]
      exact ⟨⟨by decide, List.all_eq_true.mp (by decide)⟩,
        ⟨by decide, List.all_eq_true.mp (by decide)⟩⟩
    · simp only [List.forall_mem_cons, List.not_mem_nil, false_implies, implies_true, and_true]
      refine ⟨.named scope isName (fun kind => ?_) (fun label => ?_), .primitive _⟩
      · cases kind <;> decide
      · exact ne_parametric_of_head (by decide) scope label
  have functionsReadable : functions.Readable :=
    .array _ (.function (paramReadable _) (lightReadable _))
  have functionReadable : function.Readable :=
    .function (paramReadable _) (.array _ (lightReadable _))
  exact ⟨by decide +kernel, by decide +kernel, functionsReadable, functionReadable,
    rawText_eq_iff functionsReadable functionReadable⟩

/-- A reference that is called like a quantified type looks like one. -/
example :
    (named .native "T1").rawText = (parametric .native ⟨1⟩).rawText ∧
      (named .native "T1").unscoped ≠ (parametric .native ⟨1⟩).unscoped := by
  decide +kernel

end Ty

end ShaderTyping
