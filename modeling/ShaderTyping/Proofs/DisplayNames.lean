import ShaderTyping.Proofs.Renaming
import ShaderTyping.Proofs.TextPieces
import ShaderTyping.Proofs.WrittenTypes

namespace ShaderTyping

/-!
# The names of variables in display texts

Names by first appearance do not depend on the numbers of the variables, so renaming variables
does not change a display text.  Type variables count through the alphabet, placeholders and
quantified types together; length variables count on from the letter `n`.  The two ways of counting
give the same name where a quantified type has come round to the letter `n`, and nowhere else.
-/

/-! ## Renaming variables -/

/-- Whether both are placeholders, both are quantified types or both are length variables. -/
def Var.SameKind : Var → Var → Prop
  | .placeholder _, .placeholder _ => True
  | .parametric _ _, .parametric _ _ => True
  | .length _, .length _ => True
  | _, _ => False

/-- Variables of one kind are length variables or not together. -/
theorem Var.SameKind.isLength_eq
    {var other : Var}
    (sameKind : var.SameKind other) :
    other.isLength = var.isLength := by
  cases var <;> cases other <;> first | rfl | contradiction

/-- Variables of one kind get their names from the same sequence. -/
theorem Var.SameKind.nameAt_eq
    {var other : Var}
    (sameKind : var.SameKind other) :
    Naming.nameAt other = Naming.nameAt var := by
  cases var <;> cases other <;> first | rfl | contradiction

/-- Renaming variables keeps the order in which the members of each overload set are listed. -/
inductive Ty.KeepsOrder (rename : Var → Var) : Ty → Prop where
  | primitive (kind : Primitive) : KeepsOrder rename (.primitive kind)
  | array {component : Ty} (length : Length) :
      KeepsOrder rename component → KeepsOrder rename (.array component length)
  | struct {fields : List (String × Ty)} :
      (∀ field ∈ fields, KeepsOrder rename field.2) → KeepsOrder rename (.struct fields)
  | function {param result : Ty} :
      KeepsOrder rename param →
      KeepsOrder rename result →
      KeepsOrder rename (.function param result)
  | union {members : List Ty} :
      (∀ member ∈ members, KeepsOrder rename member) →
      (Ty.union members).rename rename = .union (members.map fun member => member.rename rename) →
      KeepsOrder rename (.union members)
  | named (scope : ScopeId) (name : String) : KeepsOrder rename (.named scope name)
  | placeholder (scope : ScopeId) (id : PlaceholderId) :
      KeepsOrder rename (.placeholder scope id)
  | parametric (scope : ScopeId) (label : LabelId) :
      KeepsOrder rename (.parametric scope label)

/-- A length variable that keeps its kind is renamed to another one. -/
theorem Length.renames_length
    {rename : Var → Var}
    {length : Length}
    (sameKind : ∀ var ∈ Ty.lengthVars length, var.SameKind (rename var)) :
    Ty.lengthVars ((Substitution.renames rename).length length) =
        (Ty.lengthVars length).map rename ∧
      ∀ name : Var → String,
        ((Substitution.renames rename).length length).render name =
          length.render fun var => name (rename var) := by
  cases length with
  | known count => exact ⟨rfl, fun _ => rfl⟩
  | var id =>
      have isLength := sameKind _ (List.mem_singleton_self (Var.length id))
      cases renamed : rename (.length id) with
      | length other =>
          simp [Substitution.renames, Length.ofVar, Ty.lengthVars, Length.render, renamed]
      | placeholder | parametric => simp [renamed, Var.SameKind] at isLength

namespace Ty

/-- A type variable that keeps its kind is renamed to another one. -/
theorem ofVar_of_sameKind
    {var other : Var}
    (sameKind : var.SameKind other)
    (isType : var.isLength = false)
    (scope : ScopeId) :
    (Ty.ofVar scope other).vars = [other] ∧
      ∀ name : Var → String, (Ty.ofVar scope other).render name = name other := by
  cases other with
  | placeholder | parametric => exact ⟨rfl, fun _ => rfl⟩
  | length id => cases var <;> contradiction

/-- The component and the length of an array are renamed. -/
theorem rename_array (rename : Var → Var) (component : Ty) (length : Length) :
    (array component length).rename rename =
      .array (component.rename rename) ((Substitution.renames rename).length length) :=
  subst_array ..

/-- The fields of a struct are renamed one by one. -/
theorem rename_struct (rename : Var → Var) (fields : List (String × Ty)) :
    (struct fields).rename rename =
      .struct (fields.map fun field => (field.1, field.2.rename rename)) :=
  subst_struct ..

/-- The parameter and the result of a function are renamed. -/
theorem rename_function (rename : Var → Var) (param result : Ty) :
    (function param result).rename rename =
      .function (param.rename rename) (result.rename rename) :=
  subst_function ..

/-- A variable is no function. -/
theorem isFunction_ofVar (scope : ScopeId) (var : Var) : (ofVar scope var).isFunction = false := by
  cases var <;> rfl

namespace KeepsOrder

/-- Renaming variables makes no function and removes none. -/
theorem isFunction_rename
    {rename : Var → Var}
    {ty : Ty}
    (kept : ty.KeepsOrder rename) :
    (ty.rename rename).isFunction = ty.isFunction := by
  cases kept with
  | union _ inOrder => rw [inOrder]; rfl
  | placeholder scope id => exact isFunction_ofVar scope _
  | parametric scope label => exact isFunction_ofVar scope _
  | _ => rfl

/-- The variables of a renamed type are met in the same order. -/
theorem vars_rename
    {rename : Var → Var}
    {ty : Ty}
    (kept : ty.KeepsOrder rename)
    (sameKind : ∀ var ∈ ty.vars, var.SameKind (rename var)) :
    (ty.rename rename).vars = ty.vars.map rename := by
  induction kept with
  | primitive | named => rfl
  | array length _ componentVars =>
      rw [vars_array, List.forall_mem_append] at sameKind
      rw [rename_array, vars_array, vars_array, List.map_append, componentVars sameKind.1,
        (Length.renames_length sameKind.2).1]
  | struct _ fieldsVars =>
      rw [vars_struct, List.forall_mem_flatMap] at sameKind
      rw [rename_struct, vars_struct, vars_struct, List.flatMap_map, List.map_flatMap]
      exact List.flatMap_congr fun field isField =>
        fieldsVars field isField (sameKind field isField)
  | function _ _ paramVars resultVars =>
      rw [vars_function, List.forall_mem_append] at sameKind
      rw [rename_function, vars_function, vars_function, List.map_append,
        paramVars sameKind.1, resultVars sameKind.2]
  | union _ inOrder membersVars =>
      rw [vars_union, List.forall_mem_flatMap] at sameKind
      rw [inOrder, vars_union, vars_union, List.flatMap_map, List.map_flatMap]
      exact List.flatMap_congr fun member isMember =>
        membersVars member isMember (sameKind member isMember)
  | placeholder scope id =>
      have isPlaceholder := sameKind (.placeholder id) (List.mem_singleton_self _)
      exact (ofVar_of_sameKind isPlaceholder rfl scope).1
  | parametric scope label =>
      have isParametric := sameKind (.parametric scope label) (List.mem_singleton_self _)
      exact (ofVar_of_sameKind isParametric rfl scope).1

/-- A renamed type is written with the names of the renamed variables. -/
theorem render_rename
    {rename : Var → Var}
    {ty : Ty}
    (kept : ty.KeepsOrder rename)
    (sameKind : ∀ var ∈ ty.vars, var.SameKind (rename var))
    (name : Var → String) :
    (ty.rename rename).render name = ty.render fun var => name (rename var) := by
  induction kept with
  | primitive | named => rfl
  | array length componentKept componentText =>
      rw [vars_array, List.forall_mem_append] at sameKind
      rw [rename_array, render, render, operand, operand, componentKept.isFunction_rename,
        componentText sameKind.1, (Length.renames_length sameKind.2).2]
  | struct _ fieldsText =>
      rw [vars_struct, List.forall_mem_flatMap] at sameKind
      rw [rename_struct, render, render, renderFields_eq_map, renderFields_eq_map, List.map_map]
      refine congrArg (fun texts => "\x7b " ++ ", ".intercalate texts ++ " \x7d") ?_
      refine List.map_congr_left fun field isField => ?_
      rw [Function.comp_apply, fieldsText field isField (sameKind field isField)]
  | function paramKept _ paramText resultText =>
      rw [vars_function, List.forall_mem_append] at sameKind
      rw [rename_function, render, render, operand, operand, paramKept.isFunction_rename,
        paramText sameKind.1, resultText sameKind.2]
  | union _ inOrder membersText =>
      rw [vars_union, List.forall_mem_flatMap] at sameKind
      rw [inOrder, render, render, renderMembers_eq_map, renderMembers_eq_map, List.map_map]
      refine congrArg (fun texts => "(" ++ " | ".intercalate texts ++ ")") ?_
      refine List.map_congr_left fun member isMember => ?_
      exact membersText member isMember (sameKind member isMember)
  | placeholder scope id =>
      have isPlaceholder := sameKind (.placeholder id) (List.mem_singleton_self _)
      exact (ofVar_of_sameKind isPlaceholder rfl scope).2 name
  | parametric scope label =>
      have isParametric := sameKind (.parametric scope label) (List.mem_singleton_self _)
      exact (ofVar_of_sameKind isParametric rfl scope).2 name

end KeepsOrder

end Ty

namespace Naming

/-- Renaming variables to others of their kinds keeps the names that they get. -/
theorem name_ofVars_map
    {rename : Var → Var}
    {vars : List Var}
    (sameKind : ∀ var ∈ vars, var.SameKind (rename var))
    (injective : Set.InjOn rename {var | var ∈ vars})
    {var : Var}
    (member : var ∈ vars) :
    (ofVars (vars.map rename)).name (rename var) = (ofVars vars).name var := by
  have isPeer : var ∈ peers vars var := mem_peers.mpr ⟨member, rfl⟩
  have renamedPeers : peers (vars.map rename) (rename var) = (peers vars var).map rename := by
    rw [peers, List.filter_map, peers]
    refine congrArg (List.map rename) (List.filter_congr fun other inVars => ?_)
    rw [Function.comp_apply, (sameKind other inVars).isLength_eq,
      (sameKind var member).isLength_eq]
  have samePlace := FirstAppearance.idxOf_eraseDups_map isPeer
    (injective.mono fun _ inPeers => (mem_peers.mp inPeers).1)
  rw [name_ofVars, name_ofVars, renamedPeers, samePlace, (sameKind var member).nameAt_eq]

end Naming

namespace Ty

/--
Display texts do not depend on the numbers of variables: renaming placeholders, quantified types
and length variables each to others of their kind, different ones differently, changes neither the
text of a type nor the texts of two types that are displayed together.
-/
theorem display_ignores_numbers
    {rename : Var → Var}
    {left right : Ty}
    (sameKind : ∀ var ∈ left.vars ++ right.vars, var.SameKind (rename var))
    (injective : Set.InjOn rename {var | var ∈ left.vars ++ right.vars})
    (leftKept : left.KeepsOrder rename)
    (rightKept : right.KeepsOrder rename) :
    (left.rename rename).displayText = left.displayText ∧
      (left.rename rename).displayPair (right.rename rename) = left.displayPair right := by
  have leftKind : ∀ var ∈ left.vars, var.SameKind (rename var) :=
    fun var member => sameKind var (List.mem_append_left _ member)
  have rightKind : ∀ var ∈ right.vars, var.SameKind (rename var) :=
    fun var member => sameKind var (List.mem_append_right _ member)
  have leftInjective : Set.InjOn rename {var | var ∈ left.vars} :=
    injective.mono fun _ member => List.mem_append_left _ member
  constructor
  · rw [displayText, displayText, leftKept.vars_rename leftKind,
      leftKept.render_rename leftKind]
    exact render_congr fun var member => Naming.name_ofVars_map leftKind leftInjective member
  · rw [displayPair, displayPair, leftKept.vars_rename leftKind,
      rightKept.vars_rename rightKind, ← List.map_append]
    refine Prod.ext ?_ ?_
    · dsimp only
      rw [leftKept.render_rename leftKind]
      exact render_congr fun var member =>
        Naming.name_ofVars_map sameKind injective (List.mem_append_left _ member)
    · dsimp only
      rw [rightKept.render_rename rightKind]
      exact render_congr fun var member =>
        Naming.name_ofVars_map sameKind injective (List.mem_append_right _ member)

/-- A renaming to numbers that are handed out later. -/
def handedOutLater : Var → Var
  | .placeholder id => .placeholder ⟨id.number + 40⟩
  | .parametric scope label => .parametric scope ⟨label.number + 8⟩
  | .length id => .length ⟨id.number + 5⟩

/-- An overload set over placeholders and lengths, displayed with a type that shares variables. -/
theorem display_ignores_numbers_overloads :
    let left :=
      function
        (union [array float (.var ⟨2⟩), placeholder .native ⟨1⟩])
        (parametric .native ⟨0⟩)
    let right := function (placeholder .native ⟨1⟩) (array (placeholder .native ⟨3⟩) (.var ⟨2⟩))
    left.displayPair right = ("(float[n] | ?a) -> b", "?a -> ?c[n]") ∧
      left.rename handedOutLater =
        function
          (union [array float (.var ⟨7⟩), placeholder .native ⟨41⟩])
          (parametric .native ⟨8⟩) ∧
      (left.rename handedOutLater).displayText = left.displayText ∧
      (left.rename handedOutLater).displayPair (right.rename handedOutLater) =
        left.displayPair right := by
  intro left right
  have sameKind (var : Var) : var.SameKind (handedOutLater var) := by
    cases var <;> trivial
  have injective : Function.Injective handedOutLater := by
    intro var other same
    cases var <;> cases other <;> simp_all [handedOutLater, PlaceholderId.ext_iff,
      LabelId.ext_iff, LengthId.ext_iff]
  have leftKept : left.KeepsOrder handedOutLater := by
    refine .function (.union ?_ rfl) (.parametric _ _)
    simp only [List.forall_mem_cons, List.not_mem_nil, false_implies, implies_true, and_true]
    exact ⟨.array _ (.primitive _), .placeholder _ _⟩
  have rightKept : right.KeepsOrder handedOutLater :=
    .function (.placeholder _ _) (.array _ (.placeholder _ _))
  refine ⟨by decide +kernel, rfl, ?_⟩
  exact display_ignores_numbers (fun var _ => sameKind var) injective.injOn leftKept rightKept

end Ty

/-! ## Variables that share a name -/

namespace Naming

/-- The number behind the letter of a name; the first names do without it. -/
def ordinal (round : Nat) : List Char :=
  if round = 0 then [] else (Nat.repr round).toList

/-- Numbers behind letters are different in different rounds. -/
theorem ordinal_inj {round other : Nat} : ordinal round = ordinal other ↔ round = other := by
  by_cases isFirst : round = 0
  · by_cases otherFirst : other = 0
    · simp [ordinal, isFirst, otherFirst]
    · simp [ordinal, isFirst, otherFirst, Ne.symm otherFirst]
  · by_cases otherFirst : other = 0
    · simp [ordinal, isFirst, otherFirst]
    · rw [ordinal, ordinal, if_neg isFirst, if_neg otherFirst, String.toList_inj,
        decimal_injective.eq_iff]

/-- The letters from `a` on. -/
def letter (index : Nat) : Char :=
  Char.ofNat ('a'.toNat + index % 26)

/-- Letters come back after a round through the alphabet. -/
theorem letter_eq_iff {index other : Nat} :
    letter index = letter other ↔ index % 26 = other % 26 := by
  have different : ∀ first < 26, ∀ second < 26,
      Char.ofNat ('a'.toNat + first) = Char.ofNat ('a'.toNat + second) → first = second := by
    decide
  constructor
  · exact different _ (Nat.mod_lt _ (by decide)) _ (Nat.mod_lt _ (by decide))
  · intro same
    rw [letter, letter, same]

/-- A question mark is none of the letters. -/
theorem letter_ne_question (index : Nat) : letter index ≠ '?' := by
  have different : ∀ first < 26, Char.ofNat ('a'.toNat + first) ≠ '?' := by
    decide
  exact different _ (Nat.mod_lt _ (by decide))

/-- A name from the alphabet is a letter and the number of the round. -/
theorem toList_alphabetic (index : Nat) :
    (alphabetic index).toList = letter index :: ordinal (index / 26) := by
  unfold alphabetic ordinal
  by_cases isFirst : index < 26
  · have noRound : index / 26 = 0 := Nat.div_eq_of_lt isFirst
    simp [isFirst, noRound, letter]
  · have isRound : index / 26 ≠ 0 := by omega
    simp [isFirst, isRound, letter]

/-- The name of a length is the letter `n` and a number. -/
theorem toList_lengthName (index : Nat) : (lengthName index).toList = 'n' :: ordinal index := by
  unfold lengthName ordinal
  split
  · rfl
  · rw [String.toList_append]
    rfl

/-- Different places in the alphabet have different names. -/
theorem alphabetic_inj {index other : Nat} :
    alphabetic index = alphabetic other ↔ index = other := by
  rw [← String.toList_inj, toList_alphabetic, toList_alphabetic, List.cons.injEq,
    letter_eq_iff, ordinal_inj]
  omega

/-- Different lengths have different names. -/
theorem lengthName_inj {index other : Nat} :
    lengthName index = lengthName other ↔ index = other := by
  rw [← String.toList_inj, toList_lengthName, toList_lengthName, List.cons.injEq, ordinal_inj]
  exact and_iff_right rfl

/-- The letter `n` comes up once in every round through the alphabet. -/
theorem alphabetic_eq_lengthName_iff {index other : Nat} :
    alphabetic index = lengthName other ↔ index = 13 + 26 * other := by
  have isLetter : 'n' = letter 13 := by decide
  rw [← String.toList_inj, toList_alphabetic, toList_lengthName, List.cons.injEq, isLetter,
    letter_eq_iff, ordinal_inj]
  omega

/-- No other name begins with a question mark. -/
theorem toList_question (text : String) : ("?" ++ text).toList = '?' :: text.toList :=
  String.toList_append

/-- A placeholder is not called like a quantified type. -/
theorem question_ne_alphabetic (text : String) (index : Nat) : "?" ++ text ≠ alphabetic index := by
  rw [Ne, ← String.toList_inj, toList_question, toList_alphabetic, List.cons.injEq]
  exact fun same => letter_ne_question index same.1.symm

/-- A placeholder is not called like a length. -/
theorem question_ne_lengthName (text : String) (index : Nat) : "?" ++ text ≠ lengthName index := by
  rw [Ne, ← String.toList_inj, toList_question, toList_lengthName, List.cons.injEq]
  exact fun same => absurd same.1 (by decide)

/--
A quantified type whose letter has come round to `n`, and a length variable whose number is that
of the round.
-/
def Clash (naming : Naming) : Var → Var → Prop
  | .parametric scope label, .length id =>
      naming.types.idxOf (.parametric scope label) = 13 + 26 * naming.lengths.idxOf (.length id)
  | _, _ => False

/-- Different types have different places among the types. -/
theorem types_idxOf_inj
    {vars : List Var}
    {var other : Var}
    (member : var ∈ vars)
    (isType : var.isLength = false) :
    (ofVars vars).types.idxOf var = (ofVars vars).types.idxOf other ↔ var = other :=
  FirstAppearance.idxOf_eraseDups_inj (List.mem_filter.mpr ⟨member, by rw [isType]; rfl⟩)

/-- Different lengths have different places among the lengths. -/
theorem lengths_idxOf_inj
    {vars : List Var}
    {var other : Var}
    (member : var ∈ vars)
    (isLength : var.isLength = true) :
    (ofVars vars).lengths.idxOf var = (ofVars vars).lengths.idxOf other ↔ var = other :=
  FirstAppearance.idxOf_eraseDups_inj (List.mem_filter.mpr ⟨member, isLength⟩)

/-- Two variables share a name only where a quantified type has come to the letter `n`. -/
theorem name_eq_iff
    {vars : List Var}
    {var other : Var}
    (member : var ∈ vars) :
    (ofVars vars).name var = (ofVars vars).name other ↔
      var = other ∨ (ofVars vars).Clash var other ∨ (ofVars vars).Clash other var := by
  cases var with
  | placeholder id =>
      cases other with
      | placeholder otherId =>
          rw [name, name, String.append_right_inj, alphabetic_inj, types_idxOf_inj member rfl]
          simp [Clash]
      | parametric scope label => simp [name, Clash, question_ne_alphabetic]
      | length otherId => simp [name, Clash, question_ne_lengthName]
  | parametric scope label =>
      cases other with
      | placeholder otherId => simp [name, Clash, (question_ne_alphabetic _ _).symm]
      | parametric otherScope otherLabel =>
          rw [name, name, alphabetic_inj, types_idxOf_inj member rfl]
          simp [Clash]
      | length otherId => simp [name, Clash, alphabetic_eq_lengthName_iff]
  | length id =>
      cases other with
      | placeholder otherId => simp [name, Clash, (question_ne_lengthName _ _).symm]
      | parametric scope label =>
          rw [eq_comm]
          simp [name, Clash, alphabetic_eq_lengthName_iff]
      | length otherId =>
          rw [name, name, lengthName_inj, lengths_idxOf_inj member rfl]
          simp [Clash]

end Naming

namespace Ty

/--
Where two variables have the same name in a display text, or in the two texts of types that are
displayed together, they are the same, or one is a quantified type whose letter has come round to
`n` and the other a length variable with the number of that round.
-/
theorem displayed_names_clash_iff (left right : Ty) :
    let alone := Naming.ofVars left.vars
    let together := Naming.ofVars (left.vars ++ right.vars)
    left.displayText = left.render alone.name ∧
      left.displayPair right = (left.render together.name, right.render together.name) ∧
      (∀ var ∈ left.vars, ∀ other ∈ left.vars,
        (alone.name var = alone.name other ↔
          var = other ∨ alone.Clash var other ∨ alone.Clash other var)) ∧
      ∀ var ∈ left.vars ++ right.vars, ∀ other ∈ left.vars ++ right.vars,
        (together.name var = together.name other ↔
          var = other ∨ together.Clash var other ∨ together.Clash other var) :=
  ⟨rfl, rfl, fun _ member _ _ => Naming.name_eq_iff member,
    fun _ member _ _ => Naming.name_eq_iff member⟩

/-- A function of fourteen quantified types that returns an array of unknown length. -/
def manyParameters : Ty :=
  curried ((List.range 14).map fun label => .parametric .native ⟨label⟩) (.array float (.var ⟨0⟩))

/-- The fourteenth quantified type and the length are both shown as `n`. -/
theorem displayed_names_clash :
    manyParameters.displayText =
        "a -> b -> c -> d -> e -> f -> g -> h -> i -> j -> k -> l -> m -> n -> float[n]" ∧
      Var.parametric .native ⟨13⟩ ∈ manyParameters.vars ∧
      Var.length ⟨0⟩ ∈ manyParameters.vars ∧
      Var.parametric .native ⟨13⟩ ≠ Var.length ⟨0⟩ ∧
      (Naming.ofVars manyParameters.vars).name (.parametric .native ⟨13⟩) = "n" ∧
      (Naming.ofVars manyParameters.vars).name (.length ⟨0⟩) = "n" := by
  decide +kernel

/-- The thirteenth quantified type has a name of its own, alone and beside another type. -/
theorem displayed_names_clash_iff_manyParameters :
    let thirteenth := Var.parametric .native ⟨12⟩
    let length := Var.length ⟨0⟩
    let other := array (placeholder .native ⟨0⟩) (.var ⟨1⟩)
    let vars := manyParameters.vars ++ other.vars
    (thirteenth ∈ manyParameters.vars ∧ length ∈ manyParameters.vars ∧ .length ⟨1⟩ ∈ vars) ∧
      (Naming.ofVars manyParameters.vars).name thirteenth ≠
        (Naming.ofVars manyParameters.vars).name length ∧
      (Naming.ofVars vars).name length ≠ (Naming.ofVars vars).name (.length ⟨1⟩) := by
  intro thirteenth length other vars
  have inVars : .length ⟨1⟩ ∈ vars := by decide
  have thirteenthMember : thirteenth ∈ manyParameters.vars := by decide
  have lengthMember : length ∈ manyParameters.vars := by decide
  obtain ⟨_, _, alone, beside⟩ := displayed_names_clash_iff manyParameters other
  have aloneIff := alone thirteenth thirteenthMember length lengthMember
  have besideIff := beside length (List.mem_append_left _ lengthMember) (.length ⟨1⟩) inVars
  refine ⟨⟨thirteenthMember, lengthMember, inVars⟩, mt aloneIff.mp ?_, mt besideIff.mp ?_⟩
  · rintro (same | clash | clash)
    · exact absurd same (by decide)
    · have places : (Naming.ofVars manyParameters.vars).types.idxOf thirteenth =
          13 + 26 * (Naming.ofVars manyParameters.vars).lengths.idxOf length := clash
      exact absurd places (by decide)
    · exact clash
  · rintro (same | clash | clash)
    · exact absurd same (by decide)
    · exact clash
    · exact clash

end Ty

end ShaderTyping
