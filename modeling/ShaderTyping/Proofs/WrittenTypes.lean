import Mathlib.Data.List.Basic
import Mathlib.Data.List.Induction
import Mathlib.Data.Set.Function
import ShaderTyping.Ty.Text

namespace ShaderTyping

/-!
# Writing a type and naming its variables on the way

A display text names variables by first appearance.  So it can be written from left to right: a
variable that is met for the first time gets the next name of its kind, and no name changes
afterwards.  `Ty.displayText_eq_write` and `Ty.displayPair_eq_write` say that this writes the
display text of a type, and the texts of two types that are displayed together.
-/

/-! ## First appearances -/

namespace FirstAppearance

variable {α β : Type} [BEq α] [LawfulBEq α] [BEq β] [LawfulBEq β]

/-- Put a value behind those that were met before it, unless it is one of them. -/
def meet (met : List α) (value : α) : List α :=
  if value ∈ met then met else met ++ [value]

/-- The first appearances in a longer list are those before and the last value if it is new. -/
theorem eraseDups_concat (values : List α) (value : α) :
    (values ++ [value]).eraseDups = meet values.eraseDups value := by
  rw [List.eraseDups_append, meet]
  by_cases member : value ∈ values
  · simp [List.removeAll, member]
  · simp [List.removeAll, List.eraseDups_cons, member]

/-- What is met later does not change the place of a value. -/
theorem idxOf_eraseDups_append
    {values : List α}
    {value : α}
    (member : value ∈ values)
    (more : List α) :
    (values ++ more).eraseDups.idxOf value = values.eraseDups.idxOf value := by
  rw [List.eraseDups_append]
  exact List.idxOf_append_of_mem (List.mem_eraseDups.mpr member)

/-- Different values are met in different places. -/
theorem idxOf_eraseDups_inj
    {values : List α}
    {value other : α}
    (member : value ∈ values) :
    values.eraseDups.idxOf value = values.eraseDups.idxOf other ↔ value = other :=
  List.idxOf_inj (List.mem_eraseDups.mpr member)

/-- A renaming that keeps values apart renames their first appearances. -/
theorem eraseDups_map
    {rename : α → β}
    {values : List α}
    (injective : Set.InjOn rename {value | value ∈ values}) :
    (values.map rename).eraseDups = values.eraseDups.map rename := by
  induction values using List.reverseRecOn with
  | nil => rfl
  | append_singleton values value inductionHypothesis =>
      have earlier : Set.InjOn rename {value | value ∈ values} :=
        injective.mono fun _ member => List.mem_append_left _ member
      have renamed_mem :
          rename value ∈ values.eraseDups.map rename ↔ value ∈ values.eraseDups := by
        rw [List.mem_map]
        constructor
        · rintro ⟨other, member, same⟩
          have inValues := List.mem_append_left [value] (List.mem_eraseDups.mp member)
          exact injective inValues (by simp) same ▸ member
        · exact fun member => ⟨value, member, rfl⟩
      rw [List.map_append, List.map_singleton, eraseDups_concat, eraseDups_concat,
        inductionHypothesis earlier]
      simp only [meet, renamed_mem]
      split
      · rfl
      · rw [List.map_append, List.map_singleton]

/-- A renaming that keeps values apart keeps their places. -/
theorem idxOf_map
    {rename : α → β}
    {values : List α}
    {value : α}
    (member : value ∈ values)
    (injective : Set.InjOn rename {value | value ∈ values}) :
    (values.map rename).idxOf (rename value) = values.idxOf value := by
  induction values with
  | nil => contradiction
  | cons first rest inductionHypothesis =>
      have sameFirst : rename first = rename value ↔ first = value :=
        ⟨injective List.mem_cons_self member, congrArg rename⟩
      by_cases isFirst : first = value
      · simp [isFirst]
      · have inRest : value ∈ rest := (List.mem_cons.mp member).resolve_left (Ne.symm isFirst)
        have later := inductionHypothesis inRest
          (injective.mono fun _ member => List.mem_cons_of_mem _ member)
        rw [List.map_cons, List.idxOf_cons_ne _ (mt sameFirst.mp isFirst),
          List.idxOf_cons_ne _ isFirst, later]

/-- Renaming values keeps the places in which they are met. -/
theorem idxOf_eraseDups_map
    {rename : α → β}
    {values : List α}
    {value : α}
    (member : value ∈ values)
    (injective : Set.InjOn rename {value | value ∈ values}) :
    (values.map rename).eraseDups.idxOf (rename value) = values.eraseDups.idxOf value := by
  rw [eraseDups_map injective]
  refine idxOf_map (List.mem_eraseDups.mpr member) ?_
  exact injective.mono fun _ inList => List.mem_eraseDups.mp inList

end FirstAppearance

namespace Ty

/-- The variables of an array are met in the component and then in the length. -/
theorem vars_array (component : Ty) (length : Length) :
    (array component length).vars = component.vars ++ lengthVars length :=
  collect_array ..

/-- The variables of a struct are met field by field. -/
theorem vars_struct (fields : List (String × Ty)) :
    (struct fields).vars = fields.flatMap fun field => field.2.vars :=
  collect_struct ..

/-- The variables of a function are met in the parameter and then in the result. -/
theorem vars_function (param result : Ty) :
    (function param result).vars = param.vars ++ result.vars :=
  collect_function ..

/-- The variables of an overload set are met member by member. -/
theorem vars_union (members : List Ty) :
    (union members).vars = members.flatMap fun member => member.vars :=
  collect_union ..

end Ty

namespace Naming

/-- The naming of a text in which no variable was met yet. -/
def empty : Naming where
  types := []
  lengths := []

/-- Give a variable the next place of its kind, unless it has one. -/
def meet (naming : Naming) (var : Var) : Naming :=
  if var.isLength then
    { naming with lengths := FirstAppearance.meet naming.lengths var }
  else
    { naming with types := FirstAppearance.meet naming.types var }

/-- Meeting one more variable gives the names by first appearance in the longer list. -/
theorem meet_ofVars (vars : List Var) (var : Var) :
    (ofVars vars).meet var = ofVars (vars ++ [var]) := by
  cases isLength : var.isLength with
  | true =>
      simp [meet, ofVars, isLength, FirstAppearance.eraseDups_concat]
  | false =>
      simp [meet, ofVars, isLength, FirstAppearance.eraseDups_concat]

/-- The variables that share their names with a variable: the lengths or the types. -/
def peers (vars : List Var) (var : Var) : List Var :=
  vars.filter fun other => other.isLength == var.isLength

/-- The peers of a variable are the variables that are lengths if it is one. -/
theorem mem_peers {vars : List Var} {var other : Var} :
    other ∈ peers vars var ↔ other ∈ vars ∧ other.isLength = var.isLength := by
  rw [peers, List.mem_filter, beq_iff_eq]

/-- The name of a variable in a place among its peers. -/
def nameAt : Var → Nat → String
  | .placeholder _, place => "?" ++ alphabetic place
  | .parametric _ _, place => alphabetic place
  | .length _, place => lengthName place

/-- The name of a variable comes from its place among the first appearances of its peers. -/
theorem name_ofVars (vars : List Var) (var : Var) :
    (ofVars vars).name var = nameAt var ((peers vars var).eraseDups.idxOf var) := by
  cases var with
  | placeholder | parametric => simp [name, nameAt, ofVars, peers, Var.isLength]
  | length id =>
      have isLength : (Var.length id).isLength = true := rfl
      simp [name, nameAt, ofVars, peers, isLength]

/-- A variable keeps its name when more variables are met. -/
theorem name_ofVars_append
    {vars : List Var}
    {var : Var}
    (member : var ∈ vars)
    (more : List Var) :
    (ofVars (vars ++ more)).name var = (ofVars vars).name var := by
  have isPeer : var ∈ peers vars var := mem_peers.mpr ⟨member, rfl⟩
  rw [name_ofVars, name_ofVars, peers, List.filter_append, ← peers,
    FirstAppearance.idxOf_eraseDups_append isPeer]

end Naming

/-! ## Writing from left to right -/

/-- Name a variable; a variable that was not met yet gets the next name of its kind. -/
def Var.write (var : Var) : StateM Naming String := do
  modify fun naming => naming.meet var
  let naming ← get
  pure (naming.name var)

/-- Write a length. -/
def Length.write : Length → StateM Naming String
  | .known count => pure (Nat.repr count)
  | .var id => (Var.length id).write

namespace Ty

mutual

/-- Write a type from left to right and name each variable where it is first met. -/
def write : Ty → StateM Naming String
  | .primitive kind => pure kind.name
  | .array component length => do
      let text ← component.write
      let bound ← length.write
      pure (component.operand text ++ "[" ++ bound ++ "]")
  | .struct fields => do
      let texts ← writeFields fields
      pure ("\x7b " ++ ", ".intercalate texts ++ " \x7d")
  | .function param result => do
      let text ← param.write
      let resultText ← result.write
      pure (param.operand text ++ " -> " ++ resultText)
  | .union members => do
      let texts ← writeMembers members
      pure ("(" ++ " | ".intercalate texts ++ ")")
  | .named _ reference => pure reference
  | .placeholder _ id => (Var.placeholder id).write
  | .parametric scope label => (Var.parametric scope label).write

/-- Write the fields of a struct one after the other. -/
def writeFields : List (String × Ty) → StateM Naming (List String)
  | [] => pure []
  | (label, ty) :: rest => do
      let text ← ty.write
      let texts ← writeFields rest
      pure ((label ++ ": " ++ text) :: texts)

/-- Write the members of a union one after the other. -/
def writeMembers : List Ty → StateM Naming (List String)
  | [] => pure []
  | ty :: rest => do
      let text ← ty.write
      let texts ← writeMembers rest
      pure (text :: texts)

end

end Ty

/--
A writer meets the given variables and returns what `text` is with the names that they have
afterwards, whatever was written before.
-/
structure Writes
    (writer : StateM Naming α)
    (text : (Var → String) → α)
    (vars : List Var) : Prop where
  run_eq (earlier : List Var) :
    writer.run (.ofVars earlier) =
      (text (Naming.ofVars (earlier ++ vars)).name, Naming.ofVars (earlier ++ vars))
  /-- Nothing but the names of these variables counts. -/
  congr {name other : Var → String} :
    (∀ var ∈ vars, name var = other var) → text name = text other

namespace Writes

theorem pure (value : α) : Writes (Pure.pure value) (fun _ => value) [] where
  run_eq earlier := by
    rw [List.append_nil]
    rfl
  congr _ := rfl

/-- Names that were given to the first writer are still the same after the second one. -/
theorem bind
    {writer : StateM Naming α}
    {text : (Var → String) → α}
    {vars : List Var}
    (first : Writes writer text vars)
    {next : α → StateM Naming β}
    {rest : α → (Var → String) → β}
    {others : List Var}
    (second : ∀ value, Writes (next value) (rest value) others) :
    Writes (writer >>= next) (fun name => rest (text name) name) (vars ++ others) where
  run_eq earlier := by
    have kept :
        text (Naming.ofVars (earlier ++ vars)).name =
          text (Naming.ofVars (earlier ++ vars ++ others)).name :=
      first.congr fun var member =>
        (Naming.name_ofVars_append (List.mem_append_right _ member) others).symm
    rw [StateT.run_bind, first.run_eq, ← List.append_assoc, ← kept]
    exact (second _).run_eq (earlier ++ vars)
  congr same := by
    have sameText := first.congr fun var member => same var (List.mem_append_left _ member)
    rw [sameText]
    exact (second _).congr fun var member => same var (List.mem_append_right _ member)

/-- What surrounds a text does not change which variables are met. -/
theorem map
    {writer : StateM Naming α}
    {text : (Var → String) → α}
    {vars : List Var}
    (written : Writes writer text vars)
    (change : α → β) :
    Writes (do let value ← writer; Pure.pure (change value)) (fun name => change (text name))
      vars := by
  have changed := written.bind fun value => .pure (change value)
  rwa [List.append_nil] at changed

/-- Writing a variable meets it and writes its name. -/
theorem var (var : Var) : Writes var.write (fun name => name var) [var] where
  run_eq earlier := by
    rw [← Naming.meet_ofVars]
    rfl
  congr same := same var (List.mem_singleton_self var)

/-- Writing a length meets its variable, if it has one. -/
theorem length (length : Length) :
    Writes length.write length.render (Ty.lengthVars length) := by
  cases length with
  | known count => exact .pure _
  | var id => exact .var _

/-- Fields are written from left to right. -/
theorem fields
    {fields : List (String × Ty)}
    (each :
      ∀ field ∈ fields,
        Writes field.2.write (fun name => field.2.render name) field.2.vars) :
    Writes (Ty.writeFields fields) (fun name => Ty.renderFields name fields)
      (fields.flatMap fun field => field.2.vars) := by
  induction fields with
  | nil => exact .pure []
  | cons field rest inductionHypothesis =>
      obtain ⟨first, others⟩ := List.forall_mem_cons.mp each
      rw [List.flatMap_cons]
      exact first.bind fun text => (inductionHypothesis others).map fun texts =>
        (field.1 ++ ": " ++ text) :: texts

/-- Members are written from left to right. -/
theorem members
    {members : List Ty}
    (each :
      ∀ member ∈ members,
        Writes member.write (fun name => member.render name) member.vars) :
    Writes (Ty.writeMembers members) (fun name => Ty.renderMembers name members)
      (members.flatMap fun member => member.vars) := by
  induction members with
  | nil => exact .pure []
  | cons member rest inductionHypothesis =>
      obtain ⟨first, others⟩ := List.forall_mem_cons.mp each
      rw [List.flatMap_cons]
      exact first.bind fun text => (inductionHypothesis others).map fun texts => text :: texts

/-- Writing a type gives its text with the names that its variables have in the end. -/
theorem ty (ty : Ty) : Writes ty.write (fun name => ty.render name) ty.vars := by
  induction ty using Ty.induction with
  | primitive kind => exact .pure _
  | array component bound componentWritten =>
      rw [Ty.vars_array]
      exact componentWritten.bind fun text => (length bound).map fun boundText =>
        component.operand text ++ "[" ++ boundText ++ "]"
  | struct fields fieldsWritten =>
      rw [Ty.vars_struct]
      exact (Writes.fields fieldsWritten).map fun texts =>
        "\x7b " ++ ", ".intercalate texts ++ " \x7d"
  | function param result paramWritten resultWritten =>
      rw [Ty.vars_function]
      exact paramWritten.bind fun text => resultWritten.map fun resultText =>
        param.operand text ++ " -> " ++ resultText
  | union members membersWritten =>
      rw [Ty.vars_union]
      exact (Writes.members membersWritten).map fun texts =>
        "(" ++ " | ".intercalate texts ++ ")"
  | named scope name => exact .pure _
  | placeholder scope id => exact .var _
  | parametric scope label => exact .var _

end Writes

namespace Ty

/-- A text depends only on the names of the variables in the type. -/
theorem render_congr
    {ty : Ty}
    {name other : Var → String}
    (same : ∀ var ∈ ty.vars, name var = other var) :
    ty.render name = ty.render other :=
  (Writes.ty ty).congr same

/-- The display text is what is written when no variable was met yet. -/
theorem displayText_eq_write (ty : Ty) :
    ty.displayText = (ty.write.run .empty).1 :=
  congrArg Prod.fst ((Writes.ty ty).run_eq []).symm

/-- Two types are displayed as they are written one after the other. -/
theorem displayPair_eq_write (left right : Ty) :
    left.displayPair right =
      ((left.write.run .empty).1, (right.write.run (left.write.run .empty).2).1) := by
  have leftWritten : left.write.run .empty = _ := (Writes.ty left).run_eq []
  rw [leftWritten, List.nil_append]
  dsimp only
  rw [(Writes.ty right).run_eq left.vars]
  refine Prod.ext ?_ rfl
  exact render_congr fun var member => Naming.name_ofVars_append member right.vars

end Ty

end ShaderTyping
