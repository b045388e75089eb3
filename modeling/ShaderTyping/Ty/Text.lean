import ShaderTyping.Ty.Order

namespace ShaderTyping

/-!
# The text of a type

`Ty.render` writes a type with given names for its inference variables.  The raw
text names them by number and serves traces.  The display text names them by
first appearance, so that what a user reads does not depend on the numbers that
inference happened to hand out.
-/

namespace Var

/-- The name of a variable that shows its number. -/
def rawName : Var → String
  | .placeholder id => "?" ++ Nat.repr id.number
  | .parametric _ label => "T" ++ Nat.repr label.number
  | .length id => "n" ++ Nat.repr id.number

/-- Whether a variable stands for a length. -/
def isLength : Var → Bool
  | .length _ => true
  | _ => false

end Var

/-- The variables of a text, types and lengths apart, by first appearance. -/
structure Naming where
  types : List Var
  lengths : List Var
  deriving Repr

namespace Naming

/-- The naming of some variables in the order they are met. -/
def ofVars (vars : List Var) : Naming where
  types := (vars.filter fun var => !var.isLength).eraseDups
  lengths := (vars.filter Var.isLength).eraseDups

/-- The letters `a` to `z`, then the same letters with a number. -/
def alphabetic (index : Nat) : String :=
  let letter := (Char.ofNat ('a'.toNat + index % 26)).toString
  if index < 26 then letter else letter ++ Nat.repr (index / 26)

/-- The first length variable is `n`, the next ones are `n1`, `n2` and so on. -/
def lengthName (index : Nat) : String :=
  if index = 0 then "n" else "n" ++ Nat.repr index

/-- The name of a variable; a question mark tells placeholders apart. -/
def name (naming : Naming) (var : Var) : String :=
  match var with
  | .placeholder _ => "?" ++ alphabetic (naming.types.idxOf var)
  | .parametric _ _ => alphabetic (naming.types.idxOf var)
  | .length _ => lengthName (naming.lengths.idxOf var)

end Naming

namespace Length

/-- The text of a length with given names for variables. -/
def render (name : Var → String) : Length → String
  | .known count => Nat.repr count
  | .var id => name (.length id)

/-- The text of a length that shows the number of a variable. -/
def rawText (length : Length) : String :=
  length.render Var.rawName

end Length

namespace Ty

/-- Function types stand in parentheses before an arrow or a bracket. -/
def operand (ty : Ty) (text : String) : String :=
  if ty.isFunction then "(" ++ text ++ ")" else text

mutual

/-- The text of a type with given names for its variables. -/
def render (name : Var → String) : Ty → String
  | .primitive kind => kind.name
  | .array component length =>
      component.operand (component.render name) ++ "[" ++ length.render name ++ "]"
  | .struct fields =>
      "\x7b " ++ ", ".intercalate (renderFields name fields) ++ " \x7d"
  | .function param result =>
      param.operand (param.render name) ++ " -> " ++ result.render name
  | .union members =>
      "(" ++ " | ".intercalate (renderMembers name members) ++ ")"
  | .named _ reference => reference
  | .placeholder _ id => name (.placeholder id)
  | .parametric scope label => name (.parametric scope label)

/-- The text of each field of a struct. -/
def renderFields (name : Var → String) : List (String × Ty) → List String
  | [] => []
  | (label, ty) :: rest =>
      (label ++ ": " ++ ty.render name) :: renderFields name rest

/-- The text of each member of a union. -/
def renderMembers (name : Var → String) : List Ty → List String
  | [] => []
  | ty :: rest => ty.render name :: renderMembers name rest

end

/-- The fields of a struct are written one by one, each behind its label. -/
theorem renderFields_eq_map
    (name : Var → String)
    (fields : List (String × Ty)) :
    renderFields name fields =
      fields.map fun field => field.1 ++ ": " ++ field.2.render name := by
  induction fields with
  | nil => rfl
  | cons field rest inductionHypothesis =>
      rw [renderFields, inductionHypothesis, List.map_cons]

/-- The members of an overload set are written one by one. -/
theorem renderMembers_eq_map
    (name : Var → String)
    (members : List Ty) :
    renderMembers name members = members.map fun member => member.render name := by
  induction members with
  | nil => rfl
  | cons member rest inductionHypothesis =>
      rw [renderMembers, inductionHypothesis, List.map_cons]

/-- The text of a type that shows the numbers of variables. -/
def rawText (ty : Ty) : String :=
  ty.render Var.rawName

/-- The text of a type for users. -/
def displayText (ty : Ty) : String :=
  ty.render (Naming.ofVars ty.vars).name

/-- The texts of two types that name a shared variable alike. -/
def displayPair (left right : Ty) : String × String :=
  let naming := Naming.ofVars (left.vars ++ right.vars)
  (left.render naming.name, right.render naming.name)

end Ty

end ShaderTyping
