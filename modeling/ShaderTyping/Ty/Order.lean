import ShaderTyping.Ty.Basic

namespace ShaderTyping

/-!
# The structural order of types

Types are compared by the kind of their outermost constructor first and then
part by part from left to right.  Structs compare as lists of labelled types and
unions as lists of members; a proper initial segment is smaller.  Two types
compare as equal exactly when they are equal (`Ty.compare_eq_iff`), which makes
equality of types decidable.
-/

namespace Length

/-- Known lengths come before length variables. -/
def compare : Length → Length → Ordering
  | .known left, .known right => Ord.compare left right
  | .known _, .var _ => .lt
  | .var _, .known _ => .gt
  | .var left, .var right => Ord.compare left.number right.number

/-- Lengths compare as equal exactly when they are equal. -/
theorem compare_eq_iff {left right : Length} :
    left.compare right = .eq ↔ left = right := by
  cases left <;> cases right <;>
    simp [compare, LengthId.ext_iff]

end Length

namespace Ty

/-- The place of the outermost constructor in the order of types. -/
def rank : Ty → Nat
  | .primitive _ => 0
  | .array _ _ => 1
  | .struct _ => 2
  | .function _ _ => 3
  | .union _ => 4
  | .named _ _ => 5
  | .placeholder _ _ => 6
  | .parametric _ _ => 7

mutual

/-- The structural order of types. -/
def compare : Ty → Ty → Ordering
  | .primitive left, .primitive right => Ord.compare left.rank right.rank
  | .array component length, .array component' length' =>
      (component.compare component').then (length.compare length')
  | .struct fields, .struct fields' => compareFields fields fields'
  | .function param result, .function param' result' =>
      (param.compare param').then (result.compare result')
  | .union members, .union members' => compareMembers members members'
  | .named scope name, .named scope' name' =>
      (Ord.compare scope.number scope'.number).then (Ord.compare name name')
  | .placeholder scope id, .placeholder scope' id' =>
      (Ord.compare scope.number scope'.number).then
        (Ord.compare id.number id'.number)
  | .parametric scope label, .parametric scope' label' =>
      (Ord.compare scope.number scope'.number).then
        (Ord.compare label.number label'.number)
  | left, right => Ord.compare left.rank right.rank

/-- Structs compare as lists of labels and types. -/
def compareFields : List (String × Ty) → List (String × Ty) → Ordering
  | [], [] => .eq
  | [], _ :: _ => .lt
  | _ :: _, [] => .gt
  | (label, ty) :: rest, (label', ty') :: rest' =>
      (Ord.compare label label').then
        ((ty.compare ty').then (compareFields rest rest'))

/-- Unions compare as lists of members. -/
def compareMembers : List Ty → List Ty → Ordering
  | [], [] => .eq
  | [], _ :: _ => .lt
  | _ :: _, [] => .gt
  | ty :: rest, ty' :: rest' =>
      (ty.compare ty').then (compareMembers rest rest')

end

/-- Field lists compare as equal exactly when they are equal, if their types do. -/
theorem compareFields_eq_iff
    {fields : List (String × Ty)}
    (inductionHypothesis :
      ∀ field ∈ fields, ∀ right, field.2.compare right = .eq ↔ field.2 = right)
    (right : List (String × Ty)) :
    compareFields fields right = .eq ↔ fields = right := by
  induction fields generalizing right with
  | nil => cases right <;> simp [compareFields]
  | cons field rest restEqual =>
      obtain ⟨label, ty⟩ := field
      cases right with
      | nil => simp [compareFields]
      | cons field' rest' =>
          obtain ⟨label', ty'⟩ := field'
          rw [compareFields, Ordering.then_eq_eq, Ordering.then_eq_eq,
            inductionHypothesis (label, ty) List.mem_cons_self,
            restEqual fun field member =>
              inductionHypothesis field (List.mem_cons_of_mem _ member)]
          simp [and_assoc]

/-- Member lists compare as equal exactly when they are equal, if their types do. -/
theorem compareMembers_eq_iff
    {members : List Ty}
    (inductionHypothesis :
      ∀ member ∈ members, ∀ right, member.compare right = .eq ↔ member = right)
    (right : List Ty) :
    compareMembers members right = .eq ↔ members = right := by
  induction members generalizing right with
  | nil => cases right <;> simp [compareMembers]
  | cons member rest restEqual =>
      cases right with
      | nil => simp [compareMembers]
      | cons member' rest' =>
          rw [compareMembers, Ordering.then_eq_eq,
            inductionHypothesis member List.mem_cons_self,
            restEqual fun member inRest =>
              inductionHypothesis member (List.mem_cons_of_mem _ inRest)]
          simp

/-- Types compare as equal exactly when they are equal. -/
theorem compare_eq_iff {left right : Ty} :
    left.compare right = .eq ↔ left = right := by
  induction left using Ty.induction generalizing right with
  | primitive kind =>
      cases right <;> simp [compare, rank]
      exact ⟨Primitive.rank_injective, congrArg _⟩
  | array component length componentEqual =>
      cases right <;>
        simp [compare, rank, Ordering.then_eq_eq,
          componentEqual, Length.compare_eq_iff]
  | struct fields fieldsEqual =>
      cases right <;> simp [compare, rank]
      exact compareFields_eq_iff (fun field member _ => fieldsEqual field member) _
  | function param result paramEqual resultEqual =>
      cases right <;>
        simp [compare, rank, Ordering.then_eq_eq,
          paramEqual, resultEqual]
  | union members membersEqual =>
      cases right <;> simp [compare, rank]
      exact compareMembers_eq_iff (fun member inList _ => membersEqual member inList) _
  | named scope name =>
      cases right <;>
        simp [compare, rank, Ordering.then_eq_eq,
          ScopeId.ext_iff]
  | placeholder scope id =>
      cases right <;>
        simp [compare, rank, Ordering.then_eq_eq,
          ScopeId.ext_iff, PlaceholderId.ext_iff]
  | parametric scope label =>
      cases right <;>
        simp [compare, rank, Ordering.then_eq_eq,
          ScopeId.ext_iff, LabelId.ext_iff]

/-- Equality of types is decided by comparing them. -/
instance : DecidableEq Ty := fun _ _ =>
  decidable_of_iff _ compare_eq_iff

/-- Whether a type comes no later than another one. -/
def le (left right : Ty) : Bool :=
  (left.compare right).isLE

/-- Types in ascending order. -/
def sort (types : List Ty) : List Ty :=
  types.mergeSort le

end Ty

end ShaderTyping
