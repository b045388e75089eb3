import ShaderTyping.Ty.Order

namespace ShaderTyping

/-!
# Overload sets

A union lists at least two different members, none of them a union, in ascending
order.  `Ty.ofMembers` builds this form from any list of types: it takes the
members of unions instead of the unions, drops repetitions, and returns a single
member as it is.
-/

namespace Ty

/-- The types that a type offers as an overload set. -/
def alternatives : Ty → List Ty
  | .union members => members
  | ty => [ty]

/-- Put a type in its place in an ascending list, unless it is there already. -/
def insertMember (ty : Ty) : List Ty → List Ty
  | [] => [ty]
  | first :: rest =>
      match ty.compare first with
      | .lt => ty :: first :: rest
      | .eq => first :: rest
      | .gt => first :: insertMember ty rest

/-- The different alternatives of some types, in ascending order. -/
def canonicalMembers (types : List Ty) : List Ty :=
  (types.flatMap alternatives).foldr insertMember []

/-- The overload set of some types; there is none without types. -/
def ofMembers (types : List Ty) : Option Ty :=
  match canonicalMembers types with
  | [] => none
  | [only] => some only
  | members => some (.union members)

/-- Inserting a member adds it and keeps the others. -/
theorem mem_insertMember {ty candidate : Ty} {members : List Ty} :
    candidate ∈ insertMember ty members ↔ candidate = ty ∨ candidate ∈ members := by
  induction members with
  | nil => simp [insertMember]
  | cons first rest inductionHypothesis =>
      unfold insertMember
      split
      · simp
      · rename_i isEqual
        cases compare_eq_iff.mp isEqual
        simp
      · simp only [List.mem_cons, inductionHypothesis]
        exact or_left_comm

/-- The canonical members are exactly the alternatives of the types. -/
theorem mem_canonicalMembers {candidate : Ty} {types : List Ty} :
    candidate ∈ canonicalMembers types ↔
      ∃ ty ∈ types, candidate ∈ ty.alternatives := by
  rw [← List.mem_flatMap]
  unfold canonicalMembers
  induction types.flatMap alternatives with
  | nil => simp
  | cons first rest inductionHypothesis =>
      simp [mem_insertMember, inductionHypothesis]

end Ty

end ShaderTyping
