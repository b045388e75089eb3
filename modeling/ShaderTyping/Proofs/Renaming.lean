import Mathlib.Data.Set.Function
import ShaderTyping.Proofs.Bindings
import ShaderTyping.Proofs.Composition

namespace ShaderTyping

/-!
# Renaming the variables of a type

Renaming replaces variables by variables and rebuilds overload sets.  Members may
change their order on the way, but renaming back restores a canonical type exactly, so
no members are merged or lost.
-/

/-- There is a variable, which renaming back needs where nothing was renamed. -/
instance : Inhabited Var where
  default := .length ⟨0⟩

/-- The type that a variable is in a scope; a length variable is none. -/
def Ty.ofVar (scope : ScopeId) : Var → Ty
  | .placeholder id => .placeholder scope id
  | .parametric own label => .parametric own label
  | .length _ => .union []

/-- The length that a variable is; a type variable is none. -/
def Length.ofVar : Var → Length
  | .length id => .var id
  | .placeholder _ | .parametric _ _ => .known 0

/-- The substitution that renames variables. -/
def Substitution.renames (rename : Var → Var) : Substitution where
  named := .named
  placeholder := fun scope id => Ty.ofVar scope (rename (.placeholder id))
  parametric := fun scope label => Ty.ofVar scope (rename (.parametric scope label))
  length := fun length =>
    match length with
    | .known count => .known count
    | .var id => Length.ofVar (rename (.length id))

/-- Whether a type variable is renamed to a placeholder, or a length variable to another one. -/
def Var.OpensTo : Var → Var → Prop
  | .length _, .length _ => True
  | .placeholder _, .placeholder _ => True
  | .parametric _ _, .placeholder _ => True
  | _, _ => False

namespace Ty

/-- Rename the variables of a type; overload sets are rebuilt. -/
def rename (rename : Var → Var) (ty : Ty) : Ty :=
  ty.subst (.renames rename)

/-- A variable as a type is in canonical form. -/
theorem canonical_ofVar (scope : ScopeId) (var : Var) : (ofVar scope var).Canonical := by
  cases var with
  | placeholder id => exact .placeholder scope id
  | parametric own label => exact .parametric own label
  | length id => exact .union (by simp) (by simp) .nil (by simp)

/-- What renaming puts in is in canonical form. -/
theorem renames_isCanonical (rename : Var → Var) :
    (Substitution.renames rename).IsCanonical := by
  intro leaf isLeaf
  cases isLeaf with
  | primitive kind => exact .primitive kind
  | named scope name => exact .named scope name
  | placeholder scope id => exact canonical_ofVar scope _
  | parametric scope label => exact canonical_ofVar scope _

/-- Renaming back restores a canonical type. -/
theorem rename_rename
    {ty : Ty}
    (canonical : ty.Canonical)
    {rename back : Var → Var}
    (opens : ∀ var ∈ ty.vars, var.OpensTo (rename var))
    (inverse : ∀ var ∈ ty.vars, back (rename var) = var) :
    (ty.rename rename).rename back = ty := by
  rw [Ty.rename, Ty.rename, subst_subst (renames_isCanonical back)]
  refine canonical.subst_eq_self (fun _ => rfl) (fun id member => ?_) fun leaf isLeaf => ?_
  · have isInverse := inverse _ member
    have isLength := opens _ member
    cases renamed : rename (.length id) with
    | length fresh =>
        rw [renamed] at isInverse
        simp [Substitution.andThen, Substitution.renames, renamed, Length.ofVar, isInverse]
    | placeholder => simp [renamed, Var.OpensTo] at isLength
    | parametric => simp [renamed, Var.OpensTo] at isLength
  · cases isLeaf_of_mem_leaves isLeaf with
    | primitive | named => rfl
    | placeholder scope id =>
        have member := mentions_iff_mem_leaves.mpr ⟨scope, isLeaf⟩
        have isInverse := inverse _ member
        have isPlaceholder := opens _ member
        cases renamed : rename (.placeholder id) with
        | placeholder fresh =>
            rw [renamed] at isInverse
            simp [Substitution.andThen, Substitution.renames, renamed, ofVar, isInverse]
        | parametric => simp [renamed, Var.OpensTo] at isPlaceholder
        | length => simp [renamed, Var.OpensTo] at isPlaceholder
    | parametric scope label =>
        have member := parametric_mem_vars_iff.mpr isLeaf
        have isInverse := inverse _ member
        have isPlaceholder := opens _ member
        cases renamed : rename (.parametric scope label) with
        | placeholder fresh =>
            rw [renamed] at isInverse
            simp [Substitution.andThen, Substitution.renames, renamed, ofVar, isInverse]
        | parametric => simp [renamed, Var.OpensTo] at isPlaceholder
        | length => simp [renamed, Var.OpensTo] at isPlaceholder

end Ty

end ShaderTyping
