import ShaderTyping.Environment.Resolve

namespace ShaderTyping

/-!
# Generalization and instantiation

Generalizing a type quantifies its unbound variables.  A placeholder is bound to
a new parametric type, so the quantification shows wherever the placeholder was
used; a length variable is marked as generic.  Variables that the surroundings
still depend on are monomorphic and left alone.  Instantiating a type puts fresh
variables for the quantified ones.
-/

/-- A set of placeholders and length variables. -/
structure VarSet where
  placeholders : Std.TreeSet PlaceholderId
  lengths : Std.TreeSet LengthId
  deriving Repr

namespace VarSet

/-- The set without variables. -/
def empty : VarSet where
  placeholders := ∅
  lengths := ∅

/-- Whether a variable is in a set; parametric types never are. -/
def contains (set : VarSet) : Var → Bool
  | .placeholder id => set.placeholders.contains id
  | .length id => set.lengths.contains id
  | .parametric _ _ => false

/-- Add a variable, unless it is a parametric type. -/
def insert (set : VarSet) : Var → VarSet
  | .placeholder id => { set with placeholders := set.placeholders.insert id }
  | .length id => { set with lengths := set.lengths.insert id }
  | .parametric _ _ => set

@[simp] theorem contains_empty (var : Var) : empty.contains var = false := by
  cases var <;> simp [contains, empty]

/-- A set contains what was added to it and what it contained before. -/
theorem contains_insert
    {added : Var}
    (isOpen : added.isParametric = false)
    (set : VarSet)
    (var : Var) :
    (set.insert added).contains var = (decide (var = added) || set.contains var) := by
  cases added with
  | parametric => contradiction
  | placeholder id | length id =>
      cases var <;>
        simp [insert, contains, Std.TreeSet.contains_insert, compare_beq_eq]

end VarSet

namespace Environment

/--
The types that the surroundings depend on: parameters of the functions around the
expression, declarations that are being inferred, and outside values without a
written type.
-/
def roots (env : Environment) : List Ty :=
  env.context.activeParams.flatten ++
    (env.context.inProgress.map Prod.snd ++ env.context.externals)

/-- The variables of a type; length variables are followed to the end of their bindings. -/
def varsOf (env : Environment) (ty : Ty) : List Var :=
  ty.collect Ty.leafVars fun length => Ty.lengthVars (env.resolveLength length)

/-- The type that a variable is bound to, if it is a bound placeholder. -/
def boundType? (env : Environment) : Var → Option Ty
  | .placeholder id => env.binding? id
  | .parametric _ _ | .length _ => none

/-- Variables that were met along bindings, and types whose variables were not. -/
structure Reach where
  met : VarSet
  pending : List Ty
  deriving Repr

namespace Reach

/-- Meet a variable; at the first time the type that it is bound to is pending. -/
def meet (env : Environment) (reach : Reach) (var : Var) : Reach :=
  if reach.met.contains var then
    reach
  else
    { met := reach.met.insert var
      pending := (env.boundType? var).toList ++ reach.pending }

/-- Meet the variables of at most `steps` pending types. -/
def closeWithin (env : Environment) : Nat → Reach → VarSet
  | steps + 1, ⟨met, ty :: pending⟩ =>
      closeWithin env steps ((env.varsOf ty).foldl (meet env) ⟨met, pending⟩)
  | _, reach => reach.met

end Reach

/--
The variables that the surroundings depend on, directly or along bindings.

Every variable is met once, so besides the roots at most one type becomes pending
for each bound placeholder, however often types share their parts.
-/
def monomorphic (env : Environment) : VarSet :=
  Reach.closeWithin env (env.roots.length + env.bindingCount) ⟨VarSet.empty, env.roots⟩

/-- Quantify an unbound placeholder, unless it is monomorphic. -/
def quantifyPlaceholder (kept : VarSet) (scope : ScopeId) (id : PlaceholderId) :
    StateM Environment Ty := do
  if kept.contains (.placeholder id) then
    pure (.placeholder scope id)
  else
    let label ← freshLabel
    modify (bindPlaceholder id (.parametric scope label))
    pure (.parametric scope label)

/-- Follow a length and quantify the variable at its end, unless it is monomorphic. -/
def quantifyLength (kept : VarSet) (length : Length) : StateM Environment Length := do
  let env ← get
  match env.resolveLength length with
  | .var id =>
      unless kept.contains (.length id) do
        modify (markGeneric id)
      pure (.var id)
  | .known count => pure (.known count)

/--
Quantify the variables of a type along at most `steps` bindings and definitions;
`expanding` lists the declared types around this place.
-/
def quantifyWithin (kept : VarSet) : Nat → List AliasKey → Ty → StateM Environment Ty
  | 0, _, ty => pure ty
  | steps + 1, expanding, ty =>
      ty.traverse
        { named := fun scope name => do
            match (← get).definition? scope name with
            | some (key, definition) =>
                if expanding.contains key then
                  pure (.named scope name)
                else
                  quantifyWithin kept steps (key :: expanding) definition
            | none => pure (.named scope name)
          placeholder := fun scope id => do
            match (← get).binding? id with
            | some bound => quantifyWithin kept steps expanding bound
            | none => quantifyPlaceholder kept scope id
          parametric := fun scope label => pure (.parametric scope label)
          length := quantifyLength kept }

/-- Quantify the variables of a type except the given ones. -/
def quantify (kept : VarSet) (ty : Ty) : StateM Environment Ty := do
  quantifyWithin kept ((← get).walkLimit + 1) [] ty

/-- Quantify the variables of a type that are not monomorphic. -/
def generalize (ty : Ty) : StateM Environment Ty := do
  quantify (← get).monomorphic ty

/-- Quantify all variables of a type. -/
def close (ty : Ty) : StateM Environment Ty :=
  quantify VarSet.empty ty

/-- The fresh variables of one instantiation. -/
structure Instance where
  types : List ((ScopeId × LabelId) × Ty)
  lengths : List (LengthId × Length)
  deriving Repr

/-- The fresh placeholder for a parametric type, a new one at the first use. -/
def instantiateParametric (scope : ScopeId) (label : LabelId) :
    StateT Instance (StateM Environment) Ty := do
  match (← get).types.lookup (scope, label) with
  | some ty => pure ty
  | none =>
      let ty ← (freshPlaceholder scope : StateM Environment Ty)
      modify fun fresh => { fresh with types := ((scope, label), ty) :: fresh.types }
      pure ty

/-- The fresh variable for a generic length variable, a new one at the first use. -/
def instantiateLength (length : Length) :
    StateT Instance (StateM Environment) Length := do
  match length with
  | .known count => pure (.known count)
  | .var id =>
      let env ← (get : StateM Environment Environment)
      if env.frames.isGeneric id then
        match (← get).lengths.lookup id with
        | some fresh => pure fresh
        | none =>
            let fresh ← (freshLength : StateM Environment Length)
            modify fun made => { made with lengths := (id, fresh) :: made.lengths }
            pure fresh
      else
        pure (.var id)

/-- Whether a variable is put fresh by instantiation. -/
def isQuantified (env : Environment) : Var → Bool
  | .placeholder _ => false
  | .parametric _ _ => true
  | .length id => env.frames.isGeneric id

/-- Put fresh variables for the quantified variables of a type. -/
def instantiate (ty : Ty) : StateM Environment Ty := do
  let env ← get
  let ty := env.resolve ty
  if ty.vars.any env.isQuantified then
    let traversal : StateT Instance (StateM Environment) Ty :=
      ty.traverse
        { named := fun scope name => pure (.named scope name)
          placeholder := fun scope id => pure (.placeholder scope id)
          parametric := instantiateParametric
          length := instantiateLength }
    let (ty, _) ← traversal.run ⟨[], []⟩
    pure ty
  else
    pure ty

end Environment

end ShaderTyping
