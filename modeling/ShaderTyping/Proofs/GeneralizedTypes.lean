import ShaderTyping.Proofs.Quantification

namespace ShaderTyping

/-!
# Generalized types

Generalizing a type quantifies the variables that are left in it when bindings and
references are replaced, and among those the ones that are left in no type that the
surroundings depend on.  This is the declarative condition; how `generalize` comes to
meet it is the subject of the walk and of the search for monomorphic variables.
-/

/-- Whether a variable has a number below the counters. -/
def Var.isBelow (counters : Counters) : Var → Prop
  | .placeholder id => id.number < counters.placeholder
  | .parametric _ label => label.number < counters.label
  | .length id => id.number < counters.length

/-- Whether a number was handed out before can be decided. -/
instance (counters : Counters) (var : Var) : Decidable (var.isBelow counters) :=
  match var with
  | .placeholder id => inferInstanceAs (Decidable (id.number < counters.placeholder))
  | .parametric _ label => inferInstanceAs (Decidable (label.number < counters.label))
  | .length id => inferInstanceAs (Decidable (id.number < counters.length))

namespace Environment

/-- Whether a variable is left in a type that the surroundings depend on. -/
def dependsOn (env : Environment) (var : Var) : Prop :=
  ∃ root ∈ env.roots, var ∈ (env.resolve root).vars

/--
What becomes of an environment and a type when the variables of the expanded type are
quantified, except those that are monomorphic.
-/
structure Generalized
    (env : Environment)
    (ty : Ty)
    (monomorphic : Var → Prop)
    (result : Ty)
    (final : Environment) : Prop where
  /-- The variables of the expanded type are unbound. -/
  unbound : ∀ var ∈ (env.expand ty).vars, env.isBound var = false
  /-- The placeholders that become bound are those that are not monomorphic. -/
  binds :
    ∀ id,
      env.binding? id = none →
      ((final.binding? id).isSome = true ↔
        .placeholder id ∈ (env.expand ty).vars ∧ ¬ monomorphic (.placeholder id))
  /-- They are bound to parametric types of their scope, with labels never used before. -/
  parametric :
    ∀ id bound,
      env.binding? id = none →
      final.binding? id = some bound →
      ∃ scope label,
        .placeholder scope id ∈ (env.expand ty).leaves ∧
          bound = .parametric scope label ∧
            env.fresh.label ≤ label.number ∧
              ∀ used : Ty,
                (∀ var ∈ used.vars, var.isBelow env.fresh) →
                ∀ other, .parametric other label ∉ used.vars
  /-- Different placeholders get different labels. -/
  distinct :
    ∀ first second firstScope secondScope label,
      env.binding? first = none →
      env.binding? second = none →
      final.binding? first = some (.parametric firstScope label) →
      final.binding? second = some (.parametric secondScope label) →
      first = second
  /-- Bound placeholders and length variables keep their bindings. -/
  bindings : ∀ id bound, env.binding? id = some bound → final.binding? id = some bound
  lengths : ∀ id, final.frames.length? id = env.frames.length? id
  /-- The length variables that become generic are those that are not monomorphic. -/
  generic :
    ∀ id,
      final.frames.isGeneric id = true ↔
        env.frames.isGeneric id = true ∨
          .length id ∈ (env.expand ty).vars ∧ ¬ monomorphic (.length id)
  /-- Nothing else changes. -/
  inferred : ∀ id, final.frames.inferred? id = env.frames.inferred? id
  parameters :
    ∀ function position,
      final.frames.parameter? function position = env.frames.parameter? function position
  unchanged :
    final = { env with frames := final.frames, fresh.label := final.fresh.label }
  /-- The placeholders that are left are the monomorphic ones. -/
  remaining :
    ∀ id,
      .placeholder id ∈ result.vars ↔
        .placeholder id ∈ (env.expand ty).vars ∧ monomorphic (.placeholder id)

variable {env : Environment}

/-- Quantified placeholders are replaced, the others are left. -/
theorem mem_leaves_quantification_iff
    {ty : Ty}
    {scope : ScopeId}
    {id : PlaceholderId} :
    .placeholder scope id ∈ (ty.subst env.quantification).leaves ↔
      .placeholder scope id ∈ ty.leaves ∧
        ∀ boundScope label, env.binding? id ≠ some (.parametric boundScope label) := by
  rw [Ty.mem_leaves_subst_iff]
  constructor
  · rintro ⟨part, isPart, inPart⟩
    cases Ty.isLeaf_of_mem_leaves isPart with
    | placeholder partScope other =>
        simp only [Ty.subst_placeholder, quantification] at inPart
        split at inPart
        · simp at inPart
        · rename_i notQuantified
          rw [Ty.leaves_placeholder, List.mem_singleton] at inPart
          cases inPart
          exact ⟨isPart, notQuantified⟩
    | primitive => simp at inPart
    | named => simp [quantification] at inPart
    | parametric => simp [quantification] at inPart
  · rintro ⟨isLeaf, notQuantified⟩
    refine ⟨_, isLeaf, ?_⟩
    simp [quantification]

/-- The placeholders that quantifying leaves are unbound. -/
theorem Quantified.binding?_eq_none
    {final : Environment}
    {kept : VarSet}
    {leaves : List Ty}
    {lengths : List Length}
    {ty : Ty}
    {scope : ScopeId}
    {id : PlaceholderId}
    (quantified : Quantified kept leaves lengths env final)
    (unbound : env.binding? id = none)
    (isLeaf : .placeholder scope id ∈ (ty.subst final.quantification).leaves) :
    final.binding? id = none := by
  by_contra isBound
  obtain ⟨bound, found⟩ := Option.ne_none_iff_exists'.mp isBound
  obtain ⟨_, boundScope, label, _, rfl⟩ := quantified.parametric unbound found
  exact (mem_leaves_quantification_iff.mp isLeaf).2 boundScope label found

/-- Quantifying except for a set generalizes except for what is in the set. -/
theorem quantify_generalized
    (consistent : env.frames.Consistent)
    {kept : VarSet}
    {monomorphic : Var → Prop}
    (agrees :
      ∀ {var},
        var.isParametric = false →
        env.isBound var = false →
        (kept.contains var = true ↔ monomorphic var))
    (ty : Ty) :
    Generalized env ty monomorphic (quantify kept ty env).1 (quantify kept ty env).2 := by
  obtain ⟨quantified, isResult⟩ := quantify_quantified consistent kept ty
  have unbound : ∀ var ∈ (env.expand ty).vars, env.isBound var = false :=
    fun _ member => isBound_of_mem_vars_expand consistent member
  have keptPlaceholder {id : PlaceholderId} (isUnbound : env.binding? id = none) :
      kept.contains (.placeholder id) = true ↔ monomorphic (.placeholder id) :=
    agrees rfl (isBound_placeholder_eq_false_iff.mpr isUnbound)
  have notBound {id : PlaceholderId} (member : .placeholder id ∈ (env.expand ty).vars) :
      env.binding? id = none :=
    isBound_placeholder_eq_false_iff.mp (unbound _ member)
  have binds {id : PlaceholderId} (isUnbound : env.binding? id = none) :
      ((quantify kept ty env).2.binding? id).isSome = true ↔
        .placeholder id ∈ (env.expand ty).vars ∧ ¬ monomorphic (.placeholder id) := by
    rw [← keptPlaceholder isUnbound, Bool.not_eq_true]
    constructor
    · intro isSome
      obtain ⟨bound, found⟩ := Option.isSome_iff_exists.mp isSome
      obtain ⟨notKept, scope, _, isLeaf, _⟩ := quantified.parametric isUnbound found
      exact ⟨Ty.mentions_iff_mem_leaves.mpr ⟨scope, isLeaf⟩, notKept⟩
    · rintro ⟨member, notKept⟩
      obtain ⟨scope, isLeaf⟩ := Ty.mentions_iff_mem_leaves.mp member
      exact quantified.covered isLeaf notKept
  exact
    { unbound := unbound
      binds := fun id => binds
      parametric := by
        intro id bound isUnbound found
        obtain ⟨_, scope, label, isLeaf, rfl⟩ := quantified.parametric isUnbound found
        have above := (quantified.numbered.range isUnbound found).1
        refine ⟨scope, label, isLeaf, rfl, above, fun used below other member => ?_⟩
        exact absurd (below _ member) above.not_gt
      distinct := by
        intro first second firstScope secondScope label firstUnbound secondUnbound firstFound
          secondFound
        exact quantified.numbered.distinct firstUnbound secondUnbound firstFound secondFound rfl
      bindings := fun _ _ => quantified.numbered.kept
      lengths := quantified.length?
      generic := by
        intro id
        rw [quantified.generic, ← Ty.length_mem_vars_iff]
        refine or_congr_right (and_congr_right fun member => ?_)
        rw [← agrees rfl (unbound _ member), Bool.not_eq_true]
      inferred := quantified.inferred?
      parameters := quantified.parameter?
      unchanged := quantified.unchanged
      remaining := by
        intro id
        rw [isResult]
        constructor
        · intro member
          obtain ⟨scope, isLeaf⟩ := Ty.mentions_iff_mem_leaves.mp member
          have wasLeaf := (mem_leaves_quantification_iff.mp isLeaf).1
          have wasMember := Ty.mentions_iff_mem_leaves.mpr ⟨scope, wasLeaf⟩
          refine ⟨wasMember, ?_⟩
          by_contra isFree
          have isBound := (binds (notBound wasMember)).mpr ⟨wasMember, isFree⟩
          rw [quantified.binding?_eq_none (notBound wasMember) isLeaf] at isBound
          contradiction
        · rintro ⟨member, isMonomorphic⟩
          obtain ⟨scope, isLeaf⟩ := Ty.mentions_iff_mem_leaves.mp member
          refine Ty.mentions_iff_mem_leaves.mpr
            ⟨scope, mem_leaves_quantification_iff.mpr ⟨isLeaf, fun _ _ found => ?_⟩⟩
          have isBound := (binds (notBound member)).mp (Option.isSome_iff_exists.mpr ⟨_, found⟩)
          exact isBound.2 isMonomorphic }

/--
Generalizing quantifies the variables that the surroundings do not depend on, and
closing quantifies all of them.
-/
theorem generalize_generalized (consistent : env.frames.Consistent) (ty : Ty) :
    Generalized env ty env.dependsOn (generalize ty env).1 (generalize ty env).2 ∧
      Generalized env ty (fun _ => False) (close ty env).1 (close ty env).2 := by
  constructor
  · rw [generalize_eq]
    exact quantify_generalized consistent (monomorphic_contains_iff consistent) ty
  · rw [close]
    exact quantify_generalized consistent (by simp) ty

/-- One function with one parameter is around the expression. -/
def insideFunction : Environment :=
  { Environment.empty .standard with
    fresh := ⟨2, 1, 0⟩
    context.activeParams := [[.placeholder ⟨1⟩ ⟨0⟩]] }

/-- A function from the parameter's type to arrays of another type. -/
def toArrays : Ty :=
  .function (.placeholder ⟨1⟩ ⟨0⟩) (.array (.placeholder ⟨1⟩ ⟨1⟩) (.var ⟨0⟩))

/-- Inside the function the type of its parameter is left alone, everything else is quantified. -/
theorem generalize_generalized_insideFunction :
    (generalize toArrays insideFunction).1 =
        .function (.placeholder ⟨1⟩ ⟨0⟩) (.array (.parametric ⟨1⟩ ⟨0⟩) (.var ⟨0⟩)) ∧
      Generalized insideFunction toArrays insideFunction.dependsOn
        (generalize toArrays insideFunction).1 (generalize toArrays insideFunction).2 ∧
        Generalized insideFunction toArrays (fun _ => False)
          (close toArrays insideFunction).1 (close toArrays insideFunction).2 :=
  ⟨by decide +kernel, generalize_generalized .empty toArrays⟩

end Environment

end ShaderTyping
