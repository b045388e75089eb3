import ShaderTyping.Proofs.GeneralizedTypes
import ShaderTyping.Proofs.Instantiation
import ShaderTyping.Proofs.Renaming

namespace ShaderTyping

/-!
# Instantiation undoes generalization

Type variables and length variables are quantified in two ways: a placeholder is bound
to a parametric type, a length variable is marked as generic.  Instantiating a
generalized type renames both to fresh variables.  So the outcome is the expanded type
with its quantified variables renamed, and renaming them back restores it, although
overload sets are rebuilt at both steps.
-/

namespace Environment

/-- Whether instantiation leaves a variable of a generalized type alone. -/
def isFixed (env : Environment) : Var → Prop
  | .placeholder id => env.dependsOn (.placeholder id)
  | .parametric _ _ => False
  | .length id => env.dependsOn (.length id) ∧ env.frames.isGeneric id = false

/--
A type was generalized in an environment, which left another one, and instantiated at
a site where nothing was bound or quantified since.
-/
structure Reused
    (env : Environment)
    (ty : Ty)
    (general site : Environment)
    (making : Making) : Prop where
  consistent : env.frames.Consistent
  below : ∀ var ∈ (env.expand ty).vars, var.isBelow env.fresh
  oneScope :
    ∀ {first second id},
      .placeholder first id ∈ (env.expand ty).leaves →
      .placeholder second id ∈ (env.expand ty).leaves →
      first = second
  quantified :
    Quantified env.monomorphic (env.expand ty).leaves (env.expand ty).lengths env general
  instantiated :
    Instantiated ((env.expand ty).subst general.quantification).leaves
      ((env.expand ty).subst general.quantification).lengths (⟨[], []⟩, site) making
  sameFrames : site.frames = general.frames
  placeholders : env.fresh.placeholder ≤ site.fresh.placeholder
  lengths : env.fresh.length ≤ site.fresh.length

/-- The fresh placeholder for a parametric type. -/
def typeName (making : Making) (scope : ScopeId) (label : LabelId) : Var :=
  match making.1.types.lookup (scope, label) with
  | some (.placeholder _ id) => .placeholder id
  | _ => .parametric scope label

/-- What a variable is called after generalization and instantiation. -/
def freshName (general : Environment) (making : Making) : Var → Var
  | .placeholder id =>
      match general.binding? id with
      | some (.parametric scope label) => typeName making scope label
      | _ => .placeholder id
  | .parametric scope label => typeName making scope label
  | .length id =>
      if making.2.frames.isGeneric id then
        match making.1.lengths.lookup id with
        | some (.var fresh) => .length fresh
        | _ => .length id
      else
        .length id

/-- A type variable stands for a parametric type after generalization. -/
inductive QuantifiedAs (env general : Environment) : Var → ScopeId × LabelId → Prop where
  | placeholder {id : PlaceholderId} {scope : ScopeId} {label : LabelId} :
      env.binding? id = none →
      general.binding? id = some (.parametric scope label) →
      QuantifiedAs env general (.placeholder id) (scope, label)
  | parametric (scope : ScopeId) (label : LabelId) :
      QuantifiedAs env general (.parametric scope label) (scope, label)

/-- A placeholder that became quantified is replaced by its quantified type. -/
theorem quantification_of_bound
    {env : Environment}
    {id : PlaceholderId}
    {scope boundScope : ScopeId}
    {label : LabelId}
    (found : env.binding? id = some (.parametric boundScope label)) :
    (Ty.placeholder scope id).subst env.quantification = .parametric boundScope label := by
  simp only [Ty.subst_placeholder, quantification, found]

namespace Reused

variable {env general site : Environment} {ty : Ty} {making : Making}

/-- The variables of the expanded type are unbound. -/
theorem unbound
    (reused : Reused env ty general site making)
    {id : PlaceholderId}
    (member : .placeholder id ∈ (env.expand ty).vars) :
    env.binding? id = none :=
  isBound_placeholder_eq_false_iff.mp (isBound_of_mem_vars_expand reused.consistent member)

/-- The variables that are kept from quantification are those that the surroundings depend on. -/
theorem kept_iff
    (reused : Reused env ty general site making)
    {var : Var}
    (isOpen : var.isParametric = false)
    (member : var ∈ (env.expand ty).vars) :
    env.monomorphic.contains var = true ↔ env.dependsOn var :=
  monomorphic_contains_iff reused.consistent isOpen
    (isBound_of_mem_vars_expand reused.consistent member)

/-- A parametric type that is put for a leaf has a fresh placeholder of its scope. -/
theorem typeMade
    (reused : Reused env ty general site making)
    {leaf : Ty}
    {scope : ScopeId}
    {label : LabelId}
    (isLeaf : leaf ∈ (env.expand ty).leaves)
    (isPut : leaf.subst general.quantification = .parametric scope label) :
    ∃ fresh, making.1.types.lookup (scope, label) = some (.placeholder scope fresh) := by
  have inGeneral :
      .parametric scope label ∈ ((env.expand ty).subst general.quantification).leaves :=
    Ty.mem_leaves_subst_iff.mpr ⟨leaf, isLeaf, by simp [isPut]⟩
  obtain ⟨made, found⟩ :=
    Option.isSome_iff_exists.mp (reused.instantiated.typesCovered inGeneral)
  obtain ⟨fresh, rfl⟩ := reused.instantiated.placeholder rfl found
  exact ⟨fresh, found⟩

/-- The length variables that are generic after generalization. -/
theorem generic_iff
    (reused : Reused env ty general site making)
    {id : LengthId}
    (member : .length id ∈ (env.expand ty).vars) :
    making.2.frames.isGeneric id = true ↔ ¬ env.isFixed (.length id) := by
  have sameFrames : making.2.frames = general.frames :=
    reused.instantiated.frames.trans reused.sameFrames
  rw [sameFrames, reused.quantified.generic, ← Bool.not_eq_true, reused.kept_iff rfl member,
    isFixed]
  have isLength := Ty.length_mem_vars_iff.mp member
  cases env.frames.isGeneric id <;> simp [isLength]

/-- Generic length variables have fresh ones. -/
theorem lengthMade
    (reused : Reused env ty general site making)
    {id : LengthId}
    (member : .length id ∈ (env.expand ty).vars)
    (isGeneric : making.2.frames.isGeneric id = true) :
    ∃ fresh, making.1.lengths.lookup id = some (.var fresh) := by
  have isLength : .var id ∈ ((env.expand ty).subst general.quantification).lengths :=
    Ty.mem_lengths_subst_iff.mpr (Or.inr ⟨_, Ty.length_mem_vars_iff.mp member, rfl⟩)
  obtain ⟨length, found⟩ :=
    Option.isSome_iff_exists.mp (reused.instantiated.lengthsCovered isLength isGeneric)
  obtain ⟨fresh, rfl⟩ := reused.instantiated.lengthVar rfl found
  exact ⟨fresh, found⟩

/-- A placeholder that the surroundings depend on is not quantified. -/
theorem binding?_of_fixed
    (reused : Reused env ty general site making)
    {id : PlaceholderId}
    (member : .placeholder id ∈ (env.expand ty).vars)
    (isFixed : env.dependsOn (.placeholder id)) :
    general.binding? id = none := by
  cases found : general.binding? id with
  | none => rfl
  | some bound =>
      have notKept := (reused.quantified.parametric (reused.unbound member) found).1
      rw [(reused.kept_iff rfl member).mpr isFixed] at notKept
      contradiction

/-- A placeholder that they do not depend on stands for a parametric type of its scope. -/
theorem binding?_of_not_fixed
    (reused : Reused env ty general site making)
    {scope : ScopeId}
    {id : PlaceholderId}
    (isLeaf : .placeholder scope id ∈ (env.expand ty).leaves)
    (notFixed : ¬ env.dependsOn (.placeholder id)) :
    ∃ label, general.binding? id = some (.parametric scope label) := by
  have member := Ty.mentions_iff_mem_leaves.mpr ⟨scope, isLeaf⟩
  have notKept : env.monomorphic.contains (.placeholder id) = false := by
    rwa [← Bool.not_eq_true, reused.kept_iff rfl member]
  obtain ⟨bound, found⟩ :=
    Option.isSome_iff_exists.mp (reused.quantified.covered isLeaf notKept)
  obtain ⟨_, boundScope, label, isBoundLeaf, rfl⟩ :=
    reused.quantified.parametric (reused.unbound member) found
  cases reused.oneScope isLeaf isBoundLeaf
  exact ⟨label, found⟩

/-- What a variable that is not fixed is renamed to. -/
inductive Renamed (env general : Environment) (making : Making) : Var → Var → Prop where
  | type {var : Var} {key : ScopeId × LabelId} {fresh : PlaceholderId} :
      QuantifiedAs env general var key →
      making.1.types.lookup key = some (.placeholder key.1 fresh) →
      Renamed env general making var (.placeholder fresh)
  | length {id fresh : LengthId} :
      making.1.lengths.lookup id = some (.var fresh) →
      Renamed env general making (.length id) (.length fresh)

/-- A fixed variable keeps its name. -/
theorem freshName_of_fixed
    (reused : Reused env ty general site making)
    {var : Var}
    (member : var ∈ (env.expand ty).vars)
    (isFixed : env.isFixed var) :
    freshName general making var = var := by
  cases var with
  | placeholder id => simp [freshName, reused.binding?_of_fixed member isFixed]
  | parametric scope label => exact isFixed.elim
  | length id =>
      have notGeneric : ¬ making.2.frames.isGeneric id = true := fun isGeneric =>
        (reused.generic_iff member).mp isGeneric isFixed
      simp [freshName, notGeneric]

/-- A variable that is not fixed gets the fresh name of its quantified one. -/
theorem renamed_of_not_fixed
    (reused : Reused env ty general site making)
    {var : Var}
    (member : var ∈ (env.expand ty).vars)
    (notFixed : ¬ env.isFixed var) :
    Renamed env general making var (freshName general making var) := by
  cases var with
  | placeholder id =>
      obtain ⟨scope, isLeaf⟩ := Ty.mentions_iff_mem_leaves.mp member
      obtain ⟨label, found⟩ := reused.binding?_of_not_fixed isLeaf notFixed
      obtain ⟨fresh, isMade⟩ := reused.typeMade isLeaf (quantification_of_bound found)
      simp only [freshName, found, typeName, isMade]
      exact .type (.placeholder (reused.unbound member) found) isMade
  | parametric scope label =>
      obtain ⟨fresh, isMade⟩ := reused.typeMade (Ty.parametric_mem_vars_iff.mp member) rfl
      simp only [freshName, typeName, isMade]
      exact .type (.parametric scope label) isMade
  | length id =>
      have isGeneric := (reused.generic_iff member).mpr notFixed
      obtain ⟨fresh, isMade⟩ := reused.lengthMade member isGeneric
      simp only [freshName, isGeneric, if_true, isMade]
      exact .length isMade

/-- A parametric type stands for one variable only: new labels were never used before. -/
theorem quantifiedAs_unique
    (reused : Reused env ty general site making)
    {first second : Var}
    {key : ScopeId × LabelId}
    (firstMember : first ∈ (env.expand ty).vars)
    (secondMember : second ∈ (env.expand ty).vars)
    (firstAs : QuantifiedAs env general first key)
    (secondAs : QuantifiedAs env general second key) :
    first = second := by
  cases firstAs with
  | placeholder firstUnbound firstFound =>
      cases secondAs with
      | placeholder secondUnbound secondFound =>
          rw [reused.quantified.numbered.distinct firstUnbound secondUnbound firstFound
            secondFound rfl]
      | parametric =>
          have above := (reused.quantified.numbered.range firstUnbound firstFound).1
          exact absurd (reused.below _ secondMember) above.not_gt
  | parametric =>
      cases secondAs with
      | placeholder secondUnbound secondFound =>
          have above := (reused.quantified.numbered.range secondUnbound secondFound).1
          exact absurd (reused.below _ firstMember) above.not_gt
      | parametric => rfl

/-- Variables that are renamed get numbers from the counters of the site. -/
theorem renamed_range
    (reused : Reused env ty general site making)
    {var name : Var}
    (renamed : Renamed env general making var name) :
    ¬ name.isBelow site.fresh ∧ name.isBelow making.2.fresh := by
  cases renamed with
  | type _ isMade =>
      obtain ⟨above, below⟩ := reused.instantiated.newTypes.range rfl isMade
      exact ⟨above.not_gt, below⟩
  | length isMade =>
      obtain ⟨above, below⟩ := reused.instantiated.newLengths.range rfl isMade
      exact ⟨above.not_gt, below⟩

/-- Old variables are below the numbers that are fresh at the site. -/
theorem isBelow_site
    (reused : Reused env ty general site making)
    {var : Var}
    (isOpen : var.isParametric = false)
    (below : var.isBelow env.fresh) :
    var.isBelow site.fresh := by
  cases var with
  | placeholder id => exact below.trans_le reused.placeholders
  | length id => exact below.trans_le reused.lengths
  | parametric => contradiction

/-- Different variables are called differently. -/
theorem freshName_injOn (reused : Reused env ty general site making) :
    Set.InjOn (freshName general making) {var | var ∈ (env.expand ty).vars} := by
  -- A fixed variable is old, and what is not fixed is renamed to a new one.
  have apart {fixed other : Var}
      (fixedMember : fixed ∈ (env.expand ty).vars)
      (otherMember : other ∈ (env.expand ty).vars)
      (isFixed : env.isFixed fixed)
      (notFixed : ¬ env.isFixed other) :
      freshName general making fixed ≠ freshName general making other := by
    intro same
    rw [reused.freshName_of_fixed fixedMember isFixed] at same
    have isNew := (reused.renamed_range (reused.renamed_of_not_fixed otherMember notFixed)).1
    rw [← same] at isNew
    refine isNew (reused.isBelow_site ?_ (reused.below _ fixedMember))
    cases fixed with
    | parametric => exact isFixed.elim
    | placeholder | length => rfl
  intro first firstMember second secondMember same
  by_cases firstFixed : env.isFixed first
  · by_cases secondFixed : env.isFixed second
    · rwa [reused.freshName_of_fixed firstMember firstFixed,
        reused.freshName_of_fixed secondMember secondFixed] at same
    · exact absurd same (apart firstMember secondMember firstFixed secondFixed)
  · by_cases secondFixed : env.isFixed second
    · exact absurd same.symm (apart secondMember firstMember secondFixed firstFixed)
    · have firstRenamed := reused.renamed_of_not_fixed firstMember firstFixed
      have secondRenamed := reused.renamed_of_not_fixed secondMember secondFixed
      rw [same] at firstRenamed
      generalize freshName general making second = name at firstRenamed secondRenamed
      cases firstRenamed with
      | type firstAs firstMade =>
          cases secondRenamed with
          | type secondAs secondMade =>
              have sameKey :=
                reused.instantiated.newTypes.distinct rfl rfl firstMade secondMade rfl
              exact reused.quantifiedAs_unique firstMember secondMember firstAs
                (sameKey ▸ secondAs)
      | length firstMade =>
          cases secondRenamed with
          | length secondMade =>
              rw [reused.instantiated.newLengths.distinct rfl rfl firstMade secondMade rfl]

/-- A variable is renamed to one of its kind. -/
theorem freshName_opens
    (reused : Reused env ty general site making)
    {var : Var}
    (member : var ∈ (env.expand ty).vars) :
    var.OpensTo (freshName general making var) := by
  by_cases isFixed : env.isFixed var
  · rw [reused.freshName_of_fixed member isFixed]
    cases var with
    | parametric => exact isFixed.elim
    | placeholder | length => trivial
  · have renamed := reused.renamed_of_not_fixed member isFixed
    generalize freshName general making var = name at renamed
    cases renamed with
    | type quantifiedAs => cases quantifiedAs <;> trivial
    | length => trivial

/-- Generalizing and instantiating puts what renaming puts. -/
theorem subst_eq_rename (reused : Reused env ty general site making) :
    ((env.expand ty).subst general.quantification).subst (instantiation making) =
      (env.expand ty).rename (freshName general making) := by
  rw [Ty.subst_subst (instantiation_isCanonical making), Ty.rename]
  refine Ty.subst_congr_of_mem (fun length isLength => ?_) fun leaf isLeaf => ?_
  · cases length with
    | known count => rfl
    | var id =>
        have member := Ty.length_mem_vars_iff.mpr isLength
        by_cases isGeneric : making.2.frames.isGeneric id = true
        · obtain ⟨fresh, isMade⟩ := reused.lengthMade member isGeneric
          simp [Substitution.andThen, quantification, instantiation, Substitution.renames,
            freshName, isGeneric, isMade, Length.ofVar]
        · simp [Substitution.andThen, quantification, instantiation, Substitution.renames,
            freshName, isGeneric, Length.ofVar]
  · cases Ty.isLeaf_of_mem_leaves isLeaf with
    | primitive kind => rfl
    | named scope name => rfl
    | placeholder scope id =>
        have member := Ty.mentions_iff_mem_leaves.mpr ⟨scope, isLeaf⟩
        by_cases isFixed : env.dependsOn (.placeholder id)
        · have notBound := reused.binding?_of_fixed member isFixed
          simp [Substitution.andThen, quantification, instantiation, Substitution.renames,
            freshName, notBound, Ty.ofVar]
        · obtain ⟨label, found⟩ := reused.binding?_of_not_fixed isLeaf isFixed
          obtain ⟨fresh, isMade⟩ := reused.typeMade isLeaf (quantification_of_bound found)
          simp [Substitution.andThen, quantification, instantiation, Substitution.renames,
            freshName, found, typeName, isMade, Ty.ofVar]
    | parametric scope label =>
        obtain ⟨fresh, isMade⟩ := reused.typeMade isLeaf rfl
        simp [Substitution.andThen, quantification, instantiation, Substitution.renames,
          freshName, typeName, isMade, Ty.ofVar]

end Reused

/-- A type is the expansion of another one, up to a renaming to fresh variables. -/
structure FreshlyRenamed
    (env : Environment)
    (ty : Ty)
    (rename : Var → Var)
    (result : Ty) : Prop where
  result_eq : result = (env.expand ty).rename rename
  /-- Different variables are renamed differently, and renaming them back restores the type. -/
  injective : Set.InjOn rename {var | var ∈ (env.expand ty).vars}
  restored :
    ∃ back : Var → Var,
      (∀ var ∈ (env.expand ty).vars, back (rename var) = var) ∧ result.rename back = env.expand ty
  /-- Variables of the surroundings are not renamed. -/
  fixed : ∀ var ∈ (env.expand ty).vars, env.isFixed var → rename var = var
  /-- All other variables are renamed to new placeholders and new length variables. -/
  opens : ∀ var ∈ (env.expand ty).vars, var.OpensTo (rename var)
  fresh : ∀ var ∈ (env.expand ty).vars, ¬ env.isFixed var → ¬ (rename var).isBelow env.fresh

/-- Generalizing and then instantiating renames the expanded type freshly. -/
theorem Reused.freshlyRenamed
    {env general site : Environment}
    {ty : Ty}
    {making : Making}
    (reused : Reused env ty general site making) :
    FreshlyRenamed env ty (freshName general making)
      (((env.expand ty).subst general.quantification).subst (instantiation making)) where
  result_eq := reused.subst_eq_rename
  injective := reused.freshName_injOn
  restored := by
    classical
    have leftInverse := reused.freshName_injOn.leftInvOn_invFunOn
    refine ⟨Function.invFunOn (freshName general making) {var | var ∈ (env.expand ty).vars},
      fun var member => leftInverse member, ?_⟩
    rw [reused.subst_eq_rename]
    exact Ty.rename_rename (canonical_expand reused.consistent ty)
      (fun var member => reused.freshName_opens member) fun var member => leftInverse member
  fixed := fun var => reused.freshName_of_fixed
  opens := fun var => reused.freshName_opens
  fresh := fun var member notFixed isBelow => by
    have renamed := reused.renamed_of_not_fixed member notFixed
    refine (reused.renamed_range renamed).1 (reused.isBelow_site ?_ isBelow)
    generalize freshName general making var = name at renamed
    cases renamed <;> rfl

/-- Which variables are bound depends on the frames only. -/
theorem isBound_congr
    {env other : Environment}
    (sameFrames : other.frames = env.frames)
    (var : Var) :
    other.isBound var = env.isBound var := by
  cases var with
  | placeholder id => exact congrArg (fun frames => (frames.placeholder? id).isSome) sameFrames
  | length id => exact congrArg (fun frames => (frames.length? id).isSome) sameFrames
  | parametric => rfl

/-- The variables of a generalized type are unbound. -/
theorem Quantified.isBound_of_mem_vars
    {env general : Environment}
    {kept : VarSet}
    {ty : Ty}
    (quantified :
      Quantified kept (env.expand ty).leaves (env.expand ty).lengths env general)
    (consistent : env.frames.Consistent)
    {var : Var}
    (member : var ∈ ((env.expand ty).subst general.quantification).vars) :
    general.isBound var = false := by
  have unbound {var : Var} (inExpanded : var ∈ (env.expand ty).vars) :=
    isBound_of_mem_vars_expand consistent inExpanded
  cases var with
  | parametric => rfl
  | placeholder id =>
      obtain ⟨scope, isLeaf⟩ := Ty.mentions_iff_mem_leaves.mp member
      have wasLeaf := (mem_leaves_quantification_iff.mp isLeaf).1
      have wasUnbound := unbound (Ty.mentions_iff_mem_leaves.mpr ⟨scope, wasLeaf⟩)
      rw [isBound_placeholder_eq_false_iff] at wasUnbound ⊢
      exact quantified.binding?_eq_none wasUnbound isLeaf
  | length id =>
      have inExpanded : .length id ∈ (env.expand ty).vars := by
        rw [Ty.length_mem_vars_iff, Ty.mem_lengths_subst_iff] at member
        rcases member with ⟨leaf, isLeaf, inLeaf⟩ | ⟨length, isLength, same⟩
        · have isLeafPut := general.quantification_isLeaf (Ty.isLeaf_of_mem_leaves isLeaf)
          rw [isLeafPut.lengths_eq_nil] at inLeaf
          contradiction
        · exact Ty.length_mem_vars_iff.mpr (same ▸ isLength)
      have wasUnbound := unbound inExpanded
      rw [isBound, quantified.length?]
      exact wasUnbound

/-- Instantiating a generalized type where nothing was bound since renames its variables. -/
theorem instantiate_reused
    {env : Environment}
    (consistent : env.frames.Consistent)
    {ty : Ty}
    (below : ∀ var ∈ (env.expand ty).vars, var.isBelow env.fresh)
    (oneScope :
      ∀ {first second id},
        .placeholder first id ∈ (env.expand ty).leaves →
        .placeholder second id ∈ (env.expand ty).leaves →
        first = second)
    (site : Environment)
    (sameFrames : site.frames = (generalize ty env).2.frames)
    (placeholders : env.fresh.placeholder ≤ site.fresh.placeholder)
    (lengths : env.fresh.length ≤ site.fresh.length) :
    ∃ made,
      Reused env ty (generalize ty env).2 site
          (made, (instantiate (generalize ty env).1 site).2) ∧
        (instantiate (generalize ty env).1 site).1 =
          ((env.expand ty).subst (generalize ty env).2.quantification).subst
            (instantiation (made, (instantiate (generalize ty env).1 site).2)) := by
  obtain ⟨quantified, isGeneral⟩ := generalize_quantified consistent ty
  have generalCanonical : (generalize ty env).1.Canonical := by
    rw [isGeneral]
    exact Substitution.IsCanonical.subst (quantification_isCanonical _) _
  have siteConsistent : site.frames.Consistent :=
    sameFrames ▸ (generalize_run ty env).run.consistent consistent
  have resolved : site.resolve (generalize ty env).1 = (generalize ty env).1 := by
    refine resolve_eq_self siteConsistent generalCanonical fun var member => ?_
    rw [isBound_congr sameFrames]
    exact quantified.isBound_of_mem_vars consistent (isGeneral ▸ member)
  obtain ⟨made, instantiated, isResult⟩ := instantiate_instantiated generalCanonical resolved
  rw [← isGeneral]
  refine ⟨made, ?_, isResult⟩
  exact
    { consistent := consistent
      below := below
      oneScope := oneScope
      quantified := quantified
      instantiated := isGeneral ▸ instantiated
      sameFrames := sameFrames
      placeholders := placeholders
      lengths := lengths }

/--
Instantiating a generalized type gives its expansion back, up to fresh variables, and
two instances have no renamed variable in common.

The counters are above the variables of the expansion, and no placeholder of it is in
two scopes.
-/
theorem instantiate_generalize_renames
    {env : Environment}
    (consistent : env.frames.Consistent)
    (ty : Ty)
    (below : ∀ var ∈ (env.expand ty).vars, var.isBelow env.fresh)
    (oneScope :
      ∀ {first second id},
        .placeholder first id ∈ (env.expand ty).leaves →
        .placeholder second id ∈ (env.expand ty).leaves →
        first = second) :
    let general := generalize ty env
    let first := instantiate general.1 general.2
    let second := instantiate general.1 first.2
    ∃ rename again : Var → Var,
      FreshlyRenamed env ty rename first.1 ∧
        FreshlyRenamed env ty again second.1 ∧
          ∀ var ∈ (env.expand ty).vars,
            ∀ other ∈ (env.expand ty).vars,
              ¬ env.isFixed var → ¬ env.isFixed other → rename var ≠ again other := by
  dsimp only
  obtain ⟨samePlaceholder, sameLength⟩ := (generalize_quantified consistent ty).1.counters
  have placeholders := Nat.le_of_eq samePlaceholder.symm
  have lengths := Nat.le_of_eq sameLength.symm
  obtain ⟨firstMade, firstReused, isFirst⟩ :=
    instantiate_reused consistent below oneScope _ rfl placeholders lengths
  obtain ⟨secondMade, secondReused, isSecond⟩ :=
    instantiate_reused consistent below oneScope _ firstReused.instantiated.frames
      (placeholders.trans firstReused.instantiated.newTypes.counted)
      (lengths.trans firstReused.instantiated.newLengths.counted)
  refine ⟨_, _, isFirst ▸ firstReused.freshlyRenamed, isSecond ▸ secondReused.freshlyRenamed, ?_⟩
  intro var member other otherMember notFixed otherNotFixed same
  have firstRange :=
    firstReused.renamed_range (firstReused.renamed_of_not_fixed member notFixed)
  have secondRange :=
    secondReused.renamed_range (secondReused.renamed_of_not_fixed otherMember otherNotFixed)
  rw [← same] at secondRange
  exact secondRange.1 firstRange.2

/-- Two uses inside a function share the type of its parameter and nothing else. -/
theorem instantiate_generalize_renames_insideFunction :
    (instantiate (generalize toArrays insideFunction).1 (generalize toArrays insideFunction).2).1 =
        .function (.placeholder ⟨1⟩ ⟨0⟩) (.array (.placeholder ⟨1⟩ ⟨2⟩) (.var ⟨1⟩)) ∧
      let general := generalize toArrays insideFunction
      let first := instantiate general.1 general.2
      let second := instantiate general.1 first.2
      ∃ rename again : Var → Var,
        FreshlyRenamed insideFunction toArrays rename first.1 ∧
          FreshlyRenamed insideFunction toArrays again second.1 ∧
            ∀ var ∈ (insideFunction.expand toArrays).vars,
              ∀ other ∈ (insideFunction.expand toArrays).vars,
                ¬ insideFunction.isFixed var →
                ¬ insideFunction.isFixed other → rename var ≠ again other := by
  have isLeaf :
      (insideFunction.expand toArrays).leaves =
        [.placeholder ⟨1⟩ ⟨0⟩, .placeholder ⟨1⟩ ⟨1⟩] := by
    decide +kernel
  refine ⟨by decide +kernel, instantiate_generalize_renames .empty toArrays (by decide +kernel) ?_⟩
  intro first second id inFirst inSecond
  simp only [isLeaf, List.mem_cons, Ty.placeholder.injEq, List.not_mem_nil, or_false] at inFirst inSecond
  rcases inFirst with ⟨rfl, _⟩ | ⟨rfl, _⟩ <;> rcases inSecond with ⟨rfl, _⟩ | ⟨rfl, _⟩ <;> rfl

end Environment

end ShaderTyping
