import ShaderTyping.Proofs.Instantiation
import ShaderTyping.Proofs.MirroredGeneralization

namespace ShaderTyping

/-!
# Instantiation in mirrored environments

Instantiation reads which length variables are generic and takes fresh variables, and
both are the same in mirrored environments.  Nothing is put for a constant, so types that
are alike take the same fresh variables in the same order, and what they become is alike
(`instantiate_together`).
-/

namespace Environment

variable {change : ExprId → Nat → Ty → Ty} {levels : Nat} {env env' : Environment}

/-- What is put for parametric types is steady. -/
def Instance.Steady (made : Instance) : Prop :=
  ∀ {key ty}, made.types.lookup key = some ty → ty.Steady

/-- Two computations take the same fresh variables, and what they return is related. -/
def MakesAlike
    (env env' : Environment)
    (related : α → β → Prop)
    (first : StateT Instance (StateM Environment) α)
    (second : StateT Instance (StateM Environment) β) : Prop :=
  ∀ made counters,
    Instance.Steady made →
    ∃ value value' later counters',
      first made { env with fresh := counters } =
          ((value, later), { env with fresh := counters' }) ∧
        second made { env' with fresh := counters } =
            ((value', later), { env' with fresh := counters' }) ∧
          Instance.Steady later ∧ related value value'

namespace MakesAlike

variable {related : α → β → Prop} {result : γ → δ → Prop}

theorem pure
    {value : α}
    {value' : β}
    (values : related value value') :
    MakesAlike env env' related (Pure.pure value) (Pure.pure value') :=
  fun made counters steady => ⟨value, value', made, counters, rfl, rfl, steady, values⟩

/-- Two visits in a row make both alike if each of them does. -/
theorem bind
    {first : StateT Instance (StateM Environment) α}
    {second : StateT Instance (StateM Environment) β}
    {next : α → StateT Instance (StateM Environment) γ}
    {next' : β → StateT Instance (StateM Environment) δ}
    (alike : MakesAlike env env' related first second)
    (continues :
      ∀ {value value'},
        related value value' → MakesAlike env env' result (next value) (next' value')) :
    MakesAlike env env' result (first >>= next) (second >>= next') := by
  intro made counters steady
  obtain ⟨value, value', middle, between, ran, ran', steady, values⟩ := alike made counters steady
  obtain ⟨final, final', later, counters', ended, ended', steady, results⟩ :=
    continues values middle between steady
  refine ⟨final, final', later, counters', ?_, ?_, steady, results⟩
  · rw [← ended]
    exact congrArg (fun made => next made.1.1 made.1.2 made.2) ran
  · rw [← ended']
    exact congrArg (fun made => next' made.1.1 made.1.2 made.2) ran'

end MakesAlike

/-- A quantified type becomes the same placeholder in both environments. -/
theorem instantiateParametric_alike (scope : ScopeId) (label : LabelId) :
    MakesAlike env env' env.Matches (instantiateParametric scope label)
      (instantiateParametric scope label) := by
  intro made counters steady
  cases found : made.types.lookup (scope, label) with
  | some ty =>
      exact ⟨ty, ty, made, counters, instantiateParametric_of_made found _,
        instantiateParametric_of_made found _, steady, .refl (steady found)⟩
  | none =>
      have isLeaf := Ty.IsLeaf.placeholder scope ⟨counters.placeholder⟩
      refine ⟨_, _, _, _, instantiateParametric_of_unset found _,
        instantiateParametric_of_unset found _, ?_, .refl isLeaf.steady⟩
      intro key ty isMade
      rw [lookup_cons_eq_ite] at isMade
      split at isMade
      · cases isMade
        exact isLeaf.steady
      · exact steady isMade

/-- A length becomes the same length in both environments. -/
theorem instantiateLength_alike
    (mirrors : Mirroring change levels env env')
    (length : Length) :
    MakesAlike env env' Eq (instantiateLength length) (instantiateLength length) := by
  intro made counters steady
  cases length with
  | known count => exact ⟨_, _, made, counters, rfl, rfl, steady, rfl⟩
  | var id =>
      have sameGeneric : env'.frames.isGeneric id = env.frames.isGeneric id :=
        mirrors.snapshot.generic id
      let start : Environment := { env with fresh := counters }
      let start' : Environment := { env' with fresh := counters }
      cases isGeneric : start.frames.isGeneric id with
      | false =>
          have isGeneric' : start'.frames.isGeneric id = false := sameGeneric.trans isGeneric
          exact ⟨_, _, made, counters, instantiateLength_of_not_generic isGeneric made,
            instantiateLength_of_not_generic isGeneric' made, steady, rfl⟩
      | true =>
          have isGeneric' : start'.frames.isGeneric id = true := sameGeneric.trans isGeneric
          cases found : made.lengths.lookup id with
          | some fresh =>
              exact ⟨_, _, made, counters, instantiateLength_of_made isGeneric found,
                instantiateLength_of_made isGeneric' found, steady, rfl⟩
          | none =>
              exact ⟨_, _, _, _, instantiateLength_of_unset isGeneric found,
                instantiateLength_of_unset isGeneric' found, steady, rfl⟩

/-! ## The traversal -/

/-- What instantiation does at the leaves of a type. -/
def instantiating : Visitor (StateT Instance (StateM Environment)) where
  named scope name := pure (.named scope name)
  placeholder scope id := pure (.placeholder scope id)
  parametric := instantiateParametric
  length := instantiateLength

/-- The lengths of a type are followed to the end of their bindings. -/
def LengthsResolved (env : Environment) (ty : Ty) : Prop :=
  ∀ length ∈ ty.lengths, env.resolveLength length = length

/-- Nothing is instantiated in a type that unfolds to a constant. -/
theorem traverse_instantiating_of_constant
    {ty : Ty}
    (steady : ty.Steady)
    (resolved : env.LengthsResolved ty)
    (constant : (env.unfold ty).Constant) :
    ty.traverse instantiating = pure ty := by
  induction steady with
  | primitive | named => rfl
  | placeholder | parametric => cases constant
  | @array component length _ inductionHypothesis =>
      rw [LengthsResolved, Ty.lengths_array, List.forall_mem_append] at resolved
      have isResolved := List.forall_mem_singleton.mp resolved.2
      rw [unfold, Ty.subst_array] at constant
      cases constantLength : env.unfolding.length length with
      | var id => rw [constantLength] at constant; cases constant
      | known count =>
          cases isResolved.symm.trans constantLength
          cases constant with
          | array _ constant =>
              simp only [Ty.traverse, inductionHypothesis resolved.1 constant, pure_bind]
              rfl
  | struct _ _ inductionHypothesis =>
      rw [LengthsResolved, Ty.lengths_struct, List.forall_mem_flatMap] at resolved
      rw [unfold, Ty.subst_struct] at constant
      cases constant with
      | struct _ each =>
          have eachConstant := List.forall_mem_map.mp each
          rw [Ty.traverse, Ty.traverseFields_eq_pure fun field isField =>
            inductionHypothesis field isField (resolved field isField) (eachConstant field isField)]
          exact pure_bind _ _
  | function _ _ paramHypothesis resultHypothesis =>
      rw [LengthsResolved, Ty.lengths_function, List.forall_mem_append] at resolved
      rw [unfold, Ty.subst_function] at constant
      cases constant with
      | function param result =>
          simp only [Ty.traverse, paramHypothesis resolved.1 param,
            resultHypothesis resolved.2 result, pure_bind]
  | union isConstant => exact isConstant.traverse fun _ => rfl

/-- Fields that are alike become alike. -/
theorem traverseFields_alike
    {fields fields' : List (String × Ty)}
    (alike : env.FieldsMatch fields fields')
    (each :
      ∀ field ∈ fields, ∀ ty',
        env.Matches field.2 ty' →
        env.LengthsResolved field.2 →
        env.LengthsResolved ty' →
        MakesAlike env env' env.Matches (field.2.traverse instantiating)
          (ty'.traverse instantiating))
    (resolved : ∀ field ∈ fields, env.LengthsResolved field.2)
    (resolved' : ∀ field ∈ fields', env.LengthsResolved field.2) :
    MakesAlike env env' (fun made made' => made.map Prod.fst = fields.map Prod.fst ∧
      env.FieldsMatch made made') (Ty.traverseFields instantiating fields)
      (Ty.traverseFields instantiating fields') := by
  induction alike with
  | nil => exact .pure ⟨rfl, .nil⟩
  | @cons field field' rest rest' first _ inductionHypothesis =>
      obtain ⟨eachFirst, eachOther⟩ := List.forall_mem_cons.mp each
      obtain ⟨resolvedFirst, resolvedOthers⟩ := List.forall_mem_cons.mp resolved
      obtain ⟨resolvedFirst', resolvedOthers'⟩ := List.forall_mem_cons.mp resolved'
      refine .bind (eachFirst field'.2 first.2 resolvedFirst resolvedFirst') fun alikeFirst => ?_
      refine .bind (inductionHypothesis eachOther resolvedOthers resolvedOthers')
        fun ⟨labels, alikeOthers⟩ => ?_
      exact .pure ⟨congrArg (field.1 :: ·) labels, .cons ⟨first.1, alikeFirst⟩ alikeOthers⟩

/-- Resolved types that are alike become types that are alike. -/
theorem traverse_instantiating_alike
    (mirrors : Mirroring change levels env env')
    {ty ty' : Ty}
    (alike : env.Matches ty ty')
    (resolved : env.LengthsResolved ty)
    (resolved' : env.LengthsResolved ty') :
    MakesAlike env env' env.Matches (ty.traverse instantiating) (ty'.traverse instantiating) := by
  have atConstant {ty ty' : Ty}
      (alike : env.Matches ty ty')
      (resolved : env.LengthsResolved ty)
      (resolved' : env.LengthsResolved ty')
      (constant : (env.unfold ty).Constant) :
      MakesAlike env env' env.Matches (ty.traverse instantiating) (ty'.traverse instantiating) := by
    rw [traverse_instantiating_of_constant alike.steady resolved constant,
      traverse_instantiating_of_constant alike.steady' resolved' (alike.same ▸ constant)]
    exact .pure alike
  have steady := alike.steady
  induction steady generalizing ty' with
  | primitive kind => exact atConstant alike resolved resolved' (.primitive kind)
  | union constant =>
      exact atConstant alike resolved resolved' ((unfold_constant constant).symm ▸ constant)
  | placeholder scope id =>
      cases alike.eq_placeholder
      exact .pure alike
  | parametric scope label =>
      cases alike.eq_parametric
      exact instantiateParametric_alike scope label
  | named scope name =>
      by_cases constant : (env.unfold (.named scope name)).Constant
      · exact atConstant alike resolved resolved' constant
      · cases alike.sameShape_of_not_constant constant
        exact .pure alike
  | @array component length _ inductionHypothesis =>
      by_cases constant : (env.unfold (.array component length)).Constant
      · exact atConstant alike resolved resolved' constant
      · cases alike.sameShape_of_not_constant constant with
        | array alikeComponent sameLength =>
            rw [LengthsResolved, Ty.lengths_array, List.forall_mem_append] at resolved resolved'
            rw [List.forall_mem_singleton.mp resolved.2, List.forall_mem_singleton.mp resolved'.2]
              at sameLength
            cases sameLength
            refine .bind (inductionHypothesis alikeComponent resolved.1 resolved'.1) fun alike => ?_
            refine .bind (instantiateLength_alike mirrors length) fun sameLength => ?_
            exact .pure (alike.array (congrArg env.resolveLength sameLength))
  | @struct fields sorted _ inductionHypothesis =>
      by_cases constant : (env.unfold (.struct fields)).Constant
      · exact atConstant alike resolved resolved' constant
      · cases alike.sameShape_of_not_constant constant with
        | struct _ alikeFields =>
            rw [LengthsResolved, Ty.lengths_struct, List.forall_mem_flatMap] at resolved resolved'
            have traversed := traverseFields_alike alikeFields
              (fun field isField _ alike resolved resolved' =>
                inductionHypothesis field isField alike resolved resolved') resolved resolved'
            refine .bind traversed fun ⟨labels, alikeMade⟩ => .pure ?_
            exact .struct (sorted.of_labels (by rw [labels])) alikeMade
  | @function param result _ _ paramHypothesis resultHypothesis =>
      by_cases constant : (env.unfold (.function param result)).Constant
      · exact atConstant alike resolved resolved' constant
      · cases alike.sameShape_of_not_constant constant with
        | function alikeParam alikeResult =>
            rw [LengthsResolved, Ty.lengths_function, List.forall_mem_append] at resolved resolved'
            refine .bind (paramHypothesis alikeParam resolved.1 resolved'.1) fun alikeParam => ?_
            refine .bind (resultHypothesis alikeResult resolved.2 resolved'.2) fun alikeResult => ?_
            exact .pure (alikeParam.function alikeResult)

/-! ## Instantiation -/

/-- Instantiating visits a resolved type only if there is something quantified in it. -/
theorem instantiate_apply (ty : Ty) (env : Environment) :
    instantiate ty env =
      if (env.resolve ty).vars.any env.isQuantified then
        (((env.resolve ty).traverse instantiating ⟨[], []⟩ env).1.1,
          ((env.resolve ty).traverse instantiating ⟨[], []⟩ env).2)
      else
        (env.resolve ty, env) := by
  unfold instantiate
  change (if (env.resolve ty).vars.any env.isQuantified = true then _ else _ :
    StateM Environment Ty) env = _
  split <;> rfl

/-- The same variables are quantified in both environments. -/
theorem Mirroring.isQuantified (mirrors : Mirroring change levels env env') :
    env'.isQuantified = env.isQuantified := by
  funext var
  cases var with
  | placeholder | parametric => rfl
  | length id => exact mirrors.snapshot.generic id

/-- Types that are alike are instantiated to types that are alike. -/
theorem instantiate_together
    (mirrors : Mirroring change levels env env')
    {ty ty' : Ty}
    (alike : env.Matches ty ty') :
    Together change levels Matches (instantiate ty) (instantiate ty') env env' := by
  have resolvedAlike := mirrors.resolve alike
  have sameVars :
      (env'.resolve ty').vars.any env'.isQuantified =
        (env.resolve ty).vars.any env.isQuantified := by
    rw [Bool.eq_iff_iff, List.any_eq_true, List.any_eq_true, mirrors.isQuantified]
    exact exists_congr fun var => and_congr_left' (mirrors.mem_vars_resolve_iff alike var)
  have instantiates := instantiate_apply ty env
  have instantiates' := instantiate_apply ty' env'
  rw [sameVars] at instantiates'
  split at instantiates
  · rename_i isQuantified
    rw [if_pos isQuantified] at instantiates'
    have resolved : env.LengthsResolved (env.resolve ty) := fun _ =>
      resolveLength_of_mem_lengths_resolve mirrors.sound.consistent
    have resolved' : env.LengthsResolved (env'.resolve ty') := fun length isLength => by
      rw [← mirrors.resolveLength]
      exact resolveLength_of_mem_lengths_resolve mirrors.sound'.consistent isLength
    obtain ⟨value, value', made, counters, ran, ran', _, values⟩ :=
      traverse_instantiating_alike mirrors resolvedAlike resolved resolved' ⟨[], []⟩ env.fresh
        (fun found => by cases found)
    have starts : { env' with fresh := env.fresh } = env' := by rw [← mirrors.fresh]
    rw [starts] at ran'
    rw [ran] at instantiates
    rw [ran'] at instantiates'
    constructor
    · rw [instantiates]
      exact .of_frames rfl rfl
    · rw [instantiates, instantiates']
      exact mirrors.count counters
    · rw [instantiates, instantiates']
      exact values.mono (.of_frames rfl rfl) (mirrors.count counters).sound.consistent
  · rename_i notQuantified
    rw [if_neg notQuantified] at instantiates'
    constructor
    · rw [instantiates]
      exact .refl env
    · rw [instantiates, instantiates']
      exact mirrors
    · rw [instantiates, instantiates']
      exact resolvedAlike

end Environment

end ShaderTyping
