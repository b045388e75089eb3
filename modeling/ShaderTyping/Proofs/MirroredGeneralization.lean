import ShaderTyping.Proofs.MirroredCalls

namespace ShaderTyping

/-!
# Generalization in mirrored environments

Quantifying a type quantifies the leaves of the type it expands to, in their order
(`quantify_eq`).  Types that are alike expand to the same type, and the surroundings
depend on the same variables, so generalization gives the same type in mirrored
environments (`generalize_together`).
-/

namespace Environment

/-! ## Quantifying expanded types -/

/-- Two computations do the same where a condition holds, and keep it. -/
def Coincide
    (holds : Environment → Prop)
    (first second : StateM Environment α) : Prop :=
  ∀ env, holds env → first env = second env ∧ holds (first env).2

namespace Coincide

variable {holds : Environment → Prop}

theorem pure (value : α) :
    Coincide holds (Pure.pure value : StateM Environment α) (Pure.pure value) :=
  fun _ isHeld => ⟨rfl, isHeld⟩

/-- Two computations in a row coincide with two others if each of them does. -/
theorem bind
    {first second : StateM Environment α}
    {next next' : α → StateM Environment β}
    (firstCoincide : Coincide holds first second)
    (nextCoincide : ∀ value, Coincide holds (next value) (next' value)) :
    Coincide holds (first >>= next) (second >>= next') := by
  intro env isHeld
  obtain ⟨same, stillHeld⟩ := firstCoincide env isHeld
  change next (first env).1 (first env).2 = next' (second env).1 (second env).2 ∧
    holds (next (first env).1 (first env).2).2
  rw [← same]
  exact nextCoincide _ _ stillHeld

/-- Visiting the leaves of a steady type coincides with visiting what is put for them. -/
theorem traverse
    {visitor visitor' : Visitor (StateM Environment)}
    {substitution : Substitution}
    (known : ∀ count, visitor.length (.known count) = Pure.pure (.known count))
    (known' : ∀ count, visitor'.length (.known count) = Pure.pure (.known count))
    (keepsKnown : ∀ count, substitution.length (.known count) = .known count)
    (lengths :
      ∀ length,
        Coincide holds (visitor.length length) (visitor'.length (substitution.length length)))
    {ty : Ty}
    (steady : ty.Steady)
    (leaves :
      ∀ leaf ∈ ty.leaves,
        Coincide holds (leaf.traverse visitor) ((leaf.subst substitution).traverse visitor')) :
    Coincide holds (ty.traverse visitor) ((ty.subst substitution).traverse visitor') := by
  induction steady with
  | primitive | named | placeholder | parametric => exact leaves _ (by simp)
  | array length _ inductionHypothesis =>
      rw [Ty.leaves_array] at leaves
      rw [Ty.subst_array]
      exact .bind (inductionHypothesis leaves) fun _ => .bind (lengths length) fun _ => .pure _
  | @struct fields sorted each inductionHypothesis =>
      rw [Ty.leaves_struct, List.forall_mem_flatMap] at leaves
      rw [Ty.subst_struct]
      refine .bind ?_ fun _ => .pure _
      clear sorted each
      induction fields with
      | nil => exact .pure _
      | cons field rest fieldsHypothesis =>
          obtain ⟨first, others⟩ := List.forall_mem_cons.mp leaves
          obtain ⟨firstHypothesis, othersHypothesis⟩ := List.forall_mem_cons.mp inductionHypothesis
          exact .bind (firstHypothesis first) fun _ =>
            .bind (fieldsHypothesis othersHypothesis others) fun _ => .pure _
  | function _ _ paramHypothesis resultHypothesis =>
      rw [Ty.leaves_function, List.forall_mem_append] at leaves
      rw [Ty.subst_function]
      exact .bind (paramHypothesis leaves.1) fun _ =>
        .bind (resultHypothesis leaves.2) fun _ => .pure _
  | union constant =>
      rw [constant.subst keepsKnown, constant.traverse known, constant.traverse known']
      exact .pure _

end Coincide

/-- What quantifying does at a placeholder if bindings lead nowhere else. -/
def visitLeaf (kept : VarSet) (scope : ScopeId) (id : PlaceholderId) : StateM Environment Ty := do
  match (← get).binding? id with
  | some bound => pure bound
  | none => quantifyPlaceholder kept scope id

/-- Quantify the variables of an expanded type. -/
def quantifyLeaves (kept : VarSet) (ty : Ty) : StateM Environment Ty :=
  ty.traverse
    { named := fun scope name => pure (.named scope name)
      placeholder := visitLeaf kept
      parametric := fun scope label => pure (.parametric scope label)
      length := quantifyLength kept }

/-- There is nothing to quantify in a known length. -/
theorem quantifyLength_known (kept : VarSet) (count : Nat) :
    quantifyLength kept (.known count) = pure (.known count) :=
  funext fun _ => quantifyLength_of_known rfl kept

section Quantify

variable {kept : VarSet} {start env : Environment}

/-- Quantifying one more unbound placeholder is quantifying. -/
theorem quantifyPlaceholder_quantifiesTo
    (quantifies : QuantifiesTo kept start env)
    {id : PlaceholderId}
    (unbound : env.binding? id = none)
    (scope : ScopeId) :
    QuantifiesTo kept start (quantifyPlaceholder kept scope id env).2 := by
  cases isKept : kept.contains (.placeholder id) with
  | true => rwa [quantifyPlaceholder_of_kept isKept]
  | false =>
      rw [quantifyPlaceholder_of_not_kept isKept]
      exact quantifies.trans ⟨_, _, .bindPlaceholder unbound isKept scope⟩

/-- At an unbound placeholder the walk does what a visit of the expanded type does. -/
theorem visitPlaceholder_coincides
    {id : PlaceholderId}
    (unbound : start.binding? id = none)
    (steps : Nat)
    (expanding : List AliasKey)
    (scope : ScopeId) :
    Coincide (QuantifiesTo kept start) (visitPlaceholder kept steps expanding scope id)
      (visitLeaf kept scope id) := by
  intro env quantifies
  simp only [visitLeaf, get_bind_apply]
  cases found : env.binding? id with
  | some bound =>
      obtain ⟨_, boundScope, label, rfl⟩ := quantifies.parametric unbound found
      rw [visitPlaceholder_of_bound found, quantifyWithin_parametric]
      exact ⟨rfl, quantifies⟩
  | none =>
      rw [visitPlaceholder_of_unbound found]
      exact ⟨rfl, quantifyPlaceholder_quantifiesTo quantifies found scope⟩

/-- Quantifying a length and the resolved length coincide. -/
theorem quantifyLength_coincides (length : Length) (consistent : start.frames.Consistent) :
    Coincide (QuantifiesTo kept start) (quantifyLength kept length)
      (quantifyLength kept (start.resolveLength length)) := by
  intro env quantifies
  have same : env.resolveLength (start.resolveLength length) = env.resolveLength length := by
    rw [quantifies.resolveLength, quantifies.resolveLength, resolveLength_resolveLength consistent]
  refine ⟨by simp only [quantifyLength, get_bind_apply, same], ?_⟩
  exact quantifies.trans ⟨_, _, (quantifyLength_quantifying kept length env (.refl env)).1⟩

/-- Quantifying a steady type quantifies the leaves of the expanded type. -/
theorem quantify_eq
    (sound : env.Sound)
    (bindings : ∀ {id bound}, env.binding? id = some bound → bound.Steady)
    (kept : VarSet)
    {ty : Ty}
    (steady : ty.Steady) :
    quantify kept ty env = quantifyLeaves kept (env.expand ty) env := by
  have coincides :
      Coincide (QuantifiesTo kept env) (quantifyWithin kept (env.walkLimit + 1) [] ty)
        (quantifyLeaves kept (env.expand ty)) := by
    refine expandInduction sound.consistent
      (motive := fun steps expanding ty =>
        ty.Steady →
        Coincide (QuantifiesTo kept env) (quantifyWithin kept steps expanding ty)
          (quantifyLeaves kept (env.expandWithin steps expanding ty))) ?_ ty steady
    intro steps expanding ty atBindings atDefinitions steady
    rw [quantifyWithin_succ]
    refine .traverse (quantifyLength_known kept) (quantifyLength_known kept) (fun _ => rfl)
      (fun length => quantifyLength_coincides length sound.consistent) steady fun leaf isLeaf => ?_
    cases Ty.isLeaf_of_mem_leaves isLeaf with
    | primitive | parametric => exact .pure _
    | placeholder scope id =>
        cases found : env.binding? id with
        | none =>
            simp only [Ty.subst_placeholder, found]
            exact visitPlaceholder_coincides found steps expanding scope
        | some bound =>
            simp only [Ty.subst_placeholder, found]
            intro later quantifies
            have continued := atBindings isLeaf found (bindings found) later quantifies
            rwa [← visitPlaceholder_of_bound (quantifies.binding found) kept steps expanding scope]
              at continued
    | named scope name =>
        intro later quantifies
        have visit := visitNamed_of_declared quantifies.declared kept steps expanding scope name
        change visitNamed kept steps expanding scope name later = _ ∧
          QuantifiesTo kept env (visitNamed kept steps expanding scope name later).2
        rw [visit]
        cases found : env.definition? scope name with
        | none =>
            simp only [Ty.subst_named, found]
            exact ⟨rfl, quantifies⟩
        | some entry =>
            obtain ⟨key, definition⟩ := entry
            simp only [Ty.subst_named, found]
            cases isAround : expanding.contains key with
            | true =>
                simp only [if_true]
                exact ⟨rfl, quantifies⟩
            | false =>
                simp only [Bool.false_eq_true, if_false]
                exact atDefinitions isLeaf found isAround (sound.definitions found) later quantifies
  exact (coincides env (.refl env)).1

end Quantify

/-! ## Quantifying in mirrored environments -/

variable {change : ExprId → Nat → Ty → Ty} {levels : Nat} {env env' : Environment}

/-- Two sets agree on the variables that nothing is bound to. -/
def SameOpen (env : Environment) (kept kept' : VarSet) : Prop :=
  ∀ {var : Var},
    var.isParametric = false → env.isBound var = false → kept'.contains var = kept.contains var

/-- Sets that agree on unbound variables agree on fewer of them too. -/
theorem SameOpen.mono
    {later : Environment}
    {kept kept' : VarSet}
    (same : env.SameOpen kept kept')
    (grows : env.Grows later) :
    later.SameOpen kept kept' :=
  fun isOpen unbound => same isOpen (grows.isBound_eq_false unbound)

/-- No placeholder occurs in a quantified type. -/
theorem occurs_parametric
    (env : Environment)
    (id : PlaceholderId)
    (scope : ScopeId)
    (label : LabelId) :
    env.occurs id (.parametric scope label) = false :=
  rfl

/-- Visits of one leaf go together if the same unbound variables are kept. -/
theorem visitLeaf_together
    {kept kept' : VarSet}
    (mirrors : Mirroring change levels env env')
    (same : env.SameOpen kept kept')
    (scope : ScopeId)
    (id : PlaceholderId) :
    Together change levels (fun _ _ _ => True) (visitLeaf kept scope id) (visitLeaf kept' scope id)
      env env' := by
  rcases mirrors.binding_cases id with ⟨unbound, unbound'⟩ | ⟨bound, bound', found, found', _⟩
  · have sameKept : kept'.contains (.placeholder id) = kept.contains (.placeholder id) :=
      same rfl (isBound_placeholder_eq_false_iff.mpr unbound)
    have visits : visitLeaf kept scope id env = quantifyPlaceholder kept scope id env := by
      simp only [visitLeaf, get_bind_apply, unbound]
    have visits' : visitLeaf kept' scope id env' = quantifyPlaceholder kept' scope id env' := by
      simp only [visitLeaf, get_bind_apply, unbound']
    cases isKept : kept.contains (.placeholder id) with
    | true =>
        rw [quantifyPlaceholder_of_kept isKept] at visits
        rw [quantifyPlaceholder_of_kept (sameKept.trans isKept)] at visits'
        exact ⟨visits ▸ .refl env, visits ▸ visits' ▸ mirrors, trivial⟩
    | false =>
        rw [quantifyPlaceholder_of_not_kept isKept] at visits
        rw [quantifyPlaceholder_of_not_kept (sameKept.trans isKept), mirrors.fresh] at visits'
        have counted : Mirroring change levels (freshLabel env).2 (freshLabel env').2 := by
          have counted := mirrors.count { env.fresh with label := env.fresh.label + 1 }
          simpa only [freshLabel, mirrors.fresh] using counted
        have counts : env.Grows (freshLabel env).2 := .of_frames rfl rfl
        have stillUnbound : (freshLabel env).2.binding? id = none := unbound
        obtain ⟨grows, bound⟩ := counted.bindPlaceholder stillUnbound
          (occurs_parametric _ id scope _) (.refl (.parametric scope ⟨env.fresh.label⟩))
        exact ⟨visits ▸ counts.trans grows, visits ▸ visits' ▸ bound, trivial⟩
  · have visits : visitLeaf kept scope id env = (bound, env) := by
      simp only [visitLeaf, get_bind_apply, found]
      rfl
    have visits' : visitLeaf kept' scope id env' = (bound', env') := by
      simp only [visitLeaf, get_bind_apply, found']
      rfl
    exact ⟨visits ▸ .refl env, visits ▸ visits' ▸ mirrors, trivial⟩

/-- Visits of one length go together if the same unbound variables are kept. -/
theorem quantifyLength_together
    {kept kept' : VarSet}
    (mirrors : Mirroring change levels env env')
    (same : env.SameOpen kept kept')
    (length : Length) :
    Together change levels (fun _ _ _ => True) (quantifyLength kept length)
      (quantifyLength kept' length) env env' := by
  have sameLength := mirrors.resolveLength length
  cases resolved : env.resolveLength length with
  | known count =>
      have visits := quantifyLength_of_known resolved kept
      have visits' := quantifyLength_of_known (sameLength.trans resolved) kept'
      exact ⟨visits ▸ .refl env, visits ▸ visits' ▸ mirrors, trivial⟩
  | var id =>
      have unbound := length?_of_resolveLength_eq_var mirrors.sound.consistent resolved
      have sameKept : kept'.contains (.length id) = kept.contains (.length id) :=
        same rfl (isBound_length_eq_false_iff.mpr unbound)
      have visits := quantifyLength_of_var resolved kept
      have visits' := quantifyLength_of_var (sameLength.trans resolved) kept'
      rw [sameKept] at visits'
      cases isKept : kept.contains (.length id) with
      | true =>
          rw [isKept, if_pos rfl] at visits visits'
          exact ⟨visits ▸ .refl env, visits ▸ visits' ▸ mirrors, trivial⟩
      | false =>
          rw [isKept, if_neg Bool.false_ne_true] at visits visits'
          have run : Run env (env.markGeneric id) := .markGeneric id
          have marked : Mirroring change levels (env.markGeneric id) (env'.markGeneric id) :=
            mirrors.write_of_run (.generic id) run (.markGeneric id)
          exact ⟨visits ▸ run.grows mirrors.sound.consistent, visits ▸ visits' ▸ marked, trivial⟩

/-- Visits of all fields go together if those of each field do. -/
theorem quantifyFields_together
    {visitor visitor' : Visitor (StateM Environment)}
    {kept kept' : VarSet}
    {fields : List (String × Ty)}
    (each :
      ∀ field ∈ fields, ∀ {env env' : Environment},
        Mirroring change levels env env' →
        env.SameOpen kept kept' →
        Together change levels (fun _ _ _ => True) (field.2.traverse visitor)
          (field.2.traverse visitor') env env')
    (mirrors : Mirroring change levels env env')
    (same : env.SameOpen kept kept') :
    Together change levels (fun _ _ _ => True) (Ty.traverseFields visitor fields)
      (Ty.traverseFields visitor' fields) env env' := by
  induction fields generalizing env env' with
  | nil => exact .pure mirrors trivial
  | cons field rest inductionHypothesis =>
      obtain ⟨first, others⟩ := List.forall_mem_cons.mp each
      refine .bind (first mirrors same) fun grows mirrors _ => ?_
      exact .bind (inductionHypothesis others mirrors (same.mono grows))
        fun _ mirrors _ => .pure mirrors trivial

/-- The leaves of a type are quantified in the same order. -/
theorem quantifyLeaves_together
    {kept kept' : VarSet}
    (mirrors : Mirroring change levels env env')
    (same : env.SameOpen kept kept')
    {ty : Ty}
    (steady : ty.Steady) :
    Together change levels (fun _ _ _ => True) (quantifyLeaves kept ty) (quantifyLeaves kept' ty)
      env env' := by
  unfold quantifyLeaves
  induction steady generalizing env env' with
  | primitive | named | parametric => exact .pure mirrors trivial
  | placeholder scope id => exact visitLeaf_together mirrors same scope id
  | array length _ inductionHypothesis =>
      refine .bind (inductionHypothesis mirrors same) fun grows mirrors _ => ?_
      exact .bind (quantifyLength_together mirrors (same.mono grows) length)
        fun _ mirrors _ => .pure mirrors trivial
  | @struct fields sorted each inductionHypothesis =>
      refine .bind (quantifyFields_together inductionHypothesis mirrors same) fun _ mirrors _ => ?_
      exact .pure mirrors trivial
  | function _ _ paramHypothesis resultHypothesis =>
      refine .bind (paramHypothesis mirrors same) fun grows mirrors _ => ?_
      exact .bind (resultHypothesis mirrors (same.mono grows))
        fun _ mirrors _ => .pure mirrors trivial
  | union constant =>
      rw [constant.traverse (quantifyLength_known kept),
        constant.traverse (quantifyLength_known kept')]
      exact .pure mirrors trivial

/-- Quantified placeholders are replaced by the same types. -/
theorem Mirroring.quantification (mirrors : Mirroring change levels env env') :
    env'.quantification = env.quantification := by
  have same (scope : ScopeId) (id : PlaceholderId) :
      env'.quantification.placeholder scope id = env.quantification.placeholder scope id := by
    simp only [Environment.quantification]
    rcases mirrors.binding_cases id with
      ⟨unbound, unbound'⟩ | ⟨bound, bound', found, found', alike⟩
    · rw [unbound, unbound']
    · rw [found, found']
      cases bound with
      | parametric => rw [alike.eq_parametric]
      | _ =>
          cases bound' with
          | parametric => cases alike.symm.eq_parametric
          | _ => rfl
  have samePlaceholders := funext fun scope => funext (same scope)
  simp only [Environment.quantification, Visitor.mk.injEq] at samePlaceholders ⊢
  exact ⟨trivial, samePlaceholders, trivial, trivial⟩

/-- Types that are alike are generalized to the same type. -/
theorem generalize_together
    (mirrors : Mirroring change levels env env')
    {ty ty' : Ty}
    (alike : env.Matches ty ty') :
    Together change levels (fun _ general general' => general' = general ∧ general.Steady)
      (generalize ty) (generalize ty') env env' := by
  have steadyExpanded := steady_expand mirrors.sound mirrors.binding_steady alike.steady
  have visits : generalize ty env = quantifyLeaves env.monomorphic (env.expand ty) env := by
    rw [generalize_eq, quantify_eq mirrors.sound mirrors.binding_steady _ alike.steady]
  have visits' : generalize ty' env' = quantifyLeaves env'.monomorphic (env.expand ty) env' := by
    rw [generalize_eq, quantify_eq mirrors.sound' mirrors.binding_steady' _ alike.steady',
      mirrors.expand alike]
  have sameOpen : env.SameOpen env.monomorphic env'.monomorphic := mirrors.monomorphic
  obtain ⟨grows, later, _⟩ := quantifyLeaves_together mirrors sameOpen steadyExpanded
  rw [← visits] at grows
  rw [← visits, ← visits'] at later
  refine ⟨grows, later, ?_, ?_⟩
  · rw [(generalize_quantified mirrors.sound.consistent ty).2,
      (generalize_quantified mirrors.sound'.consistent ty').2, mirrors.expand alike,
      later.quantification]
  · rw [(generalize_quantified mirrors.sound.consistent ty).2]
    exact steadyExpanded.subst (fun _ => rfl) fun leaf isLeaf =>
      (quantification_isLeaf _ (Ty.isLeaf_of_mem_leaves isLeaf)).steady

/-- Types that are alike are generalized to types that are alike. -/
theorem generalize_alike
    (mirrors : Mirroring change levels env env')
    {ty ty' : Ty}
    (alike : env.Matches ty ty') :
    Together change levels Matches (generalize ty) (generalize ty') env env' := by
  obtain ⟨grows, mirrors, same, steady⟩ := generalize_together mirrors alike
  refine ⟨grows, mirrors, ?_⟩
  rw [same]
  exact .refl steady

end Environment

end ShaderTyping
