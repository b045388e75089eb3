import ShaderTyping.Proofs.Bindings

namespace ShaderTyping

/-!
# Resolving along consistent bindings

`resolve` and `resolveLength` follow bindings within a number of steps that is
computed from the environment.  Along consistent bindings this number is always
enough: more steps change nothing, both functions satisfy the equations of the
unbounded recursion, and no bound variable is left in what they return.
-/

namespace Environment

variable {env : Environment}

/-! ## Lengths -/

/-- The ranks of lengths along consistent bindings. -/
theorem exists_lengthRank (consistent : env.frames.Consistent) :
    ∃ rank : Length → Nat,
      (∀ length, rank length ≤ env.frames.lengthBindingCount) ∧
        ∀ {id bound},
          env.frames.length? id = some bound → rank bound < rank (.var id) := by
  obtain ⟨rank, bounded, falls⟩ :=
    consistent.lengthsAcyclic.exists_rank
      (Frame.values Frame.lengths env.frames.frames) Frame.mem_values
  rw [Frame.length_values] at bounded
  exact ⟨rank, bounded, fun {id bound} found => falls ⟨id, rfl, found⟩⟩

/-- Steps beyond the number of bindings are not used. -/
theorem resolveLengthWithin_eq
    (consistent : env.frames.Consistent)
    {steps : Nat}
    (enough : env.frames.lengthBindingCount ≤ steps)
    (length : Length) :
    env.resolveLengthWithin steps length = env.resolveLength length := by
  obtain ⟨rank, bounded, falls⟩ := exists_lengthRank consistent
  have general :
      ∀ {first second length},
        rank length ≤ first →
        rank length ≤ second →
        env.resolveLengthWithin first length = env.resolveLengthWithin second length := by
    intro first
    induction first with
    | zero =>
        intro second length isLast _
        cases length with
        | known count => cases second <;> rfl
        | var id =>
            cases second with
            | zero => rfl
            | succ second =>
                cases found : env.frames.length? id with
                | none => simp [resolveLengthWithin, found]
                | some bound =>
                    have := falls found
                    omega
    | succ first inductionHypothesis =>
        intro second length inFirst inSecond
        cases length with
        | known count => cases second <;> rfl
        | var id =>
            cases found : env.frames.length? id with
            | none => cases second <;> simp [resolveLengthWithin, found]
            | some bound =>
                have isLess := falls found
                obtain ⟨fewer, rfl⟩ : ∃ fewer, second = fewer + 1 :=
                  ⟨second - 1, by omega⟩
                simp only [resolveLengthWithin, found]
                exact inductionHypothesis (by omega) (by omega)
  cases length with
  | known count => cases steps <;> rfl
  | var id =>
      exact general ((bounded _).trans enough) (bounded _)

/-- A bound length variable is resolved to what its binding is resolved to. -/
theorem resolveLength_var
    (consistent : env.frames.Consistent)
    (id : LengthId) :
    env.resolveLength (.var id) =
      match env.frames.length? id with
      | some bound => env.resolveLength bound
      | none => .var id := by
  rw [← resolveLengthWithin_eq consistent (Nat.le_succ _), resolveLengthWithin]
  cases found : env.frames.length? id with
  | none => rfl
  | some bound => exact resolveLengthWithin_eq consistent le_rfl bound

/-- A resolved length is no bound variable. -/
theorem length?_of_resolveLength_eq_var
    (consistent : env.frames.Consistent)
    {length : Length}
    {id : LengthId}
    (resolved : env.resolveLength length = .var id) :
    env.frames.length? id = none := by
  obtain ⟨rank, _, falls⟩ := exists_lengthRank consistent
  induction isRank : rank length using Nat.strong_induction_on generalizing length with
  | _ _ inductionHypothesis =>
      cases length with
      | known count => contradiction
      | var other =>
          rw [resolveLength_var consistent] at resolved
          cases found : env.frames.length? other with
          | none =>
              rw [found] at resolved
              cases resolved
              exact found
          | some bound =>
              rw [found] at resolved
              exact inductionHypothesis _ (isRank ▸ falls found) resolved rfl

/-- Resolving a length twice is resolving it once. -/
theorem resolveLength_resolveLength
    (consistent : env.frames.Consistent)
    (length : Length) :
    env.resolveLength (env.resolveLength length) = env.resolveLength length := by
  cases resolved : env.resolveLength length with
  | known count => rfl
  | var id =>
      rw [resolveLength_var consistent,
        length?_of_resolveLength_eq_var consistent resolved]

/-! ## Types -/

/-- The ranks of types along consistent bindings. -/
theorem exists_bindingRank (consistent : env.frames.Consistent) :
    ∃ rank : Ty → Nat,
      (∀ ty, rank ty ≤ env.bindingCount) ∧
        ∀ {ty scope id bound},
          .placeholder scope id ∈ ty.leaves →
          env.binding? id = some bound →
          rank bound < rank ty := by
  obtain ⟨rank, bounded, falls⟩ :=
    consistent.placeholdersAcyclic.exists_rank
      (Frame.values Frame.placeholders env.frames.frames) Frame.mem_values
  rw [Frame.length_values] at bounded
  refine ⟨rank, bounded, ?_⟩
  intro ty scope id bound isLeaf found
  exact falls ⟨id, Ty.mentions_iff_mem_leaves.mpr ⟨scope, isLeaf⟩, found⟩

/-- Induction along bindings: from the types bound inside a type to the type. -/
theorem bindingInduction
    (consistent : env.frames.Consistent)
    {motive : Ty → Prop}
    (step :
      ∀ ty,
        (∀ {scope id bound},
          .placeholder scope id ∈ ty.leaves →
          env.binding? id = some bound →
          motive bound) →
        motive ty)
    (ty : Ty) :
    motive ty := by
  obtain ⟨rank, _, falls⟩ := exists_bindingRank consistent
  induction isRank : rank ty using Nat.strong_induction_on generalizing ty with
  | _ _ inductionHypothesis =>
      refine step ty fun isLeaf found => ?_
      exact inductionHypothesis _ (isRank ▸ falls isLeaf found) _ rfl

/-- Steps beyond the number of bindings are not used at the head of a type. -/
theorem followWithin_eq
    (consistent : env.frames.Consistent)
    {steps : Nat}
    (enough : env.bindingCount ≤ steps)
    (ty : Ty) :
    env.followWithin steps ty = env.follow ty := by
  obtain ⟨rank, bounded, falls⟩ := exists_bindingRank consistent
  have placeholderFalls {scope : ScopeId} {id : PlaceholderId} {bound : Ty}
      (found : env.binding? id = some bound) : rank bound < rank (.placeholder scope id) :=
    falls (Ty.leaves_placeholder scope id ▸ List.mem_singleton_self _) found
  have oneMore {steps : Nat} {ty : Ty} (isEnough : rank ty ≤ steps) :
      env.followWithin (steps + 1) ty = env.followWithin steps ty := by
    induction steps generalizing ty with
    | zero =>
        cases ty with
        | placeholder scope id =>
            cases found : env.binding? id with
            | none => simp [followWithin, found]
            | some bound =>
                have isLess : rank bound < rank (.placeholder scope id) := placeholderFalls found
                omega
        | _ => rfl
    | succ steps inductionHypothesis =>
        cases ty with
        | placeholder scope id =>
            rw [followWithin, followWithin]
            cases found : env.binding? id with
            | none => rfl
            | some bound =>
                have isLess : rank bound < rank (.placeholder scope id) := placeholderFalls found
                exact inductionHypothesis (by omega)
        | _ => rfl
  induction steps, enough using Nat.le_induction with
  | base =>
      unfold follow
      split
      · rfl
      · rename_i isOther
        cases ty with
        | placeholder scope id => exact absurd rfl isOther
        | _ => cases env.bindingCount <;> rfl
  | succ steps isEnough inductionHypothesis =>
      rw [oneMore ((bounded ty).trans isEnough)]
      exact inductionHypothesis

/-- A bound placeholder is followed to where its binding is followed to. -/
theorem follow_placeholder
    (consistent : env.frames.Consistent)
    (scope : ScopeId)
    (id : PlaceholderId) :
    env.follow (.placeholder scope id) =
      match env.binding? id with
      | some bound => env.follow bound
      | none => .placeholder scope id := by
  rw [← followWithin_eq consistent (Nat.le_succ _), followWithin]
  cases found : env.binding? id with
  | none => rfl
  | some bound => exact followWithin_eq consistent le_rfl bound

/-- Following ends at no bound placeholder. -/
theorem binding?_of_follow_eq
    (consistent : env.frames.Consistent)
    {ty : Ty}
    {scope : ScopeId}
    {id : PlaceholderId}
    (followed : env.follow ty = .placeholder scope id) :
    env.binding? id = none := by
  induction ty using bindingInduction consistent with
  | step ty inductionHypothesis =>
      cases ty with
      | placeholder otherScope other =>
          rw [follow_placeholder consistent] at followed
          cases found : env.binding? other with
          | none =>
              rw [found] at followed
              cases followed
              exact found
          | some bound =>
              rw [found] at followed
              exact inductionHypothesis (Ty.leaves_placeholder otherScope other ▸
                List.mem_singleton_self _) found followed
      | _ => cases followed

/-- Steps beyond the number of bindings are not used. -/
theorem resolveWithin_eq
    (consistent : env.frames.Consistent)
    {steps : Nat}
    (enough : env.bindingCount < steps)
    (ty : Ty) :
    env.resolveWithin steps ty = env.resolve ty := by
  obtain ⟨rank, bounded, falls⟩ := exists_bindingRank consistent
  have general :
      ∀ {first second ty},
        rank ty < first →
        rank ty < second →
        env.resolveWithin first ty = env.resolveWithin second ty := by
    intro first
    induction first with
    | zero =>
        intro second ty inFirst
        omega
    | succ first inductionHypothesis =>
        intro second ty inFirst inSecond
        obtain ⟨fewer, rfl⟩ : ∃ fewer, second = fewer + 1 :=
          ⟨second - 1, by omega⟩
        refine Ty.subst_congr (fun _ => rfl) fun leaf isLeaf => ?_
        cases Ty.isLeaf_of_mem_leaves isLeaf with
        | placeholder scope id =>
            simp only [Ty.subst_placeholder]
            cases found : env.binding? id with
            | none => rfl
            | some bound =>
                have isLess := falls isLeaf found
                exact inductionHypothesis (by omega) (by omega)
        | _ => rfl
  exact general ((bounded ty).trans_lt enough) (Nat.lt_succ_of_le (bounded ty))

/-- What resolving puts for the leaves and lengths of a type. -/
def resolution (env : Environment) : Substitution where
  named := .named
  placeholder := fun scope id =>
    match env.binding? id with
    | some bound => env.resolve bound
    | none => .placeholder scope id
  parametric := .parametric
  length := env.resolveLength

/-- Resolving a type resolves what its placeholders are bound to. -/
theorem resolve_eq_subst
    (consistent : env.frames.Consistent)
    (ty : Ty) :
    env.resolve ty = ty.subst env.resolution := by
  rw [← resolveWithin_eq consistent (Nat.lt_succ_of_lt (Nat.lt_succ_self _)), resolveWithin]
  refine Ty.subst_congr (fun _ => rfl) fun leaf isLeaf => ?_
  cases Ty.isLeaf_of_mem_leaves isLeaf with
  | placeholder scope id =>
      simp only [Ty.subst_placeholder, resolution]
      cases found : env.binding? id with
      | none => rfl
      | some bound => exact resolveWithin_eq consistent (Nat.lt_succ_self _) bound
  | _ => rfl

/-- Whether a variable is bound. -/
def isBound (env : Environment) : Var → Bool
  | .placeholder id => (env.binding? id).isSome
  | .length id => (env.frames.length? id).isSome
  | .parametric _ _ => false

/-- A placeholder that is not bound has no binding. -/
theorem isBound_placeholder_eq_false_iff {id : PlaceholderId} :
    env.isBound (.placeholder id) = false ↔ env.binding? id = none := by
  rw [isBound, Option.isSome_eq_false_iff, Option.isNone_iff_eq_none]

/-- A length variable that is not bound has no binding. -/
theorem isBound_length_eq_false_iff {id : LengthId} :
    env.isBound (.length id) = false ↔ env.frames.length? id = none := by
  rw [isBound, Option.isSome_eq_false_iff, Option.isNone_iff_eq_none]

/-- No bound variable is left in a resolved type. -/
theorem isBound_of_mem_vars_resolve
    (consistent : env.frames.Consistent)
    {ty : Ty}
    {var : Var}
    (member : var ∈ (env.resolve ty).vars) :
    env.isBound var = false := by
  induction ty using bindingInduction consistent with
  | step ty inductionHypothesis =>
      rw [resolve_eq_subst consistent] at member
      rcases Ty.mem_vars_subst member with ⟨leaf, isLeaf, inLeaf⟩ | ⟨length, inLength⟩
      · cases Ty.isLeaf_of_mem_leaves isLeaf with
        | placeholder scope id =>
            simp only [Ty.subst_placeholder, resolution] at inLeaf
            cases found : env.binding? id with
            | none =>
                simp only [found, Ty.vars, Ty.collect_placeholder, Ty.leafVars,
                  List.mem_singleton] at inLeaf
                simp [inLeaf, isBound, found]
            | some bound =>
                simp only [found] at inLeaf
                exact inductionHypothesis isLeaf found inLeaf
        | parametric scope label =>
            simp only [Ty.subst_parametric, resolution, Ty.vars, Ty.collect_parametric,
              Ty.leafVars, List.mem_singleton] at inLeaf
            rw [inLeaf]
            rfl
        | named => simp [resolution, Ty.vars, Ty.leafVars] at inLeaf
        | primitive => simp [Ty.vars, Ty.leafVars] at inLeaf
      · cases resolved : env.resolveLength length with
        | known count => simp [resolution, resolved, Ty.lengthVars] at inLength
        | var id =>
            simp only [resolution, resolved, Ty.lengthVars, List.mem_singleton] at inLength
            simp [inLength, isBound, length?_of_resolveLength_eq_var consistent resolved]

/-- Resolving brings a type into canonical form. -/
theorem canonical_resolve
    (consistent : env.frames.Consistent)
    (ty : Ty) :
    (env.resolve ty).Canonical := by
  induction ty using bindingInduction consistent with
  | step ty inductionHypothesis =>
      rw [resolve_eq_subst consistent]
      refine Ty.Canonical.subst fun leaf isLeaf => ?_
      cases Ty.isLeaf_of_mem_leaves isLeaf with
      | placeholder scope id =>
          simp only [Ty.subst_placeholder, resolution]
          cases found : env.binding? id with
          | none => exact .placeholder scope id
          | some bound => exact inductionHypothesis isLeaf found
      | primitive kind => exact .primitive kind
      | named scope name => exact .named scope name
      | parametric scope label => exact .parametric scope label

/-- A canonical type without bound variables is resolved. -/
theorem resolve_eq_self
    (consistent : env.frames.Consistent)
    {ty : Ty}
    (canonical : ty.Canonical)
    (unbound : ∀ var ∈ ty.vars, env.isBound var = false) :
    env.resolve ty = ty := by
  rw [resolve_eq_subst consistent]
  refine canonical.subst_eq_self (fun _ => rfl) ?_ ?_
  · intro id member
    have isUnbound := isBound_length_eq_false_iff.mp (unbound _ member)
    simp only [resolution]
    rw [resolveLength_var consistent, isUnbound]
  · intro leaf isLeaf
    cases Ty.isLeaf_of_mem_leaves isLeaf with
    | placeholder scope id =>
        have isUnbound :=
          isBound_placeholder_eq_false_iff.mp
            (unbound _ (Ty.mentions_iff_mem_leaves.mpr ⟨scope, isLeaf⟩))
        simp only [Ty.subst_placeholder, resolution, isUnbound]
    | _ => rfl

/-- Resolving a type twice is resolving it once. -/
theorem resolve_resolve
    (consistent : env.frames.Consistent)
    (ty : Ty) :
    env.resolve (env.resolve ty) = env.resolve ty :=
  resolve_eq_self consistent (canonical_resolve consistent ty) fun _ member =>
    isBound_of_mem_vars_resolve consistent member

end Environment

end ShaderTyping
