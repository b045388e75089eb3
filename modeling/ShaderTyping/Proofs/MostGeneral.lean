import ShaderTyping.Proofs.Nesting
import ShaderTyping.Proofs.Solutions

namespace ShaderTyping

/-!
# Most general unifiers of rigid types

On rigid types unification decides whether some choice of types for placeholders and of
lengths for length variables respects all bindings and makes the two types equal.  The
bindings that it adds are no stronger than that: they hold under all these choices
(`unify_most_general`).  Each rule narrows the choices by exactly the condition that it
is about, and a failing rule leaves no choice at all.
-/

/-- Different types become equal only through placeholders or through their parts. -/
theorem Solution.apply_ne_of_clash
    {scopeOf : PlaceholderId → ScopeId}
    {solution : Solution}
    {left right : Ty}
    (leftRigid : left.Rigid scopeOf)
    (rightRigid : right.Rigid scopeOf)
    (different : left ≠ right)
    (notLeft : ∀ scope id, left = .placeholder scope id → False)
    (notRight : ∀ scope id, right = .placeholder scope id → False)
    (notArrays :
      ∀ component length component' length',
        left = .array component length → right = .array component' length' → False)
    (notFunctions :
      ∀ param result param' result',
        left = .function param result → right = .function param' result' → False) :
    solution.apply left ≠ solution.apply right := by
  intro same
  cases leftRigid with
  | placeholder id => exact notLeft _ _ rfl
  | primitive =>
      cases rightRigid with
      | placeholder id => exact notRight _ _ rfl
      | primitive => exact different same
      | _ => cases same
  | parametric =>
      cases rightRigid with
      | placeholder id => exact notRight _ _ rfl
      | parametric => exact different same
      | _ => cases same
  | array =>
      cases rightRigid with
      | placeholder id => exact notRight _ _ rfl
      | array => exact notArrays _ _ _ _ rfl rfl
      | _ => cases same
  | function =>
      cases rightRigid with
      | placeholder id => exact notRight _ _ rfl
      | function => exact notFunctions _ _ _ _ rfl rfl
      | _ => cases same

namespace Unification

open ShaderTyping.Action (Narrows)

variable {scopeOf : PlaceholderId → ScopeId} {env : Environment}

/-- Keeping a step in the trace asks nothing. -/
theorem traced_narrows
    (bound : env.RigidlyBound scopeOf)
    (event : UnifyEvent)
    (left right : Operand)
    {next : Action ε α}
    {condition : Solution → Prop}
    (narrows :
      ∀ {noted}, noted.frames = env.frames → noted.RigidlyBound scopeOf →
        Narrows scopeOf next noted condition) :
    Narrows scopeOf
      (Action.update (Environment.traceUnify event left right) >>= fun _ => next)
      env condition := by
  have same := Environment.frames_traceUnify event left right env
  obtain ⟨nextBound, succeeds, fails⟩ := narrows same (bound.of_frames same)
  refine ⟨nextBound, fun ended solution => ?_, fun ended solution solves => ?_⟩
  · rw [succeeds ended, Solution.solves_traceUnify]
  · exact fails ended solution (solves.of_frames same)

/-- Different head constructors never become equal. -/
theorem mismatch_narrows
    (bound : env.RigidlyBound scopeOf)
    (left right : Ty)
    {condition : Solution → Prop}
    (unsolvable : ∀ {solution : Solution}, ¬ condition solution) :
    Narrows scopeOf (mismatch left right : Action UnifyError α) env condition :=
  traced_narrows bound _ _ _ fun _ _ => .bind_environment (.fail fun _ => unsolvable)

/-- Binding an unbound placeholder asks that it becomes equal to the other type. -/
theorem bind_narrows
    (bound : env.RigidlyBound scopeOf)
    {id : PlaceholderId}
    (unbound : env.binding? id = none)
    {other : Ty}
    (rigid : other.Rigid scopeOf) :
    Narrows scopeOf (bind (scopeOf id) id other) env fun solution =>
      solution.types id = solution.apply other := by
  have followed := bound.follow rigid
  refine .bind_environment ?_
  dsimp only
  split
  · rename_i same
    refine .pure bound fun {solution} solves => ?_
    rw [← solves.apply_follow, same, Solution.apply_placeholder]
  · rename_i different
    cases occurs : env.occurs id (env.follow other) with
    | true =>
        rw [if_pos rfl]
        refine traced_narrows bound _ _ _ fun same _ => .fail fun {solution} solves => ?_
        have envSolves := solves.of_frames same.symm
        rw [← envSolves.apply_follow]
        exact envSolves.types_ne_of_occurs bound followed
          (Environment.binding?_of_follow_eq bound.consistent) different occurs
    | false =>
        rw [if_neg Bool.false_ne_true]
        refine traced_narrows bound _ _ _ fun {noted} same _ => ?_
        have notedUnbound : noted.binding? id = none := by
          rw [Environment.binding?, same]
          exact unbound
        have finalBound : (noted.bindPlaceholder id (env.follow other)).RigidlyBound scopeOf :=
          (bound.bindPlaceholder unbound occurs followed).of_frames
            (congrArg (FrameStack.bindPlaceholder id _) same)
        refine (Narrows.update finalBound fun solution =>
          Solution.solves_bindPlaceholder notedUnbound).map.congr fun {solution} solves => ?_
        rw [(solves.of_frames same.symm).apply_follow]

end Unification

open ShaderTyping.Action (Narrows)

/-- Making two lengths agree asks that they become equal. -/
theorem unifyLength_narrows
    {scopeOf : PlaceholderId → ScopeId}
    {env : Environment}
    (bound : env.RigidlyBound scopeOf)
    (left right : Length) :
    Narrows scopeOf (unifyLength left right) env fun solution =>
      solution.applyLength left = solution.applyLength right := by
  have binds {id : LengthId} {first second : Length} (event : UnifyEvent)
      (noteLeft noteRight : Operand)
      (isVar : env.resolveLength first = .var id)
      (different : env.resolveLength second ≠ .var id) :
      Narrows scopeOf
        (do
          Action.update (Environment.traceUnify event noteLeft noteRight)
          Action.update (Environment.bindLength id (env.resolveLength second))
          pure (env.resolveLength second) : Action UnifyError Length)
        env fun solution => solution.applyLength first = solution.applyLength second := by
    refine Unification.traced_narrows bound _ _ _ fun {noted} same _ => ?_
    have unbound : noted.frames.length? id = none := by
      rw [same]
      exact Environment.length?_of_resolveLength_eq_var bound.consistent isVar
    have finalBound :
        (noted.bindLength id (env.resolveLength second)).RigidlyBound scopeOf :=
      (bound.bindLength isVar different).of_frames (congrArg (FrameStack.bindLength id _) same)
    refine (Narrows.update finalBound fun solution =>
      Solution.solves_bindLength unbound).map.congr fun {solution} solves => ?_
    have envSolves := solves.of_frames same.symm
    rw [envSolves.applyLength_resolveLength second, ← envSolves.applyLength_resolveLength first,
      isVar]
    rfl
  refine .bind_environment ?_
  dsimp only
  split
  · rename_i same
    refine .pure bound fun {solution} solves => ?_
    rw [← solves.applyLength_resolveLength left, same, solves.applyLength_resolveLength]
  · rename_i different
    split
    · rename_i id isVar
      rw [isVar] at different
      exact binds _ _ _ isVar (Ne.symm different)
    · rename_i id isVar _
      rw [isVar] at different
      exact (binds _ _ _ isVar different).congr fun _ => eq_comm
    · rename_i first second isFirst isSecond
      refine .fail fun {solution} solves same => ?_
      rw [← solves.applyLength_resolveLength left, ← solves.applyLength_resolveLength right,
        isFirst, isSecond] at same
      rw [isFirst, isSecond] at different
      exact different same

namespace Unification

variable {scopeOf : PlaceholderId → ScopeId} {env : Environment}
variable {recur : Ty → Ty → Action UnifyError Ty}

/-- On rigid types the action asks exactly that its two types become equal. -/
def Equates (scopeOf : PlaceholderId → ScopeId) (recur : Ty → Ty → Action UnifyError Ty) : Prop :=
  ∀ {env : Environment} {left right : Ty},
    env.RigidlyBound scopeOf →
    left.Rigid scopeOf →
    right.Rigid scopeOf →
    Narrows scopeOf (recur left right) env fun solution =>
      solution.apply left = solution.apply right

/-- One step of unification equates rigid types if the unification of smaller problems does. -/
theorem step_equates (equates : Equates scopeOf recur) : Equates scopeOf (step recur) := by
  intro env left right bound leftRigid rightRigid
  unfold step
  split
  · rename_i same
    subst same
    exact traced_narrows bound _ _ _ fun _ notedBound => .pure notedBound fun _ => rfl
  split
  case h_1 =>
    cases leftRigid with
    | placeholder id =>
    refine .bind_environment ?_
    split
    · rename_i ty isBound
      refine (equates bound (bound.rigid isBound) rightRigid).congr fun {solution} solves => ?_
      rw [Solution.apply_placeholder, solves.placeholders isBound]
    · rename_i unbound
      exact bind_narrows bound unbound rightRigid
  case h_2 =>
    exact (equates bound rightRigid leftRigid).congr fun _ => eq_comm
  case h_3 => cases leftRigid
  case h_4 => cases rightRigid
  case h_5 component length component' length' _ =>
    cases leftRigid with
    | array _ rigid =>
    cases rightRigid with
    | array _ rigid' =>
    refine traced_narrows bound _ _ _ fun _ notedBound => ?_
    refine ((equates notedBound rigid rigid').bind fun _ _ middleBound =>
      (unifyLength_narrows middleBound length length').map).congr fun _ => ?_
    rw [Solution.apply_array, Solution.apply_array, Ty.array.injEq]
  case h_6 => cases leftRigid
  case h_7 param result param' result' _ =>
    cases leftRigid with
    | function paramRigid resultRigid =>
    cases rightRigid with
    | function paramRigid' resultRigid' =>
    refine traced_narrows bound _ _ _ fun _ notedBound => ?_
    refine ((equates notedBound paramRigid paramRigid').bind fun _ _ middleBound =>
      (equates middleBound resultRigid resultRigid').map).congr fun _ => ?_
    rw [Solution.apply_function, Solution.apply_function, Ty.function.injEq]
  case h_8 =>
    cases leftRigid with
    | primitive notInt => exact absurd rfl notInt
  case h_9 =>
    cases rightRigid with
    | primitive notInt => exact absurd rfl notInt
  case h_10 different _ _ notLeft _ notRight _ notArrays _ notFunctions _ _ =>
    refine mismatch_narrows bound _ _ fun {solution} => ?_
    exact Solution.apply_ne_of_clash leftRigid rightRigid different notLeft notRight notArrays
      notFunctions

/-- Unification in any number of steps narrows to the solutions that make rigid types equal. -/
theorem within_equates (steps : Nat) : Equates scopeOf (within steps) := by
  induction steps with
  | zero =>
      intro env left right _ _ _
      exact .exhausted
  | succ steps inductionHypothesis => exact step_equates inductionHypothesis

end Unification

/-- Unification narrows to the solutions that make rigid types equal. -/
theorem unify_equates {scopeOf : PlaceholderId → ScopeId} :
    Unification.Equates scopeOf unify := by
  intro env left right bound leftRigid rightRigid
  refine .orElse (Unification.within_equates _ bound leftRigid rightRigid) ?_
  exact .bind_environment (Unification.within_equates _ bound leftRigid rightRigid)

/-! ## Unification of rigid types comes to an end, and its bindings have a solution -/

namespace Environment.RigidlyBound

variable {scopeOf : PlaceholderId → ScopeId} {env : Environment} {left right : Ty}

/-- What placeholders are bound to is rigid. -/
theorem rigid_of_mem_boundTypes
    (bound : env.RigidlyBound scopeOf)
    {ty : Ty}
    (listed : ty ∈ env.frames.boundTypes) :
    ty.Rigid scopeOf := by
  obtain ⟨id, found⟩ := bound.consistent.placeholdersOnce.exists_of_mem_values listed
  exact bound.rigid found

/--
Rigid types meet no references, so definitions that lead back to themselves do not
matter and consistent bindings are enough.
-/
theorem unify_ne_exhausted
    (bound : env.RigidlyBound scopeOf)
    (leftRigid : left.Rigid scopeOf)
    (rightRigid : right.Rigid scopeOf) :
    unify left right env ≠ .exhausted := by
  let types := env.frames.boundTypes ++ [left, right]
  have rigid {part : Ty} (listed : part ∈ types.flatMap Ty.parts) : part.Rigid scopeOf := by
    obtain ⟨ty, isType, isPart⟩ := List.mem_flatMap.mp listed
    have tyRigid : ty.Rigid scopeOf := by
      rcases List.mem_append.mp isType with isBound | isGiven
      · exact bound.rigid_of_mem_boundTypes isBound
      · have isEither : ty = left ∨ ty = right := by simpa using isGiven
        rcases isEither with rfl | rfl
        · exact leftRigid
        · exact rightRigid
    exact tyRigid.of_mem_parts isPart
  have confined : env.Confined (types.flatMap Ty.parts) := by
    refine confined_parts bound.consistent ?_ ?_
    · exact fun found => List.mem_append_left _ (Frame.mem_values found)
    · exact fun listed _ => by cases rigid listed
  have leftListed : left ∈ types.flatMap Ty.parts :=
    List.mem_flatMap.mpr ⟨left, by simp [types], Ty.mem_parts_self left⟩
  have rightListed : right ∈ types.flatMap Ty.parts :=
    List.mem_flatMap.mpr ⟨right, by simp [types], Ty.mem_parts_self right⟩
  refine Unification.ne_exhausted_of_settles (unify_settles confined leftListed rightListed)
    leftListed rightListed ?_ fun {later} proceeds => ?_
  · refine (Unification.four_mul_descentBound_lt _).trans_le (Unification.nestingBound_mono ?_)
    rw [Ty.length_flatMap_parts fun ty _ => Ty.length_parts ty]
    simp only [types, Ty.sizeOfMembers_append, Ty.sizeOfMembers, Unification.weight]
    omega
  · obtain ⟨rank, _, falls⟩ := exists_bindingRank proceeds.confined.consistent
    refine exists_descent proceeds.confined (.of_rank rank ?_)
    rintro ty next ⟨leaf, isLeaf, found⟩
    dsimp only at found
    split at found
    · rename_i listed
      cases rigid listed with
      | placeholder id => exact falls isLeaf found
      | _ => cases found
    · contradiction

/-- The solution that gives every variable what it is resolved to. -/
def resolving (scopeOf : PlaceholderId → ScopeId) (env : Environment) : Solution where
  types id := env.resolve (.placeholder (scopeOf id) id)
  lengths id := env.resolveLength (.var id)

/-- Choosing what variables resolve to makes a rigid type what it resolves to. -/
theorem apply_resolving
    (bound : env.RigidlyBound scopeOf)
    {ty : Ty}
    (rigid : ty.Rigid scopeOf) :
    (resolving scopeOf env).apply ty = env.resolve ty := by
  rw [resolve_eq_subst bound.consistent]
  refine Ty.subst_congr (fun length => ?_) fun leaf isLeaf => ?_
  · cases length <;> rfl
  · have leafRigid := rigid.of_mem_leaves isLeaf
    cases Ty.isLeaf_of_mem_leaves isLeaf with
    | placeholder =>
        cases leafRigid
        rw [← resolve_eq_subst bound.consistent]
        rfl
    | named => cases leafRigid
    | primitive | parametric => rfl

/-- Choosing what variables resolve to solves the environment. -/
theorem resolving_solves (bound : env.RigidlyBound scopeOf) :
    (resolving scopeOf env).Solves env where
  placeholders {id ty} found := by
    rw [bound.apply_resolving (bound.rigid found)]
    change env.resolve (.placeholder (scopeOf id) id) = env.resolve ty
    rw [resolve_eq_subst bound.consistent, Ty.subst_placeholder, resolution]
    simp only [found]
  lengths {id length} found := by
    change env.resolveLength (.var id) = _
    rw [resolveLength_var bound.consistent, found]
    cases length <;> rfl

end Environment.RigidlyBound

/--
On rigid types unification is complete and most general.

It succeeds exactly if some choice of types and lengths respects all bindings and makes
the two types equal, and then the choices that respect all bindings afterwards are
exactly these.
-/
theorem unify_most_general
    {env : Environment}
    {scopeOf : PlaceholderId → ScopeId}
    {left right : Ty}
    (reachable : env.Reachable)
    (boundRigid : ∀ id ty, env.binding? id = some ty → ty.Rigid scopeOf)
    (leftRigid : left.Rigid scopeOf)
    (rightRigid : right.Rigid scopeOf) :
    unify left right env ≠ .exhausted ∧
    ((∃ ty final, unify left right env = .ok ty final) ↔
      ∃ solution : Solution,
        solution.Solves env ∧ solution.apply left = solution.apply right) ∧
    ∀ ty final, unify left right env = .ok ty final →
      ∀ solution : Solution,
        solution.Solves final ↔
          solution.Solves env ∧ solution.apply left = solution.apply right := by
  have bound : env.RigidlyBound scopeOf := ⟨reachable.consistent, fun found => boundRigid _ _ found⟩
  have answers := bound.unify_ne_exhausted leftRigid rightRigid
  have narrows := unify_equates bound leftRigid rightRigid
  refine ⟨answers, ⟨?_, ?_⟩, fun ty final ended => narrows.succeeds ended⟩
  · rintro ⟨ty, final, ended⟩
    have solves := (narrows.bound ended).resolving_solves
    exact ⟨_, (narrows.succeeds ended _).mp solves⟩
  · rintro ⟨solution, solves, same⟩
    cases outcome : unify left right env with
    | ok ty final => exact ⟨ty, final, rfl⟩
    | error cause final => exact (narrows.fails outcome solution solves same).elim
    | exhausted => exact absurd outcome answers

/-- An array of a placeholder that is bound to a function type, and an array of functions. -/
theorem unify_most_general_array :
    ∃ env : Environment,
      (env.Reachable ∧
        env.binding? ⟨0⟩ = some (.function (.placeholder .native ⟨1⟩) Ty.float) ∧
        ∀ id ty, env.binding? id = some ty → ty.Rigid fun _ => .native) ∧
      ∃ solution : Solution,
        solution.Solves env ∧
          solution.apply (.array (.placeholder .native ⟨0⟩) (.var ⟨0⟩)) =
            solution.apply
              (.array (.function Ty.bool (.placeholder .native ⟨2⟩)) (.known 3)) := by
  let scopeOf : PlaceholderId → ScopeId := fun _ => .native
  let start := Environment.empty Options.standard
  have startBound : start.RigidlyBound scopeOf := by
    refine ⟨FrameStack.Consistent.empty, fun {id ty} found => ?_⟩
    have unbound : start.binding? id = none := FrameStack.placeholder?_empty id
    exact absurd (unbound.symm.trans found) (by simp)
  have floatRigid : Ty.float.Rigid scopeOf := .primitive (by decide)
  have boolRigid : Ty.bool.Rigid scopeOf := .primitive (by decide)
  have computed :
      (unify (.placeholder .native ⟨0⟩) (.function (.placeholder .native ⟨1⟩) Ty.float)
        start).value? = some (.function (.placeholder .native ⟨1⟩) Ty.float) := by
    decide +kernel
  have computedAfter :
      (unify (.placeholder .native ⟨0⟩) (.function (.placeholder .native ⟨1⟩) Ty.float)
        start).final?.map (fun env => (env.binding? ⟨0⟩,
          (unify (.array (.placeholder .native ⟨0⟩) (.var ⟨0⟩))
            (.array (.function Ty.bool (.placeholder .native ⟨2⟩)) (.known 3)) env).value?)) =
        some (some (.function (.placeholder .native ⟨1⟩) Ty.float),
          some (.array (.function Ty.bool Ty.float) (.known 3))) := by
    decide +kernel
  obtain ⟨env, unified⟩ := Outcome.eq_ok_of_value? computed
  rw [unified] at computedAfter
  obtain ⟨isBound, hasValue⟩ := Prod.mk.inj (Option.some.inj computedAfter)
  obtain ⟨final, unifiedAfter⟩ := Outcome.eq_ok_of_value? hasValue
  have reachable : env.Reachable := by
    refine ⟨Options.standard, [.unify (.placeholder .native ⟨0⟩)
      (.function (.placeholder .native ⟨1⟩) Ty.float)], ?_⟩
    simp only [Operation.performAll, Operation.perform]
    exact congrArg (fun outcome => outcome.final?.bind some) unified
  have envBound : env.RigidlyBound scopeOf :=
    (unify_equates startBound (.placeholder ⟨0⟩)
      (.function (.placeholder ⟨1⟩) floatRigid)).bound unified
  have boundRigid : ∀ id ty, env.binding? id = some ty → ty.Rigid scopeOf :=
    fun _ _ found => envBound.rigid found
  have leftRigid : (Ty.array (.placeholder .native ⟨0⟩) (.var ⟨0⟩)).Rigid scopeOf :=
    .array _ (.placeholder ⟨0⟩)
  have rightRigid :
      (Ty.array (.function Ty.bool (.placeholder .native ⟨2⟩)) (.known 3)).Rigid scopeOf :=
    .array _ (.function boolRigid (.placeholder ⟨2⟩))
  have decides := (unify_most_general reachable boundRigid leftRigid rightRigid).2.1
  exact ⟨env, ⟨reachable, isBound, boundRigid⟩, decides.mp ⟨_, final, unifiedAfter⟩⟩

end ShaderTyping
