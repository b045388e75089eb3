import ShaderTyping.Proofs.MirroredUnification
import ShaderTyping.Proofs.Termination

namespace ShaderTyping

/-!
# Calls in mirrored environments

Unification always answers, so it comes to the same on types that are alike
(`unify_parallel`).  A call takes the same steps in both environments, because overload
sets are the same in both, and so calls come to the same as well (`call_parallel`).
-/

open ShaderTyping.Environment (Mirroring Matches Together)
open ShaderTyping.Action (Parallel)

variable {mayStop : Prop} {change : ExprId → Nat → Ty → Ty} {levels : Nat}
variable {env env' : Environment}

/-- Types that are alike are unified to types that are alike, or in both environments not at all. -/
theorem unify_parallel
    (mirrors : Mirroring change levels env env')
    {left left' right right' : Ty}
    (alikeLeft : env.Matches left left')
    (alikeRight : env.Matches right right') :
    Parallel mayStop change levels Matches (unify left right) (unify left' right') env env' := by
  obtain ⟨answers, same⟩ :=
    unify_eq_within mirrors.sound.consistent mirrors.sound.acyclic left right
  obtain ⟨answers', same'⟩ :=
    unify_eq_within mirrors.sound'.consistent mirrors.sound'.acyclic left' right'
  have parallel := Unification.within_parallel (Unification.limit env left right)
    (Unification.limit env' left' right') mirrors alikeLeft alikeRight
  unfold Parallel at parallel ⊢
  rw [← same _ (Nat.le_refl _), ← same' _ (Nat.le_refl _)] at parallel
  exact parallel.of_answers answers answers' mayStop

namespace Environment

/-- Fresh placeholders are the same in both environments. -/
theorem freshPlaceholder_together
    (mirrors : Mirroring change levels env env')
    (scope : ScopeId) :
    Together change levels (fun _ ty ty' => ty' = ty ∧ ty.Steady) (freshPlaceholder scope)
      (freshPlaceholder scope) env env' where
  grows := .of_frames rfl rfl
  mirrors := by
    simpa only [freshPlaceholder, mirrors.fresh] using
      mirrors.count { env.fresh with placeholder := env.fresh.placeholder + 1 }
  values := by
    simp only [freshPlaceholder, mirrors.fresh, true_and]
    exact .placeholder _ _

/-- Fresh length variables are the same in both environments. -/
theorem freshLength_together (mirrors : Mirroring change levels env env') :
    Together change levels (fun _ length length' => length' = length) freshLength freshLength
      env env' where
  grows := .of_frames rfl rfl
  mirrors := by
    simpa only [freshLength, mirrors.fresh] using
      mirrors.count { env.fresh with length := env.fresh.length + 1 }
  values := by simp only [freshLength, mirrors.fresh]

end Environment

namespace Call

variable {recur recur' : Ty → List Ty → Action UnifyError Ty}

/-- Calls on types that are alike come to types that are alike. -/
def RunsAlike
    (change : ExprId → Nat → Ty → Ty)
    (levels : Nat)
    (recur recur' : Ty → List Ty → Action UnifyError Ty) : Prop :=
  ∀ {env env' : Environment} {callee callee' : Ty} {args args' : List Ty},
    Mirroring change levels env env' →
    env.Matches callee callee' →
    List.Forall₂ env.Matches args args' →
    Parallel True change levels Matches (recur callee args) (recur' callee' args') env env'

/-- Types that are alike stay alike. -/
theorem matches_lasting : Parallel.Lasting Matches :=
  fun _ _ _ _ grows sound alike => alike.mono grows sound.consistent

/-- Trying the members of an overload set is parallel if the rest of the call is. -/
theorem firstAccepting_parallel
    (runs : RunsAlike change levels recur recur')
    (obeys : ∀ callee args env, Action.Obeys Environment.Run (recur callee args) env)
    (obeys' : ∀ callee args env, Action.Obeys Environment.Run (recur' callee args) env)
    (mirrors : Mirroring change levels env env')
    {arg arg' : Ty}
    (alikeArg : env.Matches arg arg')
    {rest rest' : List Ty}
    (alikeRest : List.Forall₂ env.Matches rest rest')
    {members : List Ty}
    (constant : ∀ member ∈ members, member.Constant) :
    Parallel True change levels (fun later => Option.Rel later.Matches)
      (firstAccepting recur arg rest members) (firstAccepting recur' arg' rest' members)
      env env' := by
  induction members generalizing env env' with
  | nil => exact .pure mirrors .none
  | cons member others inductionHypothesis =>
      obtain ⟨first, others⟩ := List.forall_mem_cons.mp constant
      unfold firstAccepting
      refine .note mirrors fun grows mirrors => ?_
      have stillAlike := alikeArg.mono grows mirrors.sound.consistent
      have stillAlike' := alikeRest.imp fun _ _ alike => alike.mono grows mirrors.sound.consistent
      have pushed {ty ty' : Ty} (alike : Matches _ ty ty') :=
        alike.mono (Environment.Grows.push _) mirrors.push.sound.consistent
      have inside := runs mirrors.push (.refl first.steady)
        (.cons (pushed stillAlike) (stillAlike'.imp fun _ _ => pushed))
      refine .bind (.attempt_transaction mirrors matches_lasting (obeys _ _ _) (obeys' _ _ _)
        inside) fun {result result' _ _} grows mirrors ends => ?_
      cases result with
      | ok ty =>
          cases result' with
          | ok ty' => exact .pure mirrors (.some ends)
          | error cause' => exact ends.elim
      | error cause =>
          cases result' with
          | ok ty' => exact ends.elim
          | error cause' =>
              exact inductionHypothesis mirrors (stillAlike.mono grows mirrors.sound.consistent)
                (stillAlike'.imp fun _ _ alike => alike.mono grows mirrors.sound.consistent) others

/-- One argument of a call is parallel if the rest of the call is. -/
theorem step_parallel
    (runs : RunsAlike change levels recur recur')
    (obeys : ∀ callee args env, Action.Obeys Environment.Run (recur callee args) env)
    (obeys' : ∀ callee args env, Action.Obeys Environment.Run (recur' callee args) env) :
    RunsAlike change levels (step recur) (step recur') := by
  intro env env' callee callee' args args' mirrors alikeCallee alikeArgs
  cases alikeArgs with
  | nil => exact .pure mirrors alikeCallee
  | @cons arg arg' rest rest' alikeArg alikeRest =>
  have shape := mirrors.sameShape_head alikeCallee
  unfold step
  refine .bind_environment ?_
  generalize env.head callee = found, env'.head callee' = found' at shape ⊢
  have restAlike {later : Environment} (grows : env.Grows later) (sound : later.Sound) :=
    alikeRest.imp fun _ _ alike => alike.mono grows sound.consistent
  cases shape with
  | function alikeParam alikeResult =>
      refine .bind (unify_parallel mirrors alikeParam alikeArg) fun grows mirrors _ => ?_
      exact runs mirrors (alikeResult.mono grows mirrors.sound.consistent)
        (restAlike grows mirrors.sound)
  | placeholder scope id =>
      refine .bind (.of_together (Environment.freshPlaceholder_together mirrors scope)) ?_
      rintro result _ middle _ grows mirrors ⟨rfl, steady⟩
      have stillAlike := alikeArg.mono grows mirrors.sound.consistent
      refine .bind (unify_parallel mirrors (.refl (.placeholder scope id))
        (stillAlike.function (.refl steady))) fun grows' mirrors _ => ?_
      exact runs mirrors (.refl steady) (restAlike (grows.trans grows') mirrors.sound)
  | @union members constant =>
      have eachConstant : ∀ member ∈ members, member.Constant := by
        cases constant with
        | union _ each => exact each
      refine .bind (firstAccepting_parallel runs obeys obeys' mirrors alikeArg alikeRest
        eachConstant) fun grows mirrors accepted => ?_
      cases accepted with
      | some alike => exact .pure mirrors alike
      | none => exact .bind_environment (.fail mirrors)
  | _ => exact .fail mirrors

/-- A call in any number of steps is parallel. -/
theorem within_parallel (steps : Nat) : RunsAlike change levels (within steps) (within steps) := by
  induction steps with
  | zero => exact fun _ _ _ => .stopped _ trivial
  | succ steps inductionHypothesis =>
      exact step_parallel inductionHypothesis (within_run steps) (within_run steps)

end Call

/-- Calls on types that are alike come to types that are alike, or in both environments to none. -/
theorem call_parallel
    (mirrors : Mirroring change levels env env')
    {callee callee' : Ty}
    {args args' : List Ty}
    (alikeCallee : env.Matches callee callee')
    (alikeArgs : List.Forall₂ env.Matches args args') :
    Parallel mayStop change levels Matches (call callee args) (call callee' args') env env' := by
  obtain ⟨answers, same⟩ :=
    call_eq_within mirrors.sound.consistent mirrors.sound.acyclic callee args
  obtain ⟨answers', same'⟩ :=
    call_eq_within mirrors.sound'.consistent mirrors.sound'.acyclic callee' args'
  have parallel := Call.within_parallel
    (max (Call.limit env callee args) (Call.limit env' callee' args')) mirrors alikeCallee alikeArgs
  unfold Parallel at parallel ⊢
  rw [← same _ (Nat.le_max_left _ _), ← same' _ (Nat.le_max_right _ _)] at parallel
  exact parallel.of_answers answers answers' mayStop

end ShaderTyping
