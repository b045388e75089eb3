import ShaderTyping.Proofs.Nesting
import ShaderTyping.Proofs.Restoration

namespace ShaderTyping

/-!
# Unification and calls come to an end

A call applies a type to one argument after the other, and a member of an overload set
to the same arguments again.  The number of arguments and a measure of the callee bound
its nesting.  So in a reachable environment in which nothing leads back to itself
neither unification nor a call uses up the steps granted to it
(`unify_and_call_terminate`).
-/

open Environment (Run)
open ShaderTyping.Action (Extends)

namespace Action

/-- The action comes to an end. -/
def Answers (action : Action ε α) (env : Environment) : Prop :=
  action env ≠ .exhausted

namespace Answers

variable {env : Environment}

theorem pure (value : α) : Answers (Pure.pure value : Action ε α) env := by
  nofun

theorem fail (cause : ε) : Answers (Action.fail cause : Action ε α) env := by
  nofun

/-- Two actions in a row answer if both do. -/
theorem bind
    {first : Action ε α}
    {next : α → Action ε β}
    (firstAnswers : Answers first env)
    (nextAnswers :
      ∀ {value middle}, first env = .ok value middle → Answers (next value) middle) :
    Answers (first >>= next) env := by
  change Action.bind first next env ≠ .exhausted
  unfold Action.bind
  cases outcome : first env with
  | ok value middle => exact nextAnswers outcome
  | error cause middle => nofun
  | exhausted => exact absurd outcome firstAnswers

/-- An attempt answers if the action does. -/
theorem attempt
    {action : Action ε α}
    (answers : Answers action env) :
    Answers (Action.attempt action : Action ε' (Except ε α)) env := by
  unfold Answers Action.attempt
  cases outcome : action env with
  | ok value middle => nofun
  | error cause middle => nofun
  | exhausted => exact absurd outcome answers

/-- A transaction answers if what happens inside does. -/
theorem transaction
    {action : Action ε α}
    (answers : Answers action env.push) :
    Answers action.transaction env := by
  unfold Answers Action.transaction
  cases outcome : action env.push with
  | ok value middle => nofun
  | error cause middle => nofun
  | exhausted => exact absurd outcome answers

end Answers

/-- An attempt that reports a failure did fail. -/
theorem eq_error_of_attempt
    {action : Action ε α}
    {env final : Environment}
    {cause : ε}
    (ended : (Action.attempt action : Action ε' (Except ε α)) env = .ok (.error cause) final) :
    action env = .error cause final := by
  unfold Action.attempt at ended
  cases outcome : action env with
  | ok value middle => simp [outcome] at ended
  | error reason middle =>
      simp only [outcome, Outcome.ok.injEq, Except.error.injEq] at ended
      rw [ended.1, ended.2]
  | exhausted => simp [outcome] at ended

end Action

namespace Call

open ShaderTyping.Action (Answers)

variable {env : Environment}

/-- The trials of an overload set come to an end if each of them does. -/
theorem firstAccepting_answers
    {recur : Ty → List Ty → Action UnifyError Ty}
    (recurRuns : ∀ callee args env, Action.Obeys Run (recur callee args) env)
    {arg : Ty}
    {rest members : List Ty}
    (each :
      ∀ member ∈ members, ∀ {trial : Environment},
        trial.frames = env.frames →
        trial.declared = env.declared →
        Answers (recur member (arg :: rest)) trial.push) :
    Answers (firstAccepting recur arg rest members) env := by
  induction members generalizing env with
  | nil => exact .pure _
  | cons member others inductionHypothesis =>
      unfold firstAccepting
      refine .bind (by nofun) fun {_ noted} isNoted => ?_
      have sameFrames : noted.frames = env.frames := by
        cases isNoted
        exact Environment.frames_traceUnify _ _ _ env
      have sameDeclared : noted.declared = env.declared := by
        cases isNoted
        exact Environment.declared_traceUnify _ _ _ env
      have trialAnswers := each member List.mem_cons_self sameFrames sameDeclared
      refine .bind (.attempt (.transaction trialAnswers)) fun {result middle} ended => ?_
      cases result with
      | ok ty => exact .pure _
      | error cause =>
          -- A rejected member leaves no bindings, so the others are tried as before.
          have failed := Action.eq_error_of_attempt ended
          obtain ⟨inner, inside, rfl⟩ := Action.transaction_eq_error.mp failed
          have restored := Environment.Restored.of_run
            ((recurRuns member (arg :: rest) noted.push).of_eq_error inside)
          have framesBack := restored.frames_of_failed.trans sameFrames
          have declaredBack := (restored.transaction false).declared.trans sameDeclared
          refine inductionHypothesis fun other isOther trial isTrial isSame => ?_
          exact each other (List.mem_cons_of_mem _ isOther) (isTrial.trans framesBack)
            (isSame.trans declaredBack)

/--
A call comes to an end within a full descent for each argument and one for the callee.

Each argument may add a function type with a fresh result to the types at hand.
-/
def Descending (size steps : Nat) : Prop :=
  ∀ {env : Environment} {pool args : List Ty} {callee : Ty} {measure : Ty → Nat},
    env.Confined pool →
    env.Acyclic →
    callee ∈ pool →
    (∀ arg ∈ args, arg ∈ pool) →
    pool.length + 2 * args.length ≤ size →
    env.Descends pool measure →
    args.length * (Environment.descentBound size + 1) + measure callee < steps →
    Answers (within steps callee args) env

section Step

variable {size steps : Nat} {pool rest : List Ty}

/-- After an argument there is a full descent left for what takes the next one. -/
theorem rest_answers
    (descending : Descending size steps)
    (confined : env.Confined pool)
    (acyclic : env.Acyclic)
    {result : Ty}
    (resultListed : result ∈ pool)
    (restListed : ∀ arg ∈ rest, arg ∈ pool)
    (room : pool.length + 2 * rest.length ≤ size)
    (enough : (rest.length + 1) * (Environment.descentBound size + 1) ≤ steps) :
    Answers (within steps result rest) env := by
  obtain ⟨measure, descends, bounded⟩ := acyclic.exists_descent confined
  have resultBounded := bounded result resultListed
  have wider : Environment.descentBound pool.length ≤ Environment.descentBound size :=
    Environment.descentBound_mono (by omega)
  rw [Nat.succ_mul] at enough
  exact descending confined acyclic resultListed restListed room descends (by omega)

/-- A placeholder becomes a function, whose result takes the other arguments. -/
theorem placeholder_answers
    (descending : Descending size steps)
    (confined : env.Confined pool)
    (acyclic : env.Acyclic)
    {scope : ScopeId}
    {id : PlaceholderId}
    {arg : Ty}
    (calleeListed : .placeholder scope id ∈ pool)
    (argListed : arg ∈ pool)
    (restListed : ∀ arg ∈ rest, arg ∈ pool)
    (room : pool.length + 2 * (rest.length + 1) ≤ size)
    (enough : (rest.length + 1) * (Environment.descentBound size + 1) ≤ steps) :
    Answers
      (do
        let result ← Environment.freshPlaceholder scope
        let _ ← unify (.placeholder scope id) (.function arg result)
        within steps result rest)
      env := by
  let result : Ty := .placeholder scope ⟨env.fresh.placeholder⟩
  let fresh := (Environment.freshPlaceholder scope env).2
  let wider := .function arg result :: result :: pool
  have old {ty : Ty} (listed : ty ∈ pool) : ty ∈ wider :=
    List.mem_cons_of_mem _ (List.mem_cons_of_mem _ listed)
  have freshConfined : fresh.Confined wider :=
    (confined.cons_function argListed scope _).of_bindings confined.consistent rfl Or.inl
  have freshAcyclic : fresh.Acyclic := acyclic.congr fun _ => rfl
  change Answers (unify _ (.function arg result) >>= fun _ => within steps result rest) fresh
  refine .bind (unify_eq_within freshConfined.consistent freshAcyclic _ _).1 fun ended => ?_
  have proceeds :=
    (unify_settles freshConfined (old calleeListed) List.mem_cons_self).ends (by rw [ended]; rfl)
  refine rest_answers descending proceeds.confined (proceeds.acyclic freshAcyclic)
    (List.mem_cons_of_mem _ List.mem_cons_self) ?_ ?_ enough
  · exact fun other member => old (restListed other member)
  · simp only [wider, List.length_cons]
    omega

/-- Members are tried on the same arguments, but they measure less than their overload set. -/
theorem members_answer
    (descending : Descending size steps)
    (confined : env.Confined pool)
    (acyclic : env.Acyclic)
    {measure : Ty → Nat}
    (descends : env.Descends pool measure)
    {members : List Ty}
    {arg : Ty}
    (unionListed : .union members ∈ pool)
    (argsListed : ∀ other ∈ arg :: rest, other ∈ pool)
    (room : pool.length + 2 * (arg :: rest).length ≤ size)
    (enough :
      (arg :: rest).length * (Environment.descentBound size + 1) +
        measure (.union members) ≤ steps) :
    Answers (firstAccepting (within steps) arg rest members) env := by
  refine firstAccepting_answers (within_run steps) ?_
  intro member isMember trial sameFrames sameDeclared
  have isLess : measure member < measure (.union members) :=
    descends.children unionListed isMember
  have sameBindings (id : PlaceholderId) : trial.push.binding? id = env.binding? id := by
    rw [Environment.binding?, Environment.push, sameFrames]
    exact FrameStack.placeholder?_push env.frames id
  have sameStands (leaf : Ty) : trial.push.standsFor? leaf = env.standsFor? leaf :=
    Environment.standsFor?_congr sameDeclared sameBindings leaf
  have trialConfined : trial.push.Confined pool := by
    refine confined.of_bindings ?_ sameDeclared fun found => Or.inl (sameBindings _ ▸ found)
    exact (sameFrames ▸ confined.consistent).push
  exact descending trialConfined (acyclic.congr sameStands)
    (confined.children unionListed isMember) argsListed room (descends.congr sameStands)
    (by omega)

end Step

/-- A call answers if it has more steps than the callee and the arguments need. -/
theorem within_answers (size steps : Nat) : Descending size steps := by
  induction steps with
  | zero =>
      intro env pool args callee measure _ _ _ _ _ _ enough
      exact absurd enough (Nat.not_lt_zero _)
  | succ steps inductionHypothesis =>
      intro env pool args callee measure confined acyclic calleeListed argsListed room descends
        enough
      cases args with
      | nil => exact .pure _
      | cons arg rest =>
      have argListed := argsListed arg List.mem_cons_self
      have restListed : ∀ other ∈ rest, other ∈ pool := fun other member =>
        argsListed other (List.mem_cons_of_mem _ member)
      have headListed := confined.head calleeListed
      have notMore : measure (env.head callee) ≤ measure callee := by
        rcases descends.head confined calleeListed with same | isLess
        · rw [same]
        · exact isLess.le
      have restEnough : (rest.length + 1) * (Environment.descentBound size + 1) ≤ steps := by
        rw [List.length_cons] at enough
        omega
      have restRoom : pool.length + 2 * (rest.length + 1) ≤ size := room
      change Answers (step (within steps) callee (arg :: rest)) env
      unfold step
      refine .bind (by nofun) fun isRead => ?_
      cases isRead
      split
      · rename_i param result isHead
        rw [isHead] at headListed
        have paramListed : param ∈ pool := confined.children headListed List.mem_cons_self
        have resultListed : result ∈ pool :=
          confined.children headListed (List.mem_cons_of_mem _ List.mem_cons_self)
        refine .bind (unify_eq_within confined.consistent acyclic param arg).1 fun ended => ?_
        have proceeds := (unify_settles confined paramListed argListed).ends (by rw [ended]; rfl)
        exact rest_answers inductionHypothesis proceeds.confined (proceeds.acyclic acyclic)
          resultListed restListed (by omega) restEnough
      · rename_i scope id isHead
        rw [isHead] at headListed
        exact placeholder_answers inductionHypothesis confined acyclic headListed argListed
          restListed restRoom restEnough
      · rename_i members isHead
        rw [isHead] at headListed notMore
        refine .bind (members_answer inductionHypothesis confined acyclic descends headListed
          argsListed room (by omega)) fun {result _} _ => ?_
        cases result with
        | some ty => exact .pure _
        | none => exact .bind (by nofun) fun _ => .fail _
      · exact .fail _

/-- The bound on the nesting leaves a full descent for the callee and each argument. -/
theorem descent_lt_limit
    {callee : Ty}
    {args : List Ty}
    {height : Nat}
    (bounded :
      height ≤ Environment.descentBound
        (Unification.weight env + Ty.sizeOfMembers (callee :: args))) :
    args.length *
        (Environment.descentBound
          (Unification.weight env + Ty.sizeOfMembers (callee :: args) + 2 * args.length) + 1) +
      height < limit env callee args := by
  let size := Unification.weight env + Ty.sizeOfMembers (callee :: args) + 2 * args.length
  have isLimit : limit env callee args =
      (args.length + 1) * Unification.nestingBound (size + 2) := by
    rw [limit]
    congr 2
    simp only [size, Ty.sizeOfMembers]
    omega
  have wider :
      Environment.descentBound (Unification.weight env + Ty.sizeOfMembers (callee :: args)) ≤
        Environment.descentBound size :=
    Environment.descentBound_mono (Nat.le_add_right _ _)
  have isLess := Unification.four_mul_descentBound_lt size
  have scaled :
      (args.length + 1) * (Environment.descentBound size + 1) ≤
        (args.length + 1) * Unification.nestingBound (size + 2) :=
    Nat.mul_le_mul_left _ (by omega)
  rw [Nat.succ_mul] at scaled
  change args.length * (Environment.descentBound size + 1) + height < _
  omega

/-- Trying the members of an overload set extends if the rest of the call does. -/
theorem firstAccepting_extends
    {recur recur' : Ty → List Ty → Action UnifyError Ty}
    (isExtended : ∀ callee args, Extends (recur' callee args) (recur callee args))
    (arg : Ty)
    (rest members : List Ty) :
    Extends (firstAccepting recur' arg rest members) (firstAccepting recur arg rest members) := by
  induction members with
  | nil => exact .refl _
  | cons member others inductionHypothesis =>
      unfold firstAccepting
      refine .bind (.refl _) fun _ => ?_
      refine .bind (.attempt (.transaction (isExtended _ _))) fun result => ?_
      cases result with
      | ok ty => exact .refl _
      | error cause => exact inductionHypothesis

/-- More steps give the same answer. -/
theorem within_extends
    {few many : Nat}
    (notMore : few ≤ many)
    (callee : Ty)
    (args : List Ty) :
    Extends (within many callee args) (within few callee args) := by
  induction few generalizing many callee args with
  | zero => exact .exhausted _
  | succ few inductionHypothesis =>
      obtain ⟨many, rfl⟩ : ∃ fewer, many = fewer + 1 := ⟨many - 1, by omega⟩
      have isExtended := inductionHypothesis (Nat.le_of_succ_le_succ notMore)
      change Extends (step (within many) callee args) (step (within few) callee args)
      cases args with
      | nil => exact .refl _
      | cons arg rest =>
      unfold step
      refine .bind (.refl _) fun env => ?_
      split
      · exact .bind (.refl _) fun _ => isExtended _ _
      · exact .bind (.refl _) fun _ => .bind (.refl _) fun _ => isExtended _ _
      · exact .bind (firstAccepting_extends isExtended arg rest _) fun _ => .refl _
      · exact .refl _

end Call

/-- The steps granted to a call are enough, and more of them give the same answer. -/
theorem call_eq_within
    {env : Environment}
    (consistent : env.frames.Consistent)
    (acyclic : env.Acyclic)
    (callee : Ty)
    (args : List Ty) :
    call callee args env ≠ .exhausted ∧
      ∀ steps, Call.limit env callee args ≤ steps →
        call callee args env = Call.within steps callee args env := by
  have confined := Environment.confined_typesAtHand consistent (callee :: args)
  have listed {ty : Ty} (member : ty ∈ callee :: args) :
      ty ∈ (env.typesAtHand (callee :: args)).flatMap Ty.parts :=
    Environment.mem_parts_typesAtHand member
  have answers : Call.within (Call.limit env callee args) callee args env ≠ .exhausted := by
    obtain ⟨measure, descends, bounded⟩ := acyclic.exists_descent confined
    have calleeBounded := bounded callee (listed List.mem_cons_self)
    rw [Environment.length_parts_typesAtHand] at calleeBounded
    refine Call.within_answers _ _ confined acyclic (listed List.mem_cons_self)
      (fun arg member => listed (List.mem_cons_of_mem _ member)) (Nat.le_refl _) descends ?_
    rw [Environment.length_parts_typesAtHand]
    exact Call.descent_lt_limit calleeBounded
  have same (steps : Nat) (enough : Call.limit env callee args ≤ steps) :
      call callee args env = Call.within steps callee args env :=
    Action.orElse_eq_of_extends (fun steps => Call.within steps callee args)
      (fun notMore => Call.within_extends notMore callee args)
      Unification.usualNesting (fun env => Call.limit env callee args) answers enough
  refine ⟨?_, same⟩
  rw [same _ (Nat.le_refl _)]
  exact answers

/--
In a reachable environment in which bindings and definitions never lead back to
themselves, unification and calls come to an end on all types.

Their recursions stay within the computed bounds on the nesting, and larger bounds
give the same outcome.  The walks along bindings and definitions inside them end
within their own bounds as well.
-/
theorem unify_and_call_terminate
    {env : Environment}
    (reachable : env.Reachable)
    (acyclic : env.Acyclic) :
    (∀ left right,
      unify left right env ≠ .exhausted ∧
        ∀ steps, Unification.limit env left right ≤ steps →
          Unification.within steps left right env = unify left right env) ∧
    (∀ callee args,
      call callee args env ≠ .exhausted ∧
        ∀ steps, Call.limit env callee args ≤ steps →
          Call.within steps callee args env = call callee args env) ∧
    ∀ ty,
      (∀ steps, env.bindingCount ≤ steps → env.followWithin steps ty = env.follow ty) ∧
      (∀ steps, env.aliasCount ≤ steps → env.headWithin steps [] ty = env.head ty) ∧
      ∀ id steps, env.walkLimit < steps →
        (env.searchWithin id steps [] ty).isNone = env.occurs id ty := by
  have consistent := reachable.consistent
  refine ⟨fun left right => ?_, fun callee args => ?_, fun ty => ⟨?_, ?_, ?_⟩⟩
  · obtain ⟨answers, same⟩ := unify_eq_within consistent acyclic left right
    exact ⟨answers, fun steps enough => (same steps enough).symm⟩
  · obtain ⟨answers, same⟩ := call_eq_within consistent acyclic callee args
    exact ⟨answers, fun steps enough => (same steps enough).symm⟩
  · exact fun steps enough => Environment.followWithin_eq consistent enough ty
  · exact fun steps enough => Environment.headWithin_eq enough ty
  · exact fun id steps enough => Environment.searchWithin_isNone_eq consistent enough id ty

/-- A placeholder that is bound to a declared overload set can be called and unified. -/
theorem unify_and_call_terminate_overloaded :
    ∃ env : Environment,
      (env.Reachable ∧ env.Acyclic ∧
        env.binding? ⟨0⟩ = some (.named .native "Negate")) ∧
      unify (.placeholder .native ⟨0⟩) (.function Ty.int Ty.int) env ≠ .exhausted ∧
      call (.placeholder .native ⟨0⟩) [Ty.float] env ≠ .exhausted := by
  let negate : Ty := .union [.function Ty.float Ty.float, .function Ty.int Ty.int]
  let declared : Environment :=
    Operation.declare (Environment.empty Options.standard) fun declared =>
      declared.declareType .native "Negate" negate
  have declaredAcyclic : declared.Acyclic := by
    refine Environment.acyclic_of_no_references FrameStack.placeholder?_empty fun entry isEntry => ?_
    have isNegate : entry ∈ [⟨.native, "Negate", negate⟩] := isEntry
    rw [List.mem_singleton.mp isNegate]
    decide
  have computed :
      (unify (.placeholder .native ⟨0⟩) (.named .native "Negate") declared).final?.map
        (fun env => env.binding? ⟨0⟩) = some (some (.named .native "Negate")) := by
    decide +kernel
  obtain ⟨env, unified, isBound⟩ := Option.map_eq_some_iff.mp computed
  have reachable : env.Reachable := by
    refine ⟨Options.standard, [.declareType .native "Negate" negate,
      .unify (.placeholder .native ⟨0⟩) (.named .native "Negate")], ?_⟩
    simp only [Operation.performAll, Operation.perform, Option.bind_some]
    exact congrArg (Option.bind · some) unified
  have acyclic : env.Acyclic :=
    (Environment.grows_of_binds FrameStack.Consistent.empty
      (unify_binds _ _ declared env unified)).2.2 declaredAcyclic
  obtain ⟨unifies, calls, _⟩ := unify_and_call_terminate reachable acyclic
  exact ⟨env, ⟨reachable, acyclic, isBound⟩, (unifies _ _).1, (calls _ _).1⟩

end ShaderTyping
