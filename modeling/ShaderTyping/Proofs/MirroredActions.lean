import ShaderTyping.Proofs.MirroredEnvironments

namespace ShaderTyping

/-!
# Actions in mirrored environments

`Action.Parallel` compares two actions that run in environments that mirror each other:
if both come to an answer, both succeed with related values and leave mirrored
environments, or both fail.  The actions need not take the same steps; a comparison may
also leave open that one of them comes to no answer.
-/

namespace Environment

variable {change : ExprId → Nat → Ty → Ty} {levels : Nat}
variable {env env' later later' inner : Environment}

/-! ## Changes of mirrored environments -/

/-- Whether an environment is sound depends on its declarations and frames only. -/
theorem Sound.of_frames
    (sound : env.Sound)
    (declared : later.declared = env.declared)
    (frames : later.frames = env.frames) :
    later.Sound where
  consistent := frames ▸ sound.consistent
  acyclic := sound.acyclic.congr (standsFor?_congr declared fun id => by rw [binding?, frames]; rfl)
  definitions isDefined := by
    rw [definition?_congr declared] at isDefined
    exact sound.definitions isDefined

/-- A commit keeps an environment sound. -/
theorem Sound.commit (sound : env.Sound) : (env.finish true).Sound :=
  sound.of_readsLike (.commit env) (consistent_finish sound.consistent true)

namespace Mirroring

/-- Environments with the same bindings mirror each other if the rest of them does. -/
theorem of_frames
    {levels' : Nat}
    (mirrors : Mirroring change levels env env')
    (declared : later.declared = env.declared)
    (frames : later.frames = env.frames)
    (declared' : later'.declared = env'.declared)
    (frames' : later'.frames = env'.frames)
    (context : later.context.Matches env.Matches later'.context)
    (fresh : later'.fresh = later.fresh)
    (maxDepth : later'.options.maxDepth = later.options.maxDepth)
    (within : later.options.maxDepth ≤ later.context.depth + levels') :
    Mirroring change levels' later later' := by
  have sound := mirrors.sound.of_frames declared frames
  have mono {ty ty' : Ty} (alike : env.Matches ty ty') : later.Matches ty ty' :=
    alike.mono (.of_frames declared frames) sound.consistent
  exact
    { sound := sound
      sound' := mirrors.sound'.of_frames declared' frames'
      program := by rw [declared, declared', mirrors.program]
      functions := declared ▸ mirrors.functions
      plain := declared ▸ mirrors.plain
      snapshot := by
        rw [frames, frames']
        exact mirrors.snapshot.mono mono
      context := context.mono mono
      fresh := fresh
      maxDepth := maxDepth
      levels := within }

/-- Other surroundings that are alike keep environments mirrored. -/
theorem setContext
    {levels' : Nat}
    {context context' : Context}
    (mirrors : Mirroring change levels env env')
    (alike : context.Matches env.Matches context')
    (within : env.options.maxDepth ≤ context.depth + levels') :
    Mirroring change levels' { env with context := context } { env' with context := context' } :=
  mirrors.of_frames rfl rfl rfl rfl alike mirrors.fresh mirrors.maxDepth within

/-- What can be read from two environments decides whether they mirror each other. -/
theorem of_readsLike
    (mirrors : Mirroring change levels env env')
    (shows : env.ReadsLike later)
    (sound : later.Sound)
    (shows' : env'.ReadsLike later')
    (sound' : later'.Sound) :
    Mirroring change levels later later' := by
  have mono {ty ty' : Ty} (alike : env.Matches ty ty') : later.Matches ty ty' :=
    alike.mono shows.grows sound.consistent
  exact
    { sound := sound
      sound' := sound'
      program := by rw [shows.declared, shows'.declared, mirrors.program]
      functions := shows.declared ▸ mirrors.functions
      plain := shows.declared ▸ mirrors.plain
      snapshot := by
        rw [shows.snapshot, shows'.snapshot]
        exact mirrors.snapshot.mono mono
      context := by
        rw [shows.context, shows'.context]
        exact mirrors.context.mono mono
      fresh := by rw [shows.fresh, shows'.fresh, mirrors.fresh]
      maxDepth := by rw [shows.maxDepth, shows'.maxDepth, mirrors.maxDepth]
      levels := by
        rw [shows.maxDepth, shows.context]
        exact mirrors.levels }

/-- New frames keep environments mirrored. -/
theorem push (mirrors : Mirroring change levels env env') :
    Mirroring change levels env.push env'.push :=
  mirrors.of_readsLike (.push env) mirrors.sound.push (.push env') mirrors.sound'.push

/-- Commits keep environments mirrored. -/
theorem commit (mirrors : Mirroring change levels env env') :
    Mirroring change levels (env.finish true) (env'.finish true) :=
  mirrors.of_readsLike (.commit env) mirrors.sound.commit (.commit env') mirrors.sound'.commit

/-- A step that only the first environment keeps does not matter. -/
theorem note
    (mirrors : Mirroring change levels env env')
    (event : UnifyEvent)
    (left right : Operand) :
    Mirroring change levels (env.traceUnify event left right) env' :=
  mirrors.of_readsLike (.traceUnify event left right env)
    (mirrors.sound.traceUnify event left right) (.refl env') mirrors.sound'

/-- A step that only the second environment keeps does not matter. -/
theorem note'
    (mirrors : Mirroring change levels env env')
    (event : UnifyEvent)
    (left right : Operand) :
    Mirroring change levels env (env'.traceUnify event left right) :=
  mirrors.of_readsLike (.refl env) mirrors.sound (.traceUnify event left right env')
    (mirrors.sound'.traceUnify event left right)

/-- Findings that are alike keep environments mirrored. -/
theorem write
    (mirrors : Mirroring change levels env env')
    {finding finding' : Finding}
    (alike : finding.Matches env.Matches finding')
    (grows : env.Grows { env with frames := finding.writeTo env.frames })
    (sound : Sound { env with frames := finding.writeTo env.frames })
    (sound' : Sound { env' with frames := finding'.writeTo env'.frames }) :
    Mirroring change levels { env with frames := finding.writeTo env.frames }
      { env' with frames := finding'.writeTo env'.frames } := by
  have mono {ty ty' : Ty} (alike : env.Matches ty ty') :
      Matches { env with frames := finding.writeTo env.frames } ty ty' :=
    alike.mono grows sound.consistent
  exact
    { mirrors with
      sound := sound
      sound' := sound'
      snapshot := by
        rw [FrameStack.snapshot_writeTo, FrameStack.snapshot_writeTo]
        exact (mirrors.snapshot.addTo alike).mono mono
      context := mirrors.context.mono mono }

/-- Findings that are made by runs keep environments mirrored. -/
theorem write_of_run
    (mirrors : Mirroring change levels env env')
    {finding finding' : Finding}
    (alike : finding.Matches env.Matches finding')
    (run : Run env { env with frames := finding.writeTo env.frames })
    (run' : Run env' { env' with frames := finding'.writeTo env'.frames }) :
    Mirroring change levels { env with frames := finding.writeTo env.frames }
      { env' with frames := finding'.writeTo env'.frames } :=
  mirrors.write alike (run.grows mirrors.sound.consistent) (mirrors.sound.of_run run)
    (mirrors.sound'.of_run run')

/-- Fresh variables have the same numbers in both environments. -/
theorem count (mirrors : Mirroring change levels env env') (counters : Counters) :
    Mirroring change levels { env with fresh := counters } { env' with fresh := counters } :=
  mirrors.of_frames rfl rfl rfl rfl mirrors.context rfl mirrors.maxDepth mirrors.levels

end Mirroring

/-! ## Computations without failures -/

/-- Two computations keep environments mirrored, and their values are related. -/
structure Together
    (change : ExprId → Nat → Ty → Ty)
    (levels : Nat)
    (related : Environment → α → β → Prop)
    (first : StateM Environment α)
    (second : StateM Environment β)
    (env env' : Environment) : Prop where
  grows : env.Grows (first env).2
  mirrors : Mirroring change levels (first env).2 (second env').2
  values : related (first env).2 (first env).1 (second env').1

namespace Together

variable {related : Environment → α → β → Prop} {result : Environment → γ → δ → Prop}

/-- Returning related values keeps environments mirrored. -/
theorem pure
    {value : α}
    {value' : β}
    (mirrors : Mirroring change levels env env')
    (values : related env value value') :
    Together change levels related (Pure.pure value) (Pure.pure value') env env' :=
  ⟨.refl env, mirrors, values⟩

/-- Two computations in a row keep environments mirrored if each of them does. -/
theorem bind
    {first : StateM Environment α}
    {second : StateM Environment β}
    {next : α → StateM Environment γ}
    {next' : β → StateM Environment δ}
    (together : Together change levels related first second env env')
    (continues :
      ∀ {value value' middle middle'},
        env.Grows middle →
        Mirroring change levels middle middle' →
        related middle value value' →
        Together change levels result (next value) (next' value') middle middle') :
    Together change levels result (first >>= next) (second >>= next') env env' := by
  obtain ⟨grows, mirrors, values⟩ := together
  have continued := continues grows mirrors values
  exact ⟨grows.trans continued.grows, continued.mirrors, continued.values⟩

/-- Changes that keep environments mirrored go together. -/
theorem modified
    {changed changed' : Environment → Environment}
    (grows : env.Grows (changed env))
    (mirrors : Mirroring change levels (changed env) (changed' env')) :
    Together change levels (fun _ _ _ => True) (modify changed) (modify changed') env env' :=
  ⟨grows, mirrors, trivial⟩

end Together

/-! ## What failures leave -/

/-- What failures leave for good: counters, and outside values that were met. -/
structure LeavesAlike (env env' : Environment) : Prop where
  fresh : env'.fresh = env.fresh
  externals : env'.context.externals = env.context.externals
  externalsSteady : ∀ ty ∈ env.context.externals, ty.Steady

/-- Mirrored environments agree in what failures leave. -/
theorem Mirroring.leavesAlike (mirrors : Mirroring change levels env env') : env.LeavesAlike env' :=
  ⟨mirrors.fresh, mirrors.context.externals, mirrors.context.externalsSteady⟩

/-- Ends of transactions agree in what failures leave. -/
theorem LeavesAlike.finish
    (leaves : env.LeavesAlike env')
    (keep : Bool) :
    (env.finish keep).LeavesAlike (env'.finish keep) := by
  obtain ⟨fresh, externals, steady⟩ := leaves
  constructor
  · rw [fresh_finish, fresh_finish, fresh]
  · rw [context_finish, context_finish, externals]
  · rwa [context_finish]

/-- After a transaction that failed, environments mirror each other again. -/
theorem Mirroring.abort
    {inner' : Environment}
    (mirrors : Mirroring change levels env env')
    (restored : Restored env.push inner)
    (restored' : Restored env'.push inner')
    (leaves : inner.LeavesAlike inner') :
    Mirroring change levels (inner.finish false) (inner'.finish false) := by
  have outside := restored.transaction false
  have outside' := restored'.transaction false
  obtain ⟨fresh, externals, steady⟩ := leaves.finish false
  refine mirrors.of_frames outside.declared restored.frames_of_failed outside'.declared
    restored'.frames_of_failed ?_ fresh ?_ ?_
  · exact
      { activeParams := by
          rw [outside.activeParams, outside'.activeParams]
          exact mirrors.context.activeParams
        inProgress := by
          rw [outside.inProgress, outside'.inProgress, mirrors.context.inProgress]
        externals := externals
        depth := by rw [outside.depth, outside'.depth, mirrors.context.depth]
        provisionalSteady := outside.inProgress ▸ mirrors.context.provisionalSteady
        externalsSteady := steady }
  · rw [outside.options, outside'.options, mirrors.maxDepth]
  · rw [outside.options, outside.depth]
    exact mirrors.levels

end Environment

open Environment (Mirroring Run Together)

/-! ## Parallel outcomes -/

/-- How the outcomes of two actions that run in mirrored environments are related. -/
inductive Outcome.Parallel
    (mayStop : Prop)
    (change : ExprId → Nat → Ty → Ty)
    (levels : Nat)
    (start : Environment)
    (related : Environment → α → β → Prop) :
    Outcome ε α → Outcome ε' β → Prop where
  | ok {value : α} {value' : β} {env env' : Environment} :
      start.Grows env →
      Mirroring change levels env env' →
      related env value value' →
      Parallel mayStop change levels start related (.ok value env) (.ok value' env')
  | error {cause : ε} {cause' : ε'} {env env' : Environment} :
      env.LeavesAlike env' →
      Parallel mayStop change levels start related (.error cause env) (.error cause' env')
  | stopped (outcome : Outcome ε' β) :
      mayStop → Parallel mayStop change levels start related .exhausted outcome
  | stopped' (outcome : Outcome ε α) :
      mayStop → Parallel mayStop change levels start related outcome .exhausted

namespace Outcome.Parallel

variable {mayStop : Prop} {change : ExprId → Nat → Ty → Ty} {levels : Nat}
variable {start middle : Environment} {related result : Environment → α → β → Prop}
variable {outcome : Outcome ε α} {outcome' : Outcome ε' β}

/-- What is parallel from a later environment is so from an earlier one. -/
theorem of_grows
    (parallel : Parallel mayStop change levels middle related outcome outcome')
    (grows : start.Grows middle) :
    Parallel mayStop change levels start related outcome outcome' := by
  cases parallel with
  | ok later mirrors values => exact .ok (grows.trans later) mirrors values
  | error leaves => exact .error leaves
  | stopped _ stops => exact .stopped _ stops
  | stopped' _ stops => exact .stopped' _ stops

/-- Outcomes that are both answers are related as answers. -/
theorem of_answers
    (parallel : Parallel mayStop change levels start related outcome outcome')
    (answers : outcome ≠ .exhausted)
    (answers' : outcome' ≠ .exhausted)
    (never : Prop) :
    Parallel never change levels start related outcome outcome' := by
  cases parallel with
  | ok grows mirrors values => exact .ok grows mirrors values
  | error leaves => exact .error leaves
  | stopped => contradiction
  | stopped' => contradiction

end Outcome.Parallel

namespace Action

/-- Two actions run in parallel in two environments. -/
def Parallel
    (mayStop : Prop)
    (change : ExprId → Nat → Ty → Ty)
    (levels : Nat)
    (related : Environment → α → β → Prop)
    (first : Action ε α)
    (first' : Action ε' β)
    (env env' : Environment) : Prop :=
  Outcome.Parallel mayStop change levels env related (first env) (first' env')

namespace Parallel

variable {mayStop : Prop} {change : ExprId → Nat → Ty → Ty} {levels levels' : Nat}
variable {env env' : Environment}
variable {related : Environment → α → β → Prop} {result : Environment → γ → δ → Prop}

theorem pure
    {value : α}
    {value' : β}
    (mirrors : Mirroring change levels env env')
    (values : related env value value') :
    Parallel mayStop change levels related (Pure.pure value : Action ε α)
      (Pure.pure value' : Action ε' β) env env' :=
  .ok (.refl env) mirrors values

/-- Failing is parallel to failing, whatever the causes are. -/
theorem fail
    {cause : ε}
    {cause' : ε'}
    (mirrors : Mirroring change levels env env') :
    Parallel mayStop change levels related (Action.fail cause) (Action.fail cause') env env' :=
  .error mirrors.leavesAlike

/-- Two actions in a row are parallel to two others if each of them is. -/
theorem bind
    {first : Action ε α}
    {first' : Action ε' β}
    {next : α → Action ε γ}
    {next' : β → Action ε' δ}
    (parallel : Parallel mayStop change levels related first first' env env')
    (continues :
      ∀ {value value' middle middle'},
        env.Grows middle →
        Mirroring change levels middle middle' →
        related middle value value' →
        Parallel mayStop change levels result (next value) (next' value') middle middle') :
    Parallel mayStop change levels result (first >>= next) (first' >>= next') env env' := by
  change Outcome.Parallel mayStop change levels env result (Action.bind first next env)
    (Action.bind first' next' env')
  unfold Parallel at parallel
  unfold Action.bind
  generalize first env = outcome, first' env' = outcome' at parallel
  cases parallel with
  | ok grows mirrors values => exact (continues grows mirrors values).of_grows grows
  | error leaves => exact .error leaves
  | stopped _ stops => exact .stopped _ stops
  | stopped' _ stops => exact .stopped' _ stops

/-- After reading the environments the actions go on with the same environments. -/
theorem bind_environment
    {next : Environment → Action ε α}
    {next' : Environment → Action ε' β}
    (continues : Parallel mayStop change levels related (next env) (next' env') env env') :
    Parallel mayStop change levels related (Action.environment >>= next)
      (Action.environment >>= next') env env' :=
  continues

/-- Both actions change their environments. -/
theorem bind_update
    {change₁ change₁' : Environment → Environment}
    {next : Unit → Action ε α}
    {next' : Unit → Action ε' β}
    (grows : env.Grows (change₁ env))
    (continues :
      Parallel mayStop change levels related (next ()) (next' ()) (change₁ env) (change₁' env')) :
    Parallel mayStop change levels related (Action.update change₁ >>= next)
      (Action.update change₁' >>= next') env env' :=
  Outcome.Parallel.of_grows continues grows

/-- Computations that cannot fail are parallel if they keep environments mirrored. -/
theorem ofState
    {run : StateM Environment α}
    {run' : StateM Environment β}
    (grows : env.Grows (run env).2)
    (mirrors : Mirroring change levels (run env).2 (run' env').2)
    (values : related (run env).2 (run env).1 (run' env').1) :
    Parallel mayStop change levels related (liftM run : Action ε α) (liftM run' : Action ε' β)
      env env' :=
  .ok grows mirrors values

/-- What goes together is parallel. -/
theorem of_together
    {related : Environment → α → β → Prop}
    {run : StateM Environment α}
    {run' : StateM Environment β}
    (together : Together change levels related run run' env env') :
    Parallel mayStop change levels related (liftM run : Action ε α) (liftM run' : Action ε' β)
      env env' :=
  .ofState together.grows together.mirrors together.values

/-- Restating errors keeps actions parallel. -/
theorem mapError
    {first : Action ε α}
    {first' : Action ε' β}
    {restate : ε → ε₁}
    {restate' : ε' → ε₁'}
    (parallel : Parallel mayStop change levels related first first' env env') :
    Parallel mayStop change levels related (first.mapError restate) (first'.mapError restate')
      env env' := by
  unfold Parallel at parallel ⊢
  unfold Action.mapError
  generalize first env = outcome, first' env' = outcome' at parallel
  cases parallel with
  | ok grows mirrors values => exact .ok grows mirrors values
  | error leaves => exact .error leaves
  | stopped _ stops => exact .stopped _ stops
  | stopped' _ stops => exact .stopped' _ stops

/-- Converting related values to related ones keeps actions parallel. -/
theorem map
    {first : Action ε α}
    {first' : Action ε' β}
    {convert : α → γ}
    {convert' : β → δ}
    (parallel : Parallel mayStop change levels related first first' env env')
    (values :
      ∀ {later value value'},
        related later value value' → result later (convert value) (convert' value')) :
    Parallel mayStop change levels result (convert <$> first) (convert' <$> first') env env' := by
  rw [map_eq_pure_bind, map_eq_pure_bind]
  exact bind parallel fun _ mirrors related => pure mirrors (values related)

/-- An action between two changes, which may grant another number of levels inside. -/
theorem between
    {first : Action ε α}
    {first' : Action ε' β}
    {enter leave enter' leave' : Environment → Environment}
    (inside : Parallel mayStop change levels' related first first' (enter env) (enter' env'))
    (leaves :
      ∀ {value value' inner inner'},
        (enter env).Grows inner →
        Mirroring change levels' inner inner' →
        related inner value value' →
        env.Grows (leave inner) ∧
          Mirroring change levels (leave inner) (leave' inner') ∧
            related (leave inner) value value')
    (fails :
      ∀ {inner inner' : Environment},
        inner.LeavesAlike inner' → (leave inner).LeavesAlike (leave' inner')) :
    Parallel mayStop change levels related (first.between enter leave)
      (first'.between enter' leave') env env' := by
  unfold Parallel at inside ⊢
  unfold Action.between
  generalize first (enter env) = outcome, first' (enter' env') = outcome' at inside
  cases inside with
  | ok grows mirrors values =>
      obtain ⟨grows, mirrors, values⟩ := leaves grows mirrors values
      exact .ok grows mirrors values
  | error isLeft => exact .error (fails isLeft)
  | stopped _ stops => exact .stopped _ stops
  | stopped' _ stops => exact .stopped' _ stops

/-- What is related stays so in later environments. -/
def Lasting (related : Environment → α → β → Prop) : Prop :=
  ∀ ⦃env later : Environment⦄ ⦃value value'⦄,
    env.Grows later → later.Sound → related env value value' → related later value value'

/-- Transactions are parallel if what happens inside is and the values stay related. -/
theorem transaction
    {first : Action ε α}
    {first' : Action ε' β}
    (lasting : Lasting related)
    (inside : Parallel mayStop change levels related first first' env.push env'.push) :
    Parallel mayStop change levels related first.transaction first'.transaction env env' := by
  unfold Parallel at inside ⊢
  unfold Action.transaction
  generalize first env.push = outcome, first' env'.push = outcome' at inside
  cases inside with
  | @ok _ _ _ _ inner _ grows mirrors values =>
      have kept := Environment.Grows.commit inner
      exact .ok (((Environment.Grows.push env).trans grows).trans kept) mirrors.commit
        (lasting kept mirrors.sound.commit values)
  | error leaves => exact .error (leaves.finish false)
  | stopped _ stops => exact .stopped _ stops
  | stopped' _ stops => exact .stopped' _ stops

/-- Results that were both values, or both failures. -/
def SameEnd (related : Environment → α → β → Prop) (env : Environment) :
    Except ε α → Except ε' β → Prop
  | .ok value, .ok value' => related env value value'
  | .error _, .error _ => True
  | _, _ => False

/-- A transaction that may fail is tried; what is left of a failure is mirrored as well. -/
theorem attempt_transaction
    {first : Action ε α}
    {first' : Action ε' β}
    (mirrors : Mirroring change levels env env')
    (lasting : Lasting related)
    (runs : Obeys Run first env.push)
    (runs' : Obeys Run first' env'.push)
    (inside : Parallel mayStop change levels related first first' env.push env'.push) :
    Parallel mayStop change levels (SameEnd related)
      (first.transaction.attempt : Action ε₁ (Except ε α))
      (first'.transaction.attempt : Action ε₁' (Except ε' β)) env env' := by
  unfold Parallel at inside ⊢
  unfold Action.attempt Action.transaction
  generalize ended : first env.push = outcome, ended' : first' env'.push = outcome' at inside
  cases inside with
  | @ok _ _ _ _ inner _ grows mirrorsInner values =>
      have kept := Environment.Grows.commit inner
      exact .ok (((Environment.Grows.push env).trans grows).trans kept) mirrorsInner.commit
        (lasting kept mirrorsInner.sound.commit values)
  | error leaves =>
      have restored := Environment.Restored.of_run (runs.of_eq_error ended)
      have restored' := Environment.Restored.of_run (runs'.of_eq_error ended')
      refine .ok (.of_frames (restored.transaction false).declared restored.frames_of_failed)
        (mirrors.abort restored restored' leaves) trivial
  | stopped _ stops => exact .stopped _ stops
  | stopped' _ stops => exact .stopped' _ stops

/-- Going through related lists is parallel if each pair of items is. -/
theorem mapM
    {items : List α}
    {items' : List β}
    {given : Environment → α → β → Prop}
    {action : α → Action ε γ}
    {action' : β → Action ε' δ}
    (mirrors : Mirroring change levels env env')
    (lasting : Lasting given)
    (lastingResult : Lasting result)
    (itemsRelated : List.Forall₂ (given env) items items')
    (parallel :
      ∀ {item item' later later'},
        Mirroring change levels later later' →
        given later item item' →
        Parallel mayStop change levels result (action item) (action' item') later later') :
    Parallel mayStop change levels (fun later => List.Forall₂ (result later)) (items.mapM action)
      (items'.mapM action') env env' := by
  induction items generalizing items' env env' with
  | nil =>
      cases itemsRelated
      rw [List.mapM_nil, List.mapM_nil]
      exact pure mirrors .nil
  | cons item rest inductionHypothesis =>
      cases itemsRelated with
      | cons first others =>
          rw [List.mapM_cons, List.mapM_cons]
          refine bind (parallel mirrors first) fun grows mirrors value => ?_
          have stillRelated := others.imp fun _ _ => lasting grows mirrors.sound
          refine bind (inductionHypothesis mirrors stillRelated) fun grows mirrors values => ?_
          exact pure mirrors (.cons (lastingResult grows mirrors.sound value) values)

/-- Folding over related lists is parallel if each pair of items is. -/
theorem foldlM
    {items : List α}
    {items' : List β}
    {given : Environment → α → β → Prop}
    {result : Environment → γ → δ → Prop}
    {action : γ → α → Action ε γ}
    {action' : δ → β → Action ε' δ}
    {start : γ}
    {start' : δ}
    (mirrors : Mirroring change levels env env')
    (lasting : Lasting given)
    (itemsRelated : List.Forall₂ (given env) items items')
    (startsRelated : result env start start')
    (parallel :
      ∀ {item item' value value' later later'},
        Mirroring change levels later later' →
        given later item item' →
        result later value value' →
        Parallel mayStop change levels result (action value item) (action' value' item')
          later later') :
    Parallel mayStop change levels result (items.foldlM action start)
      (items'.foldlM action' start') env env' := by
  induction items generalizing items' env env' start start' with
  | nil =>
      cases itemsRelated
      exact pure mirrors startsRelated
  | cons item rest inductionHypothesis =>
      cases itemsRelated with
      | cons first others =>
          rw [List.foldlM_cons, List.foldlM_cons]
          refine bind (parallel mirrors first startsRelated) fun grows mirrors value => ?_
          have others := others.imp fun _ _ => lasting grows mirrors.sound
          exact inductionHypothesis mirrors others value

end Parallel

end Action

end ShaderTyping
