import ShaderTyping.Environment.Basic

namespace ShaderTyping

/-!
# Computations on an environment

An `Action` runs on an environment and comes to an `Outcome`: a value or a
failure, both with the environment that is left, or no answer at all because the
steps granted to a recursion were used up.  A failure does not undo anything by
itself; `Action.transaction` forgets what a failing action wrote to the frames.
-/

/-- What running an action comes to. -/
inductive Outcome (ε α : Type) where
  | ok (value : α) (env : Environment)
  | error (cause : ε) (env : Environment)
  | exhausted

/-- A computation on an environment that can fail. -/
def Action (ε α : Type) : Type :=
  Environment → Outcome ε α

namespace Action

/-- Return a value and change nothing. -/
protected def pure (value : α) : Action ε α := fun env =>
  .ok value env

/-- Run an action and continue with its value. -/
protected def bind (first : Action ε α) (next : α → Action ε β) : Action ε β := fun env =>
  match first env with
  | .ok value env => next value env
  | .error cause env => .error cause env
  | .exhausted => .exhausted

/-- Actions are run one after the other until one fails or gives no answer. -/
instance : Monad (Action ε) where
  pure := Action.pure
  bind := Action.bind

/-- The environment as it is. -/
def environment : Action ε Environment := fun env =>
  .ok env env

/-- Change the environment. -/
def update (change : Environment → Environment) : Action ε Unit := fun env =>
  .ok () (change env)

/-- Fail with a cause. -/
def fail (cause : ε) : Action ε α := fun env =>
  .error cause env

/-- Give no answer. -/
def exhausted : Action ε α := fun _ =>
  .exhausted

/-- An action that cannot fail. -/
def ofState (run : StateM Environment α) : Action ε α := fun env =>
  let (value, env) := run.run env
  .ok value env

/-- A computation on the environment that cannot fail is an action that succeeds. -/
instance : MonadLift (StateM Environment) (Action ε) where
  monadLift := ofState

/-- Run an action and tell whether it failed. -/
def attempt (action : Action ε α) : Action ε' (Except ε α) := fun env =>
  match action env with
  | .ok value env => .ok (.ok value) env
  | .error cause env => .ok (.error cause) env
  | .exhausted => .exhausted

/-- Run an action or, if that gives no answer, another one in its place. -/
def orElse (first second : Action ε α) : Action ε α := fun env =>
  match first env with
  | .ok value env => .ok value env
  | .error cause env => .error cause env
  | .exhausted => second env

/-- Run an action and restate the cause if it fails. -/
def mapError (restate : ε → ε') (action : Action ε α) : Action ε' α := fun env =>
  match action env with
  | .ok value env => .ok value env
  | .error cause env => .error (restate cause) env
  | .exhausted => .exhausted

/-- Run an action between two changes, the second also after a failure. -/
def between (enter leave : Environment → Environment) (action : Action ε α) :
    Action ε α := fun env =>
  match action (enter env) with
  | .ok value env => .ok value (leave env)
  | .error cause env => .error cause (leave env)
  | .exhausted => .exhausted

/-- Run an action in a transaction that is committed if the action succeeds. -/
def transaction (action : Action ε α) : Action ε α := fun env =>
  match action env.push with
  | .ok value env => .ok value (env.finish true)
  | .error cause env => .error cause (env.finish false)
  | .exhausted => .exhausted

@[simp] theorem pure_apply (value : α) (env : Environment) :
    (pure value : Action ε α) env = .ok value env :=
  rfl

/-- After reading the environment an action goes on with the same environment. -/
theorem environment_bind (next : Environment → Action ε α) (env : Environment) :
    (environment >>= next) env = next env env :=
  rfl

/-- A sequence of two actions succeeds exactly when both succeed in turn. -/
theorem bind_eq_ok
    {first : Action ε α}
    {next : α → Action ε β}
    {env final : Environment}
    {result : β} :
    (first >>= next) env = .ok result final ↔
      ∃ value between,
        first env = .ok value between ∧ next value between = .ok result final := by
  simp only [bind, Action.bind]
  cases first env <;> simp [and_assoc]

/-- A sequence of two actions fails exactly when one of them fails in turn. -/
theorem bind_eq_error
    {first : Action ε α}
    {next : α → Action ε β}
    {env final : Environment}
    {cause : ε} :
    (first >>= next) env = .error cause final ↔
      first env = .error cause final ∨
        ∃ value between,
          first env = .ok value between ∧ next value between = .error cause final := by
  simp only [bind, Action.bind]
  cases first env <;> simp [and_assoc]

/-- Restating a cause keeps what succeeds. -/
theorem mapError_eq_ok
    {restate : ε → ε'}
    {action : Action ε α}
    {env final : Environment}
    {result : α} :
    action.mapError restate env = .ok result final ↔ action env = .ok result final := by
  simp only [mapError]
  cases action env <;> simp

/-- Restating a cause restates the cause of each failure. -/
theorem mapError_eq_error
    {restate : ε → ε'}
    {action : Action ε α}
    {env final : Environment}
    {cause : ε'} :
    action.mapError restate env = .error cause final ↔
      ∃ reason, action env = .error reason final ∧ restate reason = cause := by
  simp only [mapError]
  cases action env with
  | ok value final => simp
  | exhausted => simp
  | error reason final =>
      constructor
      · rintro ⟨⟩
        exact ⟨reason, rfl, rfl⟩
      · rintro ⟨_, ⟨⟩, rfl⟩
        rfl

/-- An action between two changes succeeds exactly when the action itself does in between. -/
theorem between_eq_ok
    {action : Action ε α}
    {enter leave : Environment → Environment}
    {env final : Environment}
    {result : α} :
    action.between enter leave env = .ok result final ↔
      ∃ inner, action (enter env) = .ok result inner ∧ leave inner = final := by
  simp only [between]
  cases action (enter env) <;> simp [and_assoc]

/-- An action between two changes fails exactly when the action itself does in between. -/
theorem between_eq_error
    {action : Action ε α}
    {enter leave : Environment → Environment}
    {env final : Environment}
    {cause : ε} :
    action.between enter leave env = .error cause final ↔
      ∃ inner, action (enter env) = .error cause inner ∧ leave inner = final := by
  simp only [between]
  cases action (enter env) <;> simp [and_assoc]

/-- A transaction succeeds exactly when the action inside it does. -/
theorem transaction_eq_ok
    {action : Action ε α}
    {env final : Environment}
    {result : α} :
    action.transaction env = .ok result final ↔
      ∃ inner, action env.push = .ok result inner ∧ inner.finish true = final := by
  simp only [transaction]
  cases action env.push <;> simp [and_assoc]

/-- A transaction fails exactly when the action inside it does. -/
theorem transaction_eq_error
    {action : Action ε α}
    {env final : Environment}
    {cause : ε} :
    action.transaction env = .error cause final ↔
      ∃ inner, action env.push = .error cause inner ∧ inner.finish false = final := by
  simp only [transaction]
  cases action env.push <;> simp [and_assoc]

/-- The laws of monads hold of actions. -/
instance : LawfulMonad (Action ε) := LawfulMonad.mk' (Action ε)
  (by
    intro α action
    funext env
    change Action.bind action (fun value => Action.pure value) env = action env
    unfold Action.bind
    cases action env <;> rfl)
  (by
    intro α β value next
    rfl)
  (by
    intro α β γ action next last
    funext env
    change
      Action.bind (Action.bind action next) last env =
        Action.bind action (fun value => Action.bind (next value) last) env
    unfold Action.bind
    cases action env <;> rfl)

end Action

end ShaderTyping
