import Mathlib.Logic.Relation
import ShaderTyping.Program

namespace ShaderTyping

/-!
# What a computation can do with an environment

`Binds` lists the changes that unification makes, with the checks made before each
of them, and `Run` all changes that inference makes, including those that are
undone at the end: transactions, parameters and provisional types around an
expression, and the nesting of expressions.  Every operation is a run, whether it
succeeds or fails (`unify_run`, `infer_run`, `checkProgram_run` and so on), so
what a single change preserves, every operation preserves.  A `QuietRun` records
the type of no expression.
-/

namespace Outcome

/-- The environment that is left. -/
def final? : Outcome ε α → Option Environment
  | .ok _ env => some env
  | .error _ env => some env
  | .exhausted => none

/-- The value, if there is one. -/
def value? : Outcome ε α → Option α
  | .ok value _ => some value
  | .error _ _ | .exhausted => none

/-- A computation that gives a value ends well. -/
theorem eq_ok_of_value?
    {outcome : Outcome ε α}
    {value : α}
    (hasValue : outcome.value? = some value) :
    ∃ final, outcome = .ok value final := by
  cases outcome with
  | ok result final =>
      cases hasValue
      exact ⟨final, rfl⟩
  | error cause final => contradiction
  | exhausted => contradiction

end Outcome

namespace Environment

/-- A change that unification makes. -/
inductive Binds : Environment → Environment → Prop where
  /-- A step is kept in the trace. -/
  | note {env : Environment} (event : UnifyEvent) (left right : Operand) :
      Binds env (env.traceUnify event left right)
  /-- An unbound placeholder is bound to a type in which it does not occur. -/
  | placeholder {env : Environment} {id : PlaceholderId} {ty : Ty}
      (event : UnifyEvent) (left right : Operand) :
      env.binding? id = none →
      env.occurs id ty = false →
      Binds env ((env.traceUnify event left right).bindPlaceholder id ty)
  /-- The variable at the end of one length is bound to the end of another one. -/
  | length {env : Environment} {id : LengthId} {first second : Length}
      (event : UnifyEvent) (left right : Operand) :
      env.resolveLength first = .var id →
      env.resolveLength second ≠ .var id →
      Binds env
        ((env.traceUnify event left right).bindLength id (env.resolveLength second))

/-- What a computation can do with an environment. -/
inductive Run : Environment → Environment → Prop where
  | refl (env : Environment) :
      Run env env
  | trans {env middle final : Environment} :
      Run env middle →
      Run middle final →
      Run env final
  | binds {env final : Environment} :
      Binds env final →
      Run env final
  /-- Fresh variables are taken. -/
  | fresh {env : Environment} (placeholders lengths labels : Nat) :
      Run env
        { env with
          fresh.placeholder := env.fresh.placeholder + placeholders
          fresh.length := env.fresh.length + lengths
          fresh.label := env.fresh.label + labels }
  /-- An unbound placeholder is quantified. -/
  | quantify {env : Environment} {id : PlaceholderId} (scope : ScopeId) (label : LabelId) :
      env.binding? id = none →
      Run env (env.bindPlaceholder id (.parametric scope label))
  | markGeneric {env : Environment} (id : LengthId) :
      Run env (env.markGeneric id)
  | recordInferred {env : Environment} (id : ExprId) (ty : Ty) :
      Run env (env.recordInferred id ty)
  | recordParameter {env : Environment} (function : ExprId) (position : Nat) (ty : Ty) :
      Run env (env.recordParameter function position ty)
  | traceInfer {env : Environment} (expr : Expr) (rule : InferRule) (ty : Ty) :
      Run env (env.traceInfer expr rule ty)
  /-- An outside value without a written type is met. -/
  | external {env : Environment} (ty : Ty) :
      Run env { env with context.externals := ty :: env.context.externals }
  | transaction {env inner : Environment} (keep : Bool) :
      Run env.push inner →
      Run env (inner.finish keep)
  | insideFunction {env inner : Environment} (types : List Ty) :
      Run { env with context.activeParams := types :: env.context.activeParams } inner →
      Run env { inner with context.activeParams := inner.context.activeParams.tail }
  | insideDeclaration {env inner : Environment} {key : ScopeId × String} (provisional : Ty) :
      env.context.inProgress.lookup key = none →
      Run { env with
        context.inProgress := (key, provisional) :: env.context.inProgress } inner →
      Run env { inner with
        context.inProgress := inner.context.inProgress.filter fun entry => entry.1 != key }
  | deeper {env inner : Environment} :
      Run { env with context.depth := env.context.depth + 1 } inner →
      Run env { inner with context.depth := inner.context.depth - 1 }

/-- Runs compose, and doing nothing is a run. -/
instance : IsPreorder Environment Run where
  refl := .refl
  trans _ _ _ := .trans

/-- Everything that unification may do to an environment is a run. -/
theorem Run.of_binds
    {env final : Environment}
    (steps : Relation.ReflTransGen Binds env final) :
    Run env final := by
  induction steps with
  | refl => exact .refl env
  | tail _ step inductionHypothesis => exact .trans inductionHypothesis (.binds step)

/-- A run that records the type of no expression. -/
structure QuietRun (env final : Environment) : Prop where
  run : Run env final
  inferred : ∀ id, final.frames.inferred? id = env.frames.inferred? id

namespace QuietRun

variable {env middle final : Environment}

theorem refl (env : Environment) : QuietRun env env :=
  ⟨.refl env, fun _ => rfl⟩

theorem trans (first : QuietRun env middle) (second : QuietRun middle final) :
    QuietRun env final :=
  ⟨.trans first.run second.run, fun id => (second.inferred id).trans (first.inferred id)⟩

/-- Drawing fresh variables of any kind is a quiet run. -/
theorem fresh (placeholders lengths labels : Nat) :
    QuietRun env
      { env with
        fresh.placeholder := env.fresh.placeholder + placeholders
        fresh.length := env.fresh.length + lengths
        fresh.label := env.fresh.label + labels } :=
  ⟨.fresh placeholders lengths labels, fun _ => rfl⟩

/-- Binding an unbound placeholder to a quantified type is a quiet run. -/
theorem quantify
    {id : PlaceholderId}
    (scope : ScopeId)
    (label : LabelId)
    (unbound : env.binding? id = none) :
    QuietRun env (env.bindPlaceholder id (.parametric scope label)) :=
  ⟨.quantify scope label unbound, fun _ => FrameStack.read_write_of_eq rfl⟩

/-- Marking a length variable as quantified is a quiet run. -/
theorem markGeneric (id : LengthId) : QuietRun env (env.markGeneric id) :=
  ⟨.markGeneric id, fun _ => FrameStack.read_write_of_eq rfl⟩

/-- Recording a parameter type is a quiet run: only the types of expressions are not recorded. -/
theorem recordParameter (function : ExprId) (position : Nat) (ty : Ty) :
    QuietRun env (env.recordParameter function position ty) :=
  ⟨.recordParameter function position ty, fun _ => FrameStack.read_write_of_eq rfl⟩

/-- Adding an outside value to the context is a quiet run. -/
theorem external (ty : Ty) :
    QuietRun env { env with context.externals := ty :: env.context.externals } :=
  ⟨.external ty, fun _ => rfl⟩

end QuietRun

end Environment

namespace Action

/-! ### What actions leave -/

/-- An attempt ends in the environment of the computation that is attempted. -/
theorem final?_attempt (action : Action ε α) (env : Environment) :
    (attempt action env : Outcome ε' (Except ε α)).final? = (action env).final? := by
  unfold attempt
  cases action env <;> rfl

/-- Restating the errors of a computation does not change where it ends. -/
theorem final?_mapError (restate : ε → ε') (action : Action ε α) (env : Environment) :
    (action.mapError restate env).final? = (action env).final? := by
  unfold mapError
  cases action env <;> rfl

/-- An alternative ends where its first part does, unless that part runs out of steps. -/
theorem final?_orElse (first second : Action ε α) (env : Environment) :
    (first.orElse second env).final? = (first env).final?.or (second env).final? := by
  unfold orElse
  cases first env <;> rfl

/-- A computation between two changes of the environment ends where the second one leads. -/
theorem final?_between (enter leave : Environment → Environment) (action : Action ε α)
    (env : Environment) :
    (action.between enter leave env).final? = (action (enter env)).final?.map leave := by
  unfold between
  cases action (enter env) <;> rfl

/-- A transaction ends in a pushed environment that is committed or aborted. -/
theorem exists_final?_transaction (action : Action ε α) (env : Environment) :
    ∃ keep,
      (action.transaction env).final? = (action env.push).final?.map (Environment.finish keep) := by
  unfold transaction
  cases action env.push with
  | ok value inner => exact ⟨true, rfl⟩
  | error cause inner => exact ⟨false, rfl⟩
  | exhausted => exact ⟨false, rfl⟩

/-- However the action ends, the environment that it leaves is related to the given one. -/
def Obeys
    (relation : Environment → Environment → Prop)
    (action : Action ε α)
    (env : Environment) : Prop :=
  ∀ final, (action env).final? = some final → relation env final

namespace Obeys

variable {relation : Environment → Environment → Prop} {env : Environment}

/-- What is obeyed holds up to the environment of a successful end. -/
theorem of_eq_ok
    {action : Action ε α}
    {value : α}
    {final : Environment}
    (obeys : Obeys relation action env)
    (ended : action env = .ok value final) :
    relation env final :=
  obeys final (by rw [ended]; rfl)

/-- What is obeyed holds up to the environment that an error leaves behind. -/
theorem of_eq_error
    {action : Action ε α}
    {cause : ε}
    {final : Environment}
    (obeys : Obeys relation action env)
    (ended : action env = .error cause final) :
    relation env final :=
  obeys final (by rw [ended]; rfl)

/-- A single change obeys what relates the environments before and after it. -/
theorem update
    {change : Environment → Environment}
    (changes : relation env (change env)) :
    Obeys relation (Action.update change : Action ε Unit) env := by
  intro final ended
  cases ended
  exact changes

/-- A computation that cannot fail obeys what relates the environments before and after it. -/
theorem ofState
    {run : StateM Environment α}
    (changes : relation env (run env).2) :
    Obeys relation (liftM run : Action ε α) env := by
  intro final ended
  cases ended
  exact changes

/-- A computation that runs out of steps ends nowhere, so it obeys everything. -/
theorem exhausted :
    Obeys relation (Action.exhausted : Action ε α) env := by
  intro final ended
  contradiction

/-- An attempt obeys what the computation obeys that is attempted. -/
theorem attempt
    {action : Action ε α}
    (obeys : Obeys relation action env) :
    Obeys relation (Action.attempt action : Action ε' (Except ε α)) env := by
  intro final ended
  rw [final?_attempt] at ended
  exact obeys final ended

/-- Restating errors keeps what a computation obeys. -/
theorem mapError
    {action : Action ε α}
    {restate : ε → ε'}
    (obeys : Obeys relation action env) :
    Obeys relation (action.mapError restate) env := by
  intro final ended
  rw [final?_mapError] at ended
  exact obeys final ended

/-- An alternative obeys what both of its parts obey from where it starts. -/
theorem orElse
    {first second : Action ε α}
    (firstObeys : Obeys relation first env)
    (secondObeys : Obeys relation second env) :
    Obeys relation (first.orElse second) env := by
  intro final ended
  rw [final?_orElse, Option.or_eq_some_iff] at ended
  rcases ended with first | ⟨_, second⟩
  · exact firstObeys final first
  · exact secondObeys final second

/-- An action between two changes obeys if the action itself does in between. -/
theorem between
    {action : Action ε α}
    {inside : Environment → Environment → Prop}
    {enter leave : Environment → Environment}
    (obeys : Obeys inside action (enter env))
    (closed : ∀ {inner}, inside (enter env) inner → relation env (leave inner)) :
    Obeys relation (action.between enter leave) env := by
  intro final ended
  rw [final?_between, Option.map_eq_some_iff] at ended
  obtain ⟨inner, ended, rfl⟩ := ended
  exact closed (obeys inner ended)

/-- A transaction obeys if the action does inside, whether it is kept or not. -/
theorem transaction
    {action : Action ε α}
    (obeys : Obeys relation action env.push)
    (closed :
      ∀ {inner} (keep : Bool), relation env.push inner → relation env (inner.finish keep)) :
    Obeys relation action.transaction env := by
  intro final ended
  obtain ⟨keep, left⟩ := action.exists_final?_transaction env
  rw [left, Option.map_eq_some_iff] at ended
  obtain ⟨inner, ended, rfl⟩ := ended
  exact closed keep (obeys inner ended)

variable [IsPreorder Environment relation]

theorem pure (value : α) :
    Obeys relation (Pure.pure value : Action ε α) env := by
  intro final ended
  cases ended
  exact refl env

/-- Reading the environment changes nothing. -/
theorem environment :
    Obeys relation (Action.environment : Action ε Environment) env := by
  intro final ended
  cases ended
  exact refl env

theorem fail (cause : ε) :
    Obeys relation (Action.fail cause : Action ε α) env := by
  intro final ended
  cases ended
  exact refl env

/-- Two computations in a row obey what both of them obey, the second from where the first ends. -/
theorem bind
    {first : Action ε α}
    {next : α → Action ε β}
    (firstObeys : Obeys relation first env)
    (nextObeys :
      ∀ {value middle}, first env = .ok value middle → Obeys relation (next value) middle) :
    Obeys relation (first >>= next) env := by
  intro final ended
  change (Action.bind first next env).final? = some final at ended
  unfold Action.bind at ended
  cases outcome : first env with
  | ok value middle =>
      rw [outcome] at ended
      exact Trans.trans (firstObeys.of_eq_ok outcome) (nextObeys outcome final ended)
  | error cause middle =>
      rw [outcome] at ended
      cases ended
      exact firstObeys.of_eq_error outcome
  | exhausted =>
      rw [outcome] at ended
      contradiction

/-- What follows an action may rely on how the action has changed the environment. -/
theorem bind_related
    {first : Action ε α}
    {next : α → Action ε β}
    (firstObeys : Obeys relation first env)
    (nextObeys :
      ∀ {value middle},
        first env = .ok value middle →
        relation env middle →
        Obeys relation (next value) middle) :
    Obeys relation (first >>= next) env :=
  firstObeys.bind fun ended => nextObeys ended (firstObeys.of_eq_ok ended)

/-- After reading the environment an action goes on with the same environment. -/
theorem bind_environment
    {next : Environment → Action ε α}
    (obeys : Obeys relation (next env) env) :
    Obeys relation (Action.environment >>= next) env :=
  bind environment fun isRead => by
    cases isRead
    exact obeys

/-- Converting the value of a computation keeps what it obeys. -/
theorem map
    {action : Action ε α}
    {convert : α → β}
    (obeys : Obeys relation action env) :
    Obeys relation (convert <$> action) env :=
  bind obeys fun _ => pure _

/-- Going through a list obeys what each item obeys from every environment. -/
theorem mapM
    {items : List α}
    {action : α → Action ε β}
    (obeys : ∀ item ∈ items, ∀ env, Obeys relation (action item) env) :
    Obeys relation (items.mapM action) env := by
  induction items generalizing env with
  | nil =>
      rw [List.mapM_nil]
      exact pure _
  | cons item rest inductionHypothesis =>
      rw [List.mapM_cons]
      refine bind (obeys item List.mem_cons_self env) fun _ => ?_
      refine bind (inductionHypothesis fun other member =>
        obeys other (List.mem_cons_of_mem _ member)) fun _ => ?_
      exact pure _

/-- Folding over a list obeys what each item obeys from every state and environment. -/
theorem foldlM
    {items : List α}
    {action : β → α → Action ε β}
    (obeys : ∀ item ∈ items, ∀ state env, Obeys relation (action state item) env)
    (state : β) :
    Obeys relation (items.foldlM action state) env := by
  induction items generalizing state env with
  | nil => exact pure _
  | cons item rest inductionHypothesis =>
      rw [List.foldlM_cons]
      refine bind (obeys item List.mem_cons_self state env) fun _ => ?_
      exact inductionHypothesis
        (fun other member => obeys other (List.mem_cons_of_mem _ member)) _

end Obeys

end Action

end ShaderTyping
