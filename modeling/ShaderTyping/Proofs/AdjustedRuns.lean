import ShaderTyping.Proofs.Operations

namespace ShaderTyping

/-!
# Runs under other options

An `Adjustment` changes the options and the trace of an environment.  What is read of types does
not depend on either, and whether steps are kept matters to the trace only.  So unification, calls,
generalization and instantiation come to the same under any adjustment and leave the adjusted
environment (`Action.Ignores`).  Only inference compares the options with the nesting of
expressions; two ways to infer may therefore differ where the first one comes to a failure that is
excused (`Action.CarriesOver`), and the rules pass this on from the expressions inside to the one
around them.
-/

/-! ## Adjusted environments -/

/--
A change of the options and of the trace.  Steps that are kept under the changed options are those
that are kept under the options before, changed with the trace.
-/
structure Adjustment where
  options : Options → Options
  trace : Trace → Trace
  addUnification :
    ∀ (before : Options) (steps : Trace) (event : UnifyEvent) (left right : Operand),
      (if (options before).trace then (trace steps).addUnification event left right
        else trace steps) =
        trace (if before.trace then steps.addUnification event left right else steps)
  addInference :
    ∀ (before : Options) (steps : Trace) (step : InferStep),
      (if (options before).trace then (trace steps).addInference step else trace steps) =
        trace (if before.trace then steps.addInference step else steps)

namespace Environment

/-- The environment with its options and its trace changed. -/
def adjust (adjustment : Adjustment) (env : Environment) : Environment :=
  { env with
    options := adjustment.options env.options
    trace := adjustment.trace env.trace }

variable (adjustment : Adjustment) (env : Environment)

/-- An adjustment declares nothing. -/
@[simp] theorem declared_adjust : (env.adjust adjustment).declared = env.declared :=
  rfl

/-- An adjustment leaves all frames as they are, so nothing recorded or bound changes. -/
@[simp] theorem frames_adjust : (env.adjust adjustment).frames = env.frames :=
  rfl

/-- An adjustment leaves the nesting and all that is in progress as it is. -/
@[simp] theorem context_adjust : (env.adjust adjustment).context = env.context :=
  rfl

/-- Placeholders are bound alike. -/
@[simp] theorem binding?_adjust (id : PlaceholderId) :
    (env.adjust adjustment).binding? id = env.binding? id :=
  rfl

/-- References stand for the same types. -/
@[simp] theorem definition?_adjust (scope : ScopeId) (name : String) :
    (env.adjust adjustment).definition? scope name = env.definition? scope name :=
  rfl

/-- As many bindings are there to be followed. -/
@[simp] theorem bindingCount_adjust : (env.adjust adjustment).bindingCount = env.bindingCount :=
  rfl

/-- Type variables and length variables are bound alike. -/
@[simp] theorem boundType?_adjust : (env.adjust adjustment).boundType? = env.boundType? := by
  funext var
  cases var <;> rfl

/-! ### What is read -/

/-- Following bindings leads to the same type. -/
@[simp] theorem follow_adjust (ty : Ty) : (env.adjust adjustment).follow ty = env.follow ty := by
  have within (steps : Nat) (ty : Ty) :
      (env.adjust adjustment).followWithin steps ty = env.followWithin steps ty := by
    induction steps generalizing ty with
    | zero => cases ty <;> rfl
    | succ steps inductionHypothesis =>
        cases ty with
        | placeholder scope id => simp only [followWithin, binding?_adjust, inductionHypothesis]
        | _ => rfl
  simp only [follow, bindingCount_adjust, within]

/-- The same types end in an unbound placeholder. -/
@[simp] theorem isUnbound_adjust (ty : Ty) :
    (env.adjust adjustment).isUnbound ty = env.isUnbound ty := by
  simp only [isUnbound, follow_adjust]

/-- The same head is found. -/
@[simp] theorem head_adjust (ty : Ty) : (env.adjust adjustment).head ty = env.head ty := by
  have within (steps : Nat) (seen : List AliasKey) (ty : Ty) :
      (env.adjust adjustment).headWithin steps seen ty = env.headWithin steps seen ty := by
    induction steps generalizing seen ty with
    | zero => exact follow_adjust adjustment env ty
    | succ steps inductionHypothesis =>
        simp only [headWithin, follow_adjust, definition?_adjust, inductionHypothesis]
  exact within _ _ _

/-- Lengths resolve alike. -/
@[simp] theorem resolveLength_adjust :
    (env.adjust adjustment).resolveLength = env.resolveLength := by
  have within (steps : Nat) (length : Length) :
      (env.adjust adjustment).resolveLengthWithin steps length =
        env.resolveLengthWithin steps length := by
    induction steps generalizing length with
    | zero => cases length <;> rfl
    | succ steps inductionHypothesis =>
        cases length with
        | known count => rfl
        | var id => simp only [resolveLengthWithin, frames_adjust, inductionHypothesis]
  funext length
  cases length with
  | known count => rfl
  | var id => exact within _ _

/-- Types resolve alike. -/
@[simp] theorem resolve_adjust : (env.adjust adjustment).resolve = env.resolve := by
  have within (steps : Nat) (ty : Ty) :
      (env.adjust adjustment).resolveWithin steps ty = env.resolveWithin steps ty := by
    induction steps generalizing ty with
    | zero => rfl
    | succ steps inductionHypothesis =>
        simp only [resolveWithin, binding?_adjust, resolveLength_adjust, inductionHypothesis]
  funext ty
  exact within _ _

/-- Types expand alike. -/
@[simp] theorem expand_adjust : (env.adjust adjustment).expand = env.expand := by
  have within (steps : Nat) (expanding : List AliasKey) (ty : Ty) :
      (env.adjust adjustment).expandWithin steps expanding ty =
        env.expandWithin steps expanding ty := by
    induction steps generalizing expanding ty with
    | zero => rfl
    | succ steps inductionHypothesis =>
        simp only [expandWithin, binding?_adjust, definition?_adjust, resolveLength_adjust,
          inductionHypothesis]
  funext ty
  exact within _ _ _

/-- The occurs check comes to the same answer. -/
@[simp] theorem occurs_adjust (id : PlaceholderId) (ty : Ty) :
    (env.adjust adjustment).occurs id ty = env.occurs id ty := by
  have within (steps : Nat) (searched : List AliasKey) (ty : Ty) :
      (env.adjust adjustment).searchWithin id steps searched ty =
        env.searchWithin id steps searched ty := by
    induction steps generalizing searched ty with
    | zero => rfl
    | succ steps inductionHypothesis =>
        simp only [searchWithin, binding?_adjust, definition?_adjust, inductionHypothesis]
  exact congrArg Option.isNone (within _ _ _)

/-- The same variables are found in a type. -/
@[simp] theorem varsOf_adjust : (env.adjust adjustment).varsOf = env.varsOf := by
  funext ty
  simp only [varsOf, resolveLength_adjust]

/-- The same variables are kept from quantification. -/
@[simp] theorem monomorphic_adjust : (env.adjust adjustment).monomorphic = env.monomorphic := by
  have meet : Reach.meet (env.adjust adjustment) = Reach.meet env := by
    funext reach var
    simp only [Reach.meet, boundType?_adjust]
  have within (steps : Nat) (reach : Reach) :
      Reach.closeWithin (env.adjust adjustment) steps reach =
        Reach.closeWithin env steps reach := by
    induction steps generalizing reach with
    | zero => rfl
    | succ steps inductionHypothesis =>
        obtain ⟨met, pending⟩ := reach
        cases pending with
        | nil => rfl
        | cons ty pending =>
            simp only [Reach.closeWithin, meet, varsOf_adjust, inductionHypothesis]
  exact within _ _

/-- The same length variables are marked as quantified. -/
@[simp] theorem isQuantified_adjust : (env.adjust adjustment).isQuantified = env.isQuantified := by
  funext var
  cases var <;> rfl

/-- A function type shows the same parameter. -/
@[simp] theorem parameterAt?_adjust (position : Nat) (ty : Ty) :
    Inference.parameterAt? (env.adjust adjustment) position ty =
      Inference.parameterAt? env position ty := by
  induction position generalizing ty with
  | zero => simp only [Inference.parameterAt?, head_adjust]
  | succ position inductionHypothesis =>
      simp only [Inference.parameterAt?, head_adjust, inductionHypothesis]

/-! ### What is written -/

/-- A step of unification is kept under both options or under none. -/
theorem traceUnify_adjust (event : UnifyEvent) (left right : Operand) :
    (env.adjust adjustment).traceUnify event left right =
      (env.traceUnify event left right).adjust adjustment := by
  have kept := adjustment.addUnification env.options env.trace event left right
  unfold traceUnify adjust
  dsimp only
  cases before : env.options.trace <;>
    cases after : (adjustment.options env.options).trace <;>
    simp_all

/-- A step of inference is kept under both options or under none. -/
theorem traceInfer_adjust (expr : Expr) (rule : InferRule) (ty : Ty) :
    (env.adjust adjustment).traceInfer expr rule ty =
      (env.traceInfer expr rule ty).adjust adjustment := by
  have kept :=
    adjustment.addInference env.options env.trace
      { site := expr.site
        description := expr.form.describe
        rule := rule
        ty := env.resolve ty }
  unfold traceInfer
  rw [resolve_adjust]
  unfold adjust
  dsimp only
  cases before : env.options.trace <;>
    cases after : (adjustment.options env.options).trace <;>
    simp_all

/-- Commit and abort move the frames alike, whatever the options are. -/
theorem finish_adjust (keep : Bool) :
    (env.adjust adjustment).finish keep = (env.finish keep).adjust adjustment := by
  rw [finish_eq, finish_eq]
  rfl

end Environment

/-! ## Computations under an adjustment -/

namespace Outcome

/-- What a computation comes to, in the adjusted environment. -/
def adjust (adjustment : Adjustment) : Outcome ε α → Outcome ε α
  | .ok value env => .ok value (env.adjust adjustment)
  | .error cause env => .error cause (env.adjust adjustment)
  | .exhausted => .exhausted

/-- Whether a failure is excused; without an answer there is no cause. -/
def IsExcused (excused : Option ε → Prop) : Outcome ε α → Prop
  | .ok _ _ => False
  | .error cause _ => excused (some cause)
  | .exhausted => excused none

/-- If nothing is excused, no failure is. -/
theorem not_isExcused (outcome : Outcome ε α) : ¬ outcome.IsExcused fun _ => False := by
  cases outcome <;> exact id

end Outcome

namespace Environment

/-- The computation gives the same value under the adjustment and leaves what is adjusted. -/
def Ignores (adjustment : Adjustment) (computation : StateM Environment α) : Prop :=
  ∀ env : Environment,
    computation (env.adjust adjustment) =
      ((computation env).1, (computation env).2.adjust adjustment)

namespace Ignores

variable {adjustment : Adjustment}

theorem pure (value : α) : Ignores adjustment (Pure.pure value : StateM Environment α) :=
  fun _ => rfl

/-- Two computations in a row ignore the adjustment if both do. -/
theorem bind
    {first : StateM Environment α}
    {next : α → StateM Environment β}
    (firstIgnores : Ignores adjustment first)
    (nextIgnores : ∀ value, Ignores adjustment (next value)) :
    Ignores adjustment (first >>= next) := by
  intro env
  change next (first (env.adjust adjustment)).1 (first (env.adjust adjustment)).2 =
    ((next (first env).1 (first env).2).1, (next (first env).1 (first env).2).2.adjust adjustment)
  rw [firstIgnores env]
  exact nextIgnores _ _

/-- A computation can read of the environment what does not depend on the adjustment. -/
theorem bind_get
    {next : Environment → StateM Environment α}
    (reads : ∀ env : Environment, next (env.adjust adjustment) = next env)
    (ignores : ∀ env, Ignores adjustment (next env)) :
    Ignores adjustment (get >>= next) := by
  intro env
  change next (env.adjust adjustment) (env.adjust adjustment) =
    ((next env env).1, (next env env).2.adjust adjustment)
  rw [reads env]
  exact ignores env env

/-- A change that commutes with the adjustment ignores it. -/
theorem modify
    {change : Environment → Environment}
    (changes :
      ∀ env : Environment, change (env.adjust adjustment) = (change env).adjust adjustment) :
    Ignores adjustment (modify change : StateM Environment PUnit) :=
  fun env => congrArg (Prod.mk PUnit.unit) (changes env)

end Ignores

end Environment

namespace Action

/--
The second action comes to the same under the adjustment as the first one without it and leaves
what is adjusted, unless the first one comes to a failure that is excused.
-/
def CarriesOver
    (excused : Option ε → Prop)
    (adjustment : Adjustment)
    (first second : Action ε α) : Prop :=
  ∀ env : Environment,
    (first env).IsExcused excused ∨
      second (env.adjust adjustment) = (first env).adjust adjustment

/-- The action comes to the same under the adjustment, whether it fails or not. -/
abbrev Ignores (adjustment : Adjustment) (action : Action ε α) : Prop :=
  CarriesOver (fun _ => False) adjustment action action

namespace CarriesOver

variable {excused : Option ε → Prop} {adjustment : Adjustment}

/-- An action that ignores the adjustment carries over from itself, with nothing to excuse. -/
theorem of_eq
    {action : Action ε α}
    (same : ∀ env : Environment, action (env.adjust adjustment) = (action env).adjust adjustment) :
    CarriesOver excused adjustment action action :=
  fun env => .inr (same env)

theorem pure (value : α) :
    CarriesOver excused adjustment (Pure.pure value : Action ε α) (Pure.pure value) :=
  of_eq fun _ => rfl

theorem fail (cause : ε) :
    CarriesOver excused adjustment (Action.fail cause : Action ε α) (Action.fail cause) :=
  of_eq fun _ => rfl

theorem exhausted :
    CarriesOver excused adjustment (Action.exhausted : Action ε α) Action.exhausted :=
  of_eq fun _ => rfl

/-- An action that gives no answer is excused, whatever is done in its place. -/
theorem of_excused
    (isExcused : excused none)
    {second : Action ε α} :
    CarriesOver excused adjustment Action.exhausted second :=
  fun _ => .inl isExcused

/-- A change that commutes with the adjustment carries over. -/
theorem update
    {change : Environment → Environment}
    (changes :
      ∀ env : Environment, change (env.adjust adjustment) = (change env).adjust adjustment) :
    CarriesOver excused adjustment (Action.update change : Action ε Unit) (Action.update change) :=
  of_eq fun env => congrArg (Outcome.ok ()) (changes env)

/-- A computation that cannot fail carries over if it ignores the adjustment. -/
theorem ofState
    {computation : StateM Environment α}
    (ignores : Environment.Ignores adjustment computation) :
    CarriesOver excused adjustment (liftM computation : Action ε α) (liftM computation) :=
  of_eq fun env =>
    congrArg (fun result : α × Environment => Outcome.ok result.1 result.2) (ignores env)

/-- Two actions in a row carry over if both do; an excused failure of the first ends both. -/
theorem bind
    {first second : Action ε α}
    {next otherNext : α → Action ε β}
    (firstCarries : CarriesOver excused adjustment first second)
    (nextCarries : ∀ value, CarriesOver excused adjustment (next value) (otherNext value)) :
    CarriesOver excused adjustment (first >>= next) (second >>= otherNext) := by
  intro env
  change (Action.bind first next env).IsExcused excused ∨
    Action.bind second otherNext (env.adjust adjustment) =
      (Action.bind first next env).adjust adjustment
  have carried := firstCarries env
  unfold Action.bind
  cases ended : first env with
  | ok value middle =>
      rw [ended] at carried
      rcases carried with isExcused | same
      · exact isExcused.elim
      · rw [same]
        exact nextCarries value middle
  | error cause middle =>
      rw [ended] at carried
      exact carried.imp id fun same => by rw [same]; rfl
  | exhausted =>
      rw [ended] at carried
      exact carried.imp id fun same => by rw [same]; rfl

/-- An action can read of the environment what does not depend on the adjustment. -/
theorem bind_environment
    {next otherNext : Environment → Action ε α}
    (reads : ∀ env : Environment, otherNext (env.adjust adjustment) = otherNext env)
    (carries : ∀ env, CarriesOver excused adjustment (next env) (otherNext env)) :
    CarriesOver excused adjustment (Action.environment >>= next)
      (Action.environment >>= otherNext) := by
  intro env
  rw [Action.environment_bind, Action.environment_bind, reads env]
  exact carries env env

/-- Converting the value keeps that an action carries over. -/
theorem map
    {first second : Action ε α}
    {convert : α → β}
    (carries : CarriesOver excused adjustment first second) :
    CarriesOver excused adjustment (convert <$> first) (convert <$> second) :=
  bind carries fun _ => pure _

/-- An attempt looks at the failure itself, so its action has to ignore the adjustment. -/
theorem attempt
    {action : Action ε' α}
    (ignores : Ignores adjustment action) :
    CarriesOver excused adjustment (Action.attempt action : Action ε (Except ε' α))
      (Action.attempt action) := by
  refine of_eq fun env => ?_
  have same := (ignores env).resolve_left (Outcome.not_isExcused _)
  unfold Action.attempt
  rw [same]
  cases action env <;> rfl

/-- Restating errors needs an action that ignores the adjustment, since excuses are about errors. -/
theorem mapError
    {action : Action ε' α}
    {restate : ε' → ε}
    (ignores : Ignores adjustment action) :
    CarriesOver excused adjustment (action.mapError restate) (action.mapError restate) := by
  refine of_eq fun env => ?_
  have same := (ignores env).resolve_left (Outcome.not_isExcused _)
  unfold Action.mapError
  rw [same]
  cases action env <;> rfl

/-- An alternative needs both of its parts to ignore the adjustment. -/
theorem orElse
    {first second : Action ε α}
    (firstIgnores : Ignores adjustment first)
    (secondIgnores : Ignores adjustment second) :
    Ignores adjustment (first.orElse second) := by
  refine of_eq fun env => ?_
  have firstSame := (firstIgnores env).resolve_left (Outcome.not_isExcused _)
  have secondSame := (secondIgnores env).resolve_left (Outcome.not_isExcused _)
  unfold Action.orElse
  rw [firstSame]
  cases first env with
  | ok value middle => rfl
  | error cause middle => rfl
  | exhausted => exact secondSame

/-- An action between two changes carries over if the changes commute with the adjustment. -/
theorem between
    {first second : Action ε α}
    {enter leave : Environment → Environment}
    (carries : CarriesOver excused adjustment first second)
    (enters : ∀ env : Environment, enter (env.adjust adjustment) = (enter env).adjust adjustment)
    (leaves : ∀ env : Environment, leave (env.adjust adjustment) = (leave env).adjust adjustment) :
    CarriesOver excused adjustment (first.between enter leave) (second.between enter leave) := by
  intro env
  have carried := carries (enter env)
  unfold Action.between
  rw [enters env]
  cases ended : first (enter env) with
  | ok value inner =>
      rw [ended] at carried
      refine carried.imp id fun same => ?_
      rw [same]
      exact congrArg (Outcome.ok value) (leaves inner)
  | error cause inner =>
      rw [ended] at carried
      refine carried.imp id fun same => ?_
      rw [same]
      exact congrArg (Outcome.error cause) (leaves inner)
  | exhausted =>
      rw [ended] at carried
      exact carried.imp id fun same => by rw [same]; rfl

/-- A transaction carries over: it is opened and ended alike under all options. -/
theorem transaction
    {first second : Action ε α}
    (carries : CarriesOver excused adjustment first second) :
    CarriesOver excused adjustment first.transaction second.transaction := by
  intro env
  have carried := carries env.push
  unfold Action.transaction
  rw [show (env.adjust adjustment).push = env.push.adjust adjustment from rfl]
  cases ended : first env.push with
  | ok value inner =>
      rw [ended] at carried
      refine carried.imp id fun same => ?_
      rw [same]
      exact congrArg (Outcome.ok value) (inner.finish_adjust adjustment true)
  | error cause inner =>
      rw [ended] at carried
      refine carried.imp id fun same => ?_
      rw [same]
      exact congrArg (Outcome.error cause) (inner.finish_adjust adjustment false)
  | exhausted =>
      rw [ended] at carried
      exact carried.imp id fun same => by rw [same]; rfl

/-- Going through a list carries over if each item does. -/
theorem mapM
    {items : List α}
    {action other : α → Action ε β}
    (carries : ∀ item ∈ items, CarriesOver excused adjustment (action item) (other item)) :
    CarriesOver excused adjustment (items.mapM action) (items.mapM other) := by
  induction items with
  | nil =>
      rw [List.mapM_nil, List.mapM_nil]
      exact pure _
  | cons item rest inductionHypothesis =>
      obtain ⟨itemCarries, restCarries⟩ := List.forall_mem_cons.mp carries
      rw [List.mapM_cons, List.mapM_cons]
      refine bind itemCarries fun _ => ?_
      exact bind (inductionHypothesis restCarries) fun _ => pure _

/-- Folding over a list carries over if each item does from every state. -/
theorem foldlM
    {items : List α}
    {action other : β → α → Action ε β}
    (carries :
      ∀ item ∈ items, ∀ state,
        CarriesOver excused adjustment (action state item) (other state item))
    (state : β) :
    CarriesOver excused adjustment (items.foldlM action state) (items.foldlM other state) := by
  induction items generalizing state with
  | nil => exact pure _
  | cons item rest inductionHypothesis =>
      obtain ⟨itemCarries, restCarries⟩ := List.forall_mem_cons.mp carries
      rw [List.foldlM_cons, List.foldlM_cons]
      exact bind (itemCarries state) fun _ => inductionHypothesis restCarries _

end CarriesOver

end Action

open ShaderTyping.Action (Ignores CarriesOver)

variable {adjustment : Adjustment}

/-! ## Unification and calls -/

namespace Unification

/-- Writing down a step of unification ignores what the trace is. -/
theorem note_ignores (event : UnifyEvent) (left right : Ty) :
    Ignores adjustment (note event left right : Action ε Unit) :=
  .update fun env => env.traceUnify_adjust adjustment event _ _

/-- Reporting a mismatch ignores the adjustment. -/
theorem mismatch_ignores (left right : Ty) :
    Ignores adjustment (mismatch left right : Action UnifyError α) := by
  refine .bind (note_ignores _ _ _) fun _ => ?_
  exact .bind_environment (fun env => by rw [env.resolve_adjust adjustment]) fun _ => .fail _

/-- Looking up what a reference stands for ignores the adjustment. -/
theorem definition_ignores (reference other : Ty) :
    Ignores adjustment (definition reference other) := by
  refine .bind_environment (fun env => by simp) fun env => ?_
  split
  · split
    · exact .fail _
    · exact mismatch_ignores _ _
  · exact .pure _

/-- Binding a placeholder ignores the adjustment, the occurs check included. -/
theorem bind_ignores (scope : ScopeId) (id : PlaceholderId) (other : Ty) :
    Ignores adjustment (bind scope id other) := by
  refine .bind_environment (fun env => by simp) fun env => ?_
  dsimp only
  split
  · exact .pure _
  · split
    · exact .bind (note_ignores _ _ _) fun _ => .fail _
    · refine .bind (note_ignores _ _ _) fun _ => ?_
      exact .bind (.update fun _ => rfl) fun _ => .pure _

end Unification

/-- Unification of lengths ignores the adjustment. -/
theorem unifyLength_ignores (left right : Length) :
    Ignores adjustment (unifyLength left right) := by
  have bound (id : LengthId) (other left right : Length) :
      Ignores adjustment
        (do
          Action.update
            (Environment.traceUnify (.bindLength id other) (.length left) (.length right))
          Action.update (Environment.bindLength id other)
          pure other : Action UnifyError Length) := by
    refine .bind (.update fun env => env.traceUnify_adjust adjustment _ _ _) fun _ => ?_
    exact .bind (.update fun _ => rfl) fun _ => .pure _
  refine .bind_environment (fun env => by simp) fun env => ?_
  dsimp only
  split
  · exact .pure _
  · split
    · exact bound _ _ _ _
    · exact bound _ _ _ _
    · exact .fail _

namespace Unification

section Step

variable {recur : Ty → Ty → Action UnifyError Ty}
  (recurIgnores : ∀ left right, Ignores adjustment (recur left right))
include recurIgnores

/-- Unification of common fields ignores the adjustment if that of types does. -/
theorem meet_ignores (left right : List (String × Ty)) :
    Ignores adjustment (meet recur left right) := by
  unfold meet
  split
  · refine .bind (note_ignores _ _ _) fun _ => ?_
    exact .bind_environment (fun env => by simp) fun _ => .fail _
  · refine .bind (note_ignores _ _ _) fun _ => ?_
    refine .bind (.mapM fun field _ => ?_) fun _ => .pure _
    exact .bind (recurIgnores _ _) fun _ => .pure _

/-- One step of unification ignores the adjustment if unification of the parts does. -/
theorem step_ignores (left right : Ty) : Ignores adjustment (step recur left right) := by
  unfold step
  split
  · exact .bind (note_ignores _ _ _) fun _ => .pure _
  · split
    · refine .bind_environment (fun env => by simp) fun env => ?_
      split
      · exact recurIgnores _ _
      · exact bind_ignores _ _ _
    · exact recurIgnores _ _
    · refine .bind (definition_ignores _ _) fun _ => ?_
      exact .bind (note_ignores _ _ _) fun _ => recurIgnores _ _
    · refine .bind (definition_ignores _ _) fun _ => ?_
      exact .bind (note_ignores _ _ _) fun _ => recurIgnores _ _
    · refine .bind (note_ignores _ _ _) fun _ => ?_
      refine .bind (recurIgnores _ _) fun _ => ?_
      exact .bind (unifyLength_ignores _ _) fun _ => .pure _
    · exact meet_ignores recurIgnores _ _
    · refine .bind (note_ignores _ _ _) fun _ => ?_
      exact .bind (recurIgnores _ _) fun _ => .bind (recurIgnores _ _) fun _ => .pure _
    · exact .bind (note_ignores _ _ _) fun _ => .pure _
    · exact .bind (note_ignores _ _ _) fun _ => .pure _
    · exact mismatch_ignores _ _

end Step

/-- Unification in any number of steps ignores the adjustment. -/
theorem within_ignores (steps : Nat) (left right : Ty) :
    Ignores adjustment (within steps left right) := by
  induction steps generalizing left right with
  | zero => exact .exhausted
  | succ steps inductionHypothesis => exact step_ignores inductionHypothesis left right

end Unification

/-- Unification ignores the adjustment. -/
theorem unify_ignores (left right : Ty) : Ignores adjustment (unify left right) := by
  refine .orElse (Unification.within_ignores _ _ _) ?_
  exact .bind_environment (fun _ => rfl) fun _ => Unification.within_ignores _ _ _

namespace Call

section Step

variable {recur : Ty → List Ty → Action UnifyError Ty}
  (recurIgnores : ∀ callee args, Ignores adjustment (recur callee args))
include recurIgnores

/-- Trying the members of an overload set ignores the adjustment if the rest of the call does. -/
theorem firstAccepting_ignores (arg : Ty) (rest members : List Ty) :
    Ignores adjustment (firstAccepting recur arg rest members) := by
  induction members with
  | nil => exact .pure _
  | cons member others inductionHypothesis =>
      refine .bind (Unification.note_ignores _ _ _) fun _ => ?_
      refine .bind (.attempt (.transaction (recurIgnores _ _))) fun _ => ?_
      split
      · exact .pure _
      · exact inductionHypothesis

/-- One argument of a call ignores the adjustment if the rest of the call does. -/
theorem step_ignores (callee : Ty) (args : List Ty) :
    Ignores adjustment (step recur callee args) := by
  unfold step
  split
  · exact .pure _
  · refine .bind_environment (fun env => by simp) fun env => ?_
    split
    · exact .bind (unify_ignores _ _) fun _ => recurIgnores _ _
    · refine .bind (.ofState fun _ => rfl) fun _ => ?_
      exact .bind (unify_ignores _ _) fun _ => recurIgnores _ _
    · refine .bind (firstAccepting_ignores recurIgnores _ _ _) fun _ => ?_
      split
      · exact .pure _
      · exact .bind_environment (fun env => by simp) fun _ => .fail _
    · exact .fail _

end Step

/-- A call in any number of steps ignores the adjustment. -/
theorem within_ignores (steps : Nat) (callee : Ty) (args : List Ty) :
    Ignores adjustment (within steps callee args) := by
  induction steps generalizing callee args with
  | zero => exact .exhausted
  | succ steps inductionHypothesis => exact step_ignores inductionHypothesis callee args

end Call

/-- A call ignores the adjustment. -/
theorem call_ignores (callee : Ty) (args : List Ty) : Ignores adjustment (call callee args) := by
  refine .orElse (Call.within_ignores _ _ _) ?_
  exact .bind_environment (fun _ => rfl) fun _ => Call.within_ignores _ _ _

/-! ## Generalization and instantiation -/

namespace Environment

/-- A fresh placeholder gets the same number. -/
theorem freshPlaceholder_ignores (scope : ScopeId) : Ignores adjustment (freshPlaceholder scope) :=
  fun _ => rfl

/-- A fresh length variable gets the same number. -/
theorem freshLength_ignores : Ignores adjustment freshLength :=
  fun _ => rfl

/-- Quantifying a placeholder ignores the adjustment. -/
theorem quantifyPlaceholder_ignores (kept : VarSet) (scope : ScopeId) (id : PlaceholderId) :
    Ignores adjustment (quantifyPlaceholder kept scope id) := by
  unfold quantifyPlaceholder
  split
  · exact .pure _
  · exact .bind (fun _ => rfl) fun _ => .bind (.modify fun _ => rfl) fun _ => .pure _

/-- Quantifying a length ignores the adjustment. -/
theorem quantifyLength_ignores (kept : VarSet) (length : Length) :
    Ignores adjustment (quantifyLength kept length) := by
  refine .bind_get (fun env => by simp) fun env => ?_
  split
  · dsimp only
    split
    · exact .pure _
    · exact .bind (.modify fun _ => rfl) fun _ => .pure _
  · exact .pure _

/-- Quantifying a type in any number of steps ignores the adjustment. -/
theorem quantifyWithin_ignores
    (kept : VarSet)
    (steps : Nat)
    (expanding : List AliasKey)
    (ty : Ty) :
    Ignores adjustment (quantifyWithin kept steps expanding ty) := by
  induction steps generalizing expanding ty with
  | zero => exact .pure _
  | succ steps inductionHypothesis =>
      refine Ty.traverse_induction (motive := Ignores adjustment) .pure .bind
        ?_ ?_ (fun _ _ => .pure _) (quantifyLength_ignores kept) ty
      · intro scope name
        refine .bind_get (fun env => by simp) fun env => ?_
        split
        · split
          · exact .pure _
          · exact inductionHypothesis _ _
        · exact .pure _
      · intro scope id
        refine .bind_get (fun env => by simp) fun env => ?_
        split
        · exact inductionHypothesis _ _
        · exact quantifyPlaceholder_ignores kept scope id

/-- Quantifying a type ignores the adjustment. -/
theorem quantify_ignores (kept : VarSet) (ty : Ty) : Ignores adjustment (quantify kept ty) :=
  .bind_get (fun _ => rfl) fun _ => quantifyWithin_ignores kept _ [] ty

/-- Generalizing a type ignores the adjustment. -/
theorem generalize_ignores (ty : Ty) : Ignores adjustment (generalize ty) :=
  .bind_get (fun env => by rw [env.monomorphic_adjust adjustment]) fun _ => quantify_ignores _ ty

/-- Closing a type ignores the adjustment. -/
theorem close_ignores (ty : Ty) : Ignores adjustment (close ty) :=
  quantify_ignores VarSet.empty ty

/-- A quantified type gets the same fresh placeholder. -/
theorem instantiateParametric_ignores
    (scope : ScopeId)
    (label : LabelId)
    (made : Instance) :
    Ignores adjustment (instantiateParametric scope label made) := by
  change Ignores adjustment ((instantiateParametric scope label).run made)
  unfold instantiateParametric
  rw [StateT.run_bind, StateT.run_get, pure_bind]
  cases made.types.lookup (scope, label) with
  | some ty => exact .pure _
  | none => exact fun _ => rfl

/-- A length gets the same fresh length variable. -/
theorem instantiateLength_ignores (length : Length) (made : Instance) :
    Ignores adjustment (instantiateLength length made) := by
  cases length with
  | known count => exact .pure _
  | var id =>
      change Ignores adjustment ((instantiateLength (.var id)).run made)
      unfold instantiateLength
      rw [StateT.run_bind, StateT.run_monadLift, bind_assoc]
      refine .bind_get (fun _ => rfl) fun env => ?_
      rw [pure_bind]
      cases env.frames.isGeneric id with
      | false => exact .pure _
      | true =>
          rw [if_pos rfl, StateT.run_bind, StateT.run_get, pure_bind]
          cases made.lengths.lookup id with
          | some fresh => exact .pure _
          | none => exact fun _ => rfl

/-- Instantiating a type ignores the adjustment. -/
theorem instantiate_ignores (ty : Ty) : Ignores adjustment (instantiate ty) := by
  refine .bind_get (fun env => by simp) fun env => ?_
  dsimp only
  split
  · refine .bind ?_ fun _ => .pure _
    exact Ty.traverse_induction
      (motive := fun {α} (computation : StateT Instance (StateM Environment) α) =>
        ∀ made, Ignores adjustment (computation made))
      (fun value made => .pure (value, made))
      (fun first next made => .bind (first made) fun result => next result.1 result.2)
      (fun _ _ _ => .pure _) (fun _ _ _ => .pure _)
      instantiateParametric_ignores instantiateLength_ignores (env.resolve ty) ⟨[], []⟩
  · exact .pure _

end Environment

open Environment (generalize_ignores instantiate_ignores freshPlaceholder_ignores
  freshLength_ignores)


end ShaderTyping
