import ShaderTyping.Proofs.AdjustedInference

namespace ShaderTyping

/-!
# Tracing has no influence

`Environment.untraced` is an environment without its trace, in which no steps are kept.  That is an
adjustment which leaves the depth limit alone, so every computation comes to the same value or
failure in both and leaves environments that again differ only in their traces
(`Action.IgnoresTrace`).
-/

/-! ## Environments without a trace -/

namespace Environment

/-- The environment without its trace, keeping no steps from now on. -/
def untraced (env : Environment) : Environment :=
  { env with options.trace := false, trace := Trace.empty }

end Environment

/-- The trace is dropped and no steps are kept from now on. -/
def Adjustment.untraced : Adjustment where
  options options := { options with trace := false }
  trace _ := Trace.empty
  addUnification _ _ _ _ _ := rfl
  addInference _ _ _ := rfl

/-- Dropping the trace leaves the depth limit alone. -/
theorem Adjustment.untraced_raises : untraced.Raises fun _ => False where
  le_maxDepth _ := Nat.le_refl _
  excuses := .inl fun _ => rfl

namespace Environment

variable (env : Environment)

/-- Adjusting by dropping the trace is dropping it. -/
theorem adjust_untraced : env.adjust .untraced = env.untraced :=
  rfl

/-- The declarations are there without the trace. -/
@[simp] theorem declared_untraced : env.untraced.declared = env.declared :=
  rfl

/-- The frames are there without the trace. -/
@[simp] theorem frames_untraced : env.untraced.frames = env.frames :=
  rfl

/-- References stand for the same types without the trace. -/
@[simp] theorem definition?_untraced (scope : ScopeId) (name : String) :
    env.untraced.definition? scope name = env.definition? scope name :=
  rfl

/-- The same head is found without the trace. -/
@[simp] theorem head_untraced (ty : Ty) : env.untraced.head ty = env.head ty :=
  env.head_adjust .untraced ty

/-- Lengths resolve alike without the trace. -/
@[simp] theorem resolveLength_untraced : env.untraced.resolveLength = env.resolveLength :=
  env.resolveLength_adjust .untraced

/-- Types resolve alike without the trace. -/
@[simp] theorem resolve_untraced : env.untraced.resolve = env.resolve :=
  env.resolve_adjust .untraced

/-- Types expand alike without the trace. -/
@[simp] theorem expand_untraced : env.untraced.expand = env.expand :=
  env.expand_adjust .untraced

/-- The occurs check comes to the same answer without the trace. -/
@[simp] theorem occurs_untraced (id : PlaceholderId) (ty : Ty) :
    env.untraced.occurs id ty = env.occurs id ty :=
  env.occurs_adjust .untraced id ty

/-- The same type is reported of an expression without the trace. -/
@[simp] theorem typeOf?_untraced (id : ExprId) : env.untraced.typeOf? id = env.typeOf? id := by
  simp only [typeOf?, frames_untraced, resolve_untraced]

/-- The same uses of outside values are found without the trace. -/
theorem externalUses_untraced (kind : ExternalKind) (declarations : List (Declaration Expr)) :
    env.untraced.externalUses kind declarations = env.externalUses kind declarations := by
  have use : env.untraced.externalUse? = env.externalUse? := by
    funext node
    simp only [externalUse?, groundType?, typeOf?_untraced, expand_untraced]
  simp only [externalUses, use]

/-- The same cyclic aliases and missing references are found without the trace. -/
theorem aliasProblems_untraced : env.untraced.aliasProblems = env.aliasProblems := by
  have within (steps : Nat) (path : List AliasKey) (ty : Ty) (search : AliasSearch) :
      AliasSearch.followWithin env.untraced steps path ty search =
        AliasSearch.followWithin env steps path ty search := by
    induction steps generalizing path ty search with
    | zero => rfl
    | succ steps inductionHypothesis =>
        simp only [AliasSearch.followWithin, definition?_untraced, inductionHypothesis]
  simp only [aliasProblems, AliasSearch.visit, AliasSearch.follow, declared_untraced,
    show env.untraced.aliasCount = env.aliasCount from rfl, within]

/-- A step of unification is seen in the trace only. -/
@[simp] theorem untraced_traceUnify (event : UnifyEvent) (left right : Operand) :
    (env.traceUnify event left right).untraced = env.untraced :=
  (env.traceUnify_adjust .untraced event left right).symm

/-- A step of inference is seen in the trace only. -/
@[simp] theorem untraced_traceInfer (expr : Expr) (rule : InferRule) (ty : Ty) :
    (env.traceInfer expr rule ty).untraced = env.untraced :=
  (env.traceInfer_adjust .untraced expr rule ty).symm

/-- Commit and abort move the frames alike without the trace. -/
theorem finish_untraced (keep : Bool) : env.untraced.finish keep = (env.finish keep).untraced :=
  env.finish_adjust .untraced keep

end Environment

/-! ## Computations that ignore the trace -/

namespace Outcome

/-- What a computation comes to, apart from the trace. -/
def untraced : Outcome ε α → Outcome ε α
  | .ok value env => .ok value env.untraced
  | .error cause env => .error cause env.untraced
  | .exhausted => .exhausted

end Outcome

namespace Environment

/-- The computation gives the same value with and without a trace, and only the trace differs. -/
def IgnoresTrace (computation : StateM Environment α) : Prop :=
  ∀ env : Environment,
    computation env.untraced = ((computation env).1, (computation env).2.untraced)

/-- What ignores the adjustment ignores the trace. -/
theorem IgnoresTrace.of_ignores
    {computation : StateM Environment α}
    (ignores : Ignores .untraced computation) :
    IgnoresTrace computation :=
  ignores

/-- Generalizing a type ignores the trace. -/
theorem generalize_ignoresTrace (ty : Ty) : IgnoresTrace (generalize ty) :=
  .of_ignores (generalize_ignores ty)

/-- Closing a type ignores the trace. -/
theorem close_ignoresTrace (ty : Ty) : IgnoresTrace (close ty) :=
  .of_ignores (close_ignores ty)

/-- Instantiating a type ignores the trace. -/
theorem instantiate_ignoresTrace (ty : Ty) : IgnoresTrace (instantiate ty) :=
  .of_ignores (instantiate_ignores ty)

end Environment

namespace Action

/-- The action comes to the same with and without a trace, and only the trace differs. -/
def IgnoresTrace (action : Action ε α) : Prop :=
  ∀ env : Environment, action env.untraced = (action env).untraced

/-- What ignores the adjustment ignores the trace. -/
theorem IgnoresTrace.of_ignores
    {action : Action ε α}
    (ignores : Ignores .untraced action) :
    IgnoresTrace action := by
  intro env
  have same := (ignores env).resolve_left (Outcome.not_isExcused _)
  rw [← env.adjust_untraced, same]
  cases action env <;> rfl

end Action

open ShaderTyping.Action (Ignores IgnoresTrace)

/-- Unification of lengths ignores the trace. -/
theorem unifyLength_ignoresTrace (left right : Length) : IgnoresTrace (unifyLength left right) :=
  .of_ignores (unifyLength_ignores left right)

/-- Unification ignores the trace. -/
theorem unify_ignoresTrace (left right : Ty) : IgnoresTrace (unify left right) :=
  .of_ignores (unify_ignores left right)

/-- A call ignores the trace. -/
theorem call_ignoresTrace (callee : Ty) (args : List Ty) : IgnoresTrace (call callee args) :=
  .of_ignores (call_ignores callee args)

/--
Inference of an expression ignores the trace: no failure is excused under the same depth limit.
-/
theorem infer_ignoresTrace (expr : Expr) : IgnoresTrace (infer expr) :=
  .of_ignores (infer_carriesOver Adjustment.untraced_raises expr)

/-- Inference of a declaration ignores the trace. -/
theorem inferDeclaration_ignoresTrace (scope : ScopeId) (name : String) :
    IgnoresTrace (inferDeclaration scope name) :=
  .of_ignores (inferDeclaration_carriesOver Adjustment.untraced_raises scope name)

/-! ## Programs -/

/-- Inference of a declaration ignores the adjustment that drops the trace. -/
theorem inferDeclaration_untraced (scope : ScopeId) (name : String) :
    Ignores .untraced (inferDeclaration scope name) :=
  inferDeclaration_carriesOver Adjustment.untraced_raises scope name

/-- The same declarations can be inferred without the trace. -/
theorem Environment.inferable_untraced (declarations : List (Declaration Expr)) :
    Action.Ignores .untraced
      (inferable declarations : Action ε (List (Declaration Expr))) := by
  induction declarations with
  | nil => exact .pure _
  | cons declaration rest inductionHypothesis =>
      have others (failed : Bool) :
          Action.Ignores .untraced
            (do
              let others ← inferable rest
              pure (if failed then others else declaration :: others) :
              Action ε (List (Declaration Expr))) :=
        .bind inductionHypothesis fun _ => .pure _
      have failsIgnores : Action.Ignores .untraced (fails declaration : Action ε Bool) := by
        refine .bind (.attempt (inferDeclaration_untraced _ _)) fun _ => ?_
        split
        · exact .pure _
        · exact .pure _
      unfold inferable
      cases declaration.scope.isNative with
      | true => exact others false
      | false => exact .bind failsIgnores fun _ => others _

namespace Checker

/-- A check finds the same problems without the trace. -/
theorem problems_untraced (checker : Checker) :
    Ignores .untraced (checker.problems : Action ε (List Diagnostic)) := by
  cases checker with
  | cyclicAliases =>
      exact .bind_environment (fun env => by rw [env.adjust_untraced, env.aliasProblems_untraced])
        fun _ => .pure _
  | unresolvedVariables => exact .bind_environment (fun _ => rfl) fun _ => .pure _
  | externalConsistency kind =>
      refine .bind_environment (fun _ => rfl) fun _ => ?_
      refine .bind (Environment.inferable_untraced _) fun _ => ?_
      exact .bind_environment
        (fun env => by rw [env.adjust_untraced, env.externalUses_untraced]) fun _ => .pure _

/-- A pipeline of checks finds the same problems without the trace. -/
theorem runAfter_untraced (found : List Diagnostic) (pipeline : List Checker) :
    Ignores .untraced (runAfter found pipeline) := by
  induction pipeline generalizing found with
  | nil =>
      unfold runAfter
      split
      · exact .pure _
      · exact .fail _
  | cons checker rest inductionHypothesis =>
      refine .bind (problems_untraced checker) fun _ => ?_
      split
      · exact inductionHypothesis _
      · exact .fail _

/-- A check ignores the trace. -/
theorem problems_ignoresTrace (checker : Checker) :
    IgnoresTrace (checker.problems : Action ε (List Diagnostic)) :=
  .of_ignores (problems_untraced checker)

/-- A pipeline of checks ignores the trace. -/
theorem runAfter_ignoresTrace (found : List Diagnostic) (pipeline : List Checker) :
    IgnoresTrace (runAfter found pipeline) :=
  .of_ignores (runAfter_untraced found pipeline)

end Checker

/-- Inference of a program ignores the adjustment that drops the trace. -/
theorem inferProgram_untraced : Ignores .untraced inferProgram := by
  refine .bind_environment (fun _ => rfl) fun env => ?_
  refine .bind (.foldlM (fun declaration _ progress => ?_) _) fun _ => ?_
  · refine .bind (.attempt (inferDeclaration_untraced _ _)) fun _ => ?_
    split
    · exact .pure _
    · exact .pure _
    · split
      · exact .pure _
      · exact .pure _
  · split
    · exact .bind_environment (fun env => by rw [env.adjust_untraced, env.resolve_untraced])
        fun _ => .pure _
    · exact .fail _

/-- Inference of a program ignores the trace. -/
theorem inferProgram_ignoresTrace : IgnoresTrace inferProgram :=
  .of_ignores inferProgram_untraced

/-- Checking a program ignores the trace. -/
theorem checkProgram_ignoresTrace : IgnoresTrace checkProgram := by
  refine .of_ignores (.bind (Checker.runAfter_untraced [] Checker.standard) fun _ => ?_)
  refine .bind inferProgram_untraced fun _ => ?_
  refine .bind (.mapM fun declaration _ => ?_) fun _ => .pure _
  exact .bind (.ofState (Environment.close_ignores _)) fun _ => .pure _

end ShaderTyping
