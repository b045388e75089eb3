import ShaderTyping.Proofs.Occurs
import ShaderTyping.Proofs.Operations

namespace ShaderTyping

/-!
# Reachable environments

An environment is reached from an empty one by declarations, transactions and the
operations of inference, in any order and on any types.  `Operation.Changes` lists what
operations do, so an invariant of all that is reached is one induction over it.  The
bindings of every environment that is reached are consistent, so resolving comes to an
end there.
-/

/-- Something that can be done with an environment. -/
inductive Operation where
  | newScope (parent : ScopeId)
  | declareType (scope : ScopeId) (name : String) (ty : Ty)
  | declareVariable (scope : ScopeId) (name : String) (expr : Expr)
  | enableTrace
  | push
  | commit
  | abort
  /-- A transaction that is committed if its body succeeds. -/
  | transaction (body : List Operation) (succeeds : Bool)
  | freshPlaceholder (scope : ScopeId)
  | freshLength
  | unify (left right : Ty)
  | unifyLength (left right : Length)
  | call (callee : Ty) (args : List Ty)
  | generalize (ty : Ty)
  | close (ty : Ty)
  | instantiate (ty : Ty)
  | infer (expr : Expr)
  | inferDeclaration (scope : ScopeId) (name : String)
  | validate (checker : Checker)
  | runCheckers (pipeline : List Checker)
  | inferProgram
  | checkProgram

namespace Operation

/-- Make a declaration; a refused one changes nothing. -/
def declare
    (env : Environment)
    (change : Declarations → Except DeclarationError Declarations) : Environment :=
  match change env.declared with
  | .ok declared => { env with declared := declared }
  | .error _ => env

mutual

/-- The environment that an operation leaves, if it returns. -/
def perform : Operation → Environment → Option Environment
  | .newScope parent, env =>
      some (declare env fun declared => (declared.newScope parent).map Prod.snd)
  | .declareType scope name ty, env =>
      some (declare env fun declared => declared.declareType scope name ty)
  | .declareVariable scope name expr, env =>
      some (declare env fun declared => declared.declareVariable scope name expr)
  | .enableTrace, env => some env.enableTrace
  | .push, env => some env.push
  | .commit, env => some (env.finish true)
  | .abort, env => some (env.finish false)
  | .transaction body succeeds, env =>
      (performAll body env.push).map fun inner => inner.finish succeeds
  | .freshPlaceholder scope, env => some (Environment.freshPlaceholder scope env).2
  | .freshLength, env => some (Environment.freshLength env).2
  | .unify left right, env => (ShaderTyping.unify left right env).final?
  | .unifyLength left right, env => (ShaderTyping.unifyLength left right env).final?
  | .call callee args, env => (ShaderTyping.call callee args env).final?
  | .generalize ty, env => some (Environment.generalize ty env).2
  | .close ty, env => some (Environment.close ty env).2
  | .instantiate ty, env => some (Environment.instantiate ty env).2
  | .infer expr, env => (ShaderTyping.infer expr env).final?
  | .inferDeclaration scope name, env =>
      (ShaderTyping.inferDeclaration scope name env).final?
  | .validate checker, env =>
      (checker.problems env : Outcome Report (List Diagnostic)).final?
  | .runCheckers pipeline, env => (Checker.run pipeline env).final?
  | .inferProgram, env => (ShaderTyping.inferProgram env).final?
  | .checkProgram, env => (ShaderTyping.checkProgram env).final?

/-- The environment that operations leave one after the other. -/
def performAll : List Operation → Environment → Option Environment
  | [], env => some env
  | operation :: rest, env => (operation.perform env).bind (performAll rest)

end

end Operation

namespace Environment

/-- Some operations lead from the empty environment to this one. -/
def Reachable (env : Environment) : Prop :=
  ∃ options operations, Operation.performAll operations (Environment.empty options) = some env

/-! ## Bindings stay consistent -/

variable {env final : Environment}

/-- What unification does keeps bindings consistent. -/
theorem Binds.consistent
    (step : Binds env final)
    (consistent : env.frames.Consistent) :
    final.frames.Consistent := by
  cases step with
  | note event left right =>
      rwa [frames_traceUnify]
  | placeholder event left right unbound notFound =>
      rw [bindPlaceholder, frames_traceUnify]
      exact consistent_bindPlaceholder consistent unbound notFound
  | length event left right isVar different =>
      rw [bindLength, frames_traceUnify]
      refine consistent.bindLength ?_ different ?_
      · exact length?_of_resolveLength_eq_var consistent isVar
      · intro other isOther
        exact length?_of_resolveLength_eq_var consistent isOther

/-- Either end of a transaction keeps bindings consistent. -/
theorem consistent_finish
    (consistent : env.frames.Consistent)
    (keep : Bool) :
    (env.finish keep).frames.Consistent := by
  rw [frames_finish]
  exact consistent.finish keep

/-- A run keeps bindings consistent, because each change does. -/
theorem Run.consistent
    (run : Run env final)
    (consistent : env.frames.Consistent) :
    final.frames.Consistent := by
  induction run with
  | refl => exact consistent
  | trans _ _ first second => exact second (first consistent)
  | binds step => exact step.consistent consistent
  | fresh => exact consistent
  | quantify scope label unbound =>
      refine consistent.bindPlaceholder unbound fun isMentioned => ?_
      simp [Ty.Mentions, Ty.vars, Ty.leafVars] at isMentioned
  | markGeneric id => exact consistent.markGeneric id
  | recordInferred id ty => exact consistent.recordInferred id ty
  | recordParameter function position ty => exact consistent.recordParameter function position ty
  | traceInfer expr rule ty => rwa [frames_traceInfer]
  | external => exact consistent
  | transaction keep _ inductionHypothesis =>
      exact consistent_finish (inductionHypothesis consistent.push) keep
  | insideFunction types _ inductionHypothesis => exact inductionHypothesis consistent
  | insideDeclaration provisional _ _ inductionHypothesis => exact inductionHypothesis consistent
  | deeper _ inductionHypothesis => exact inductionHypothesis consistent

end Environment

namespace Operation

variable {env final : Environment}

/-- Declaring writes to no frame. -/
theorem frames_declare
    (env : Environment)
    (change : Declarations → Except DeclarationError Declarations) :
    (declare env change).frames = env.frames := by
  unfold declare
  split <;> rfl

/-- What operations do to an environment, one change after the other. -/
inductive Changes : Environment → Environment → Prop where
  | refl (env : Environment) :
      Changes env env
  | trans {env middle final : Environment} :
      Changes env middle →
      Changes middle final →
      Changes env final
  | newScope {env : Environment} (parent : ScopeId) :
      Changes env (declare env fun declared => (declared.newScope parent).map Prod.snd)
  | declareType {env : Environment} (scope : ScopeId) (name : String) (ty : Ty) :
      Changes env (declare env fun declared => declared.declareType scope name ty)
  | declareVariable {env : Environment} (scope : ScopeId) (name : String) (expr : Expr) :
      Changes env (declare env fun declared => declared.declareVariable scope name expr)
  | enableTrace {env : Environment} :
      Changes env env.enableTrace
  | push {env : Environment} :
      Changes env env.push
  | finish {env : Environment} (keep : Bool) :
      Changes env (env.finish keep)
  /-- Everything else is a computation. -/
  | run {env final : Environment} :
      Environment.Run env final →
      Changes env final

mutual

/-- What an operation does is one of the listed changes, or several in a row. -/
theorem perform_changes
    (operation : Operation)
    {env final : Environment}
    (performed : operation.perform env = some final) :
    Changes env final := by
  cases operation with
  | newScope parent =>
      cases performed
      exact .newScope parent
  | declareType scope name ty =>
      cases performed
      exact .declareType scope name ty
  | declareVariable scope name expr =>
      cases performed
      exact .declareVariable scope name expr
  | enableTrace =>
      cases performed
      exact .enableTrace
  | push =>
      cases performed
      exact .push
  | commit | abort =>
      cases performed
      exact .finish _
  | transaction body succeeds =>
      rw [perform, Option.map_eq_some_iff] at performed
      obtain ⟨inner, inside, rfl⟩ := performed
      exact .trans .push (.trans (performAll_changes body inside) (.finish succeeds))
  | freshPlaceholder scope =>
      cases performed
      exact .run (.fresh 1 0 0)
  | freshLength =>
      cases performed
      exact .run (.fresh 0 1 0)
  | generalize ty =>
      cases performed
      exact .run (Environment.generalize_run ty env).run
  | close ty =>
      cases performed
      exact .run (Environment.close_run ty env).run
  | instantiate ty =>
      cases performed
      exact .run (Environment.instantiate_run ty env).run
  | unify left right => exact .run (unify_run left right env final performed)
  | unifyLength left right => exact .run (unifyLength_run left right env final performed)
  | call callee args => exact .run (call_run callee args env final performed)
  | infer expr => exact .run (infer_run expr env final performed)
  | inferDeclaration scope name =>
      exact .run (inferDeclaration_run scope name env final performed)
  | validate checker => exact .run (Checker.problems_run checker env final performed)
  | runCheckers pipeline => exact .run (Checker.runAfter_run [] pipeline env final performed)
  | inferProgram => exact .run (inferProgram_run env final performed)
  | checkProgram => exact .run (checkProgram_run env final performed)

/-- What operations do in a row are the listed changes. -/
theorem performAll_changes
    (operations : List Operation)
    {env final : Environment}
    (performed : performAll operations env = some final) :
    Changes env final := by
  cases operations with
  | nil =>
      cases performed
      exact .refl env
  | cons operation rest =>
      rw [performAll, Option.bind_eq_some_iff] at performed
      obtain ⟨middle, first, others⟩ := performed
      exact .trans (perform_changes operation first) (performAll_changes rest others)

end

/-- Every operation keeps bindings consistent. -/
theorem Changes.consistent
    {env final : Environment}
    (changes : Changes env final)
    (consistent : env.frames.Consistent) :
    final.frames.Consistent := by
  induction changes with
  | refl => exact consistent
  | trans _ _ first second => exact second (first consistent)
  | newScope | declareType | declareVariable => rwa [frames_declare]
  | enableTrace => exact consistent
  | push => exact consistent.push
  | finish keep => exact Environment.consistent_finish consistent keep
  | run run => exact run.consistent consistent

end Operation

namespace Environment

variable {env : Environment}

/-- The bindings of a reachable environment are consistent. -/
theorem Reachable.consistent (reachable : env.Reachable) : env.frames.Consistent := by
  obtain ⟨options, operations, performed⟩ := reachable
  exact (Operation.performAll_changes operations performed).consistent FrameStack.Consistent.empty

/--
In every reachable environment each variable is bound at most once and no stack of
the lowest frames has a cycle.  So the recursions of `resolve` and `resolveLength`
are well-founded and end within the steps granted to them, no bound variable is
left, and resolving again changes nothing.
-/
theorem reachable_bindings (reachable : env.Reachable) :
    (Frame.Once Frame.placeholders env.frames.frames ∧
      Frame.Once Frame.lengths env.frames.frames) ∧
    (∀ lowest, lowest <:+ env.frames.frames →
      Table.Acyclic (Frame.topmost? Frame.placeholders lowest) Ty.Mentions ∧
      Table.Acyclic (Frame.topmost? Frame.lengths lowest) Length.Mentions) ∧
    (WellFounded (fun bound ty => Table.Follows env.binding? Ty.Mentions ty bound) ∧
      ∀ ty,
        (∀ steps, env.bindingCount < steps → env.resolveWithin steps ty = env.resolve ty) ∧
        (∀ var ∈ (env.resolve ty).vars, env.isBound var = false) ∧
        env.resolve (env.resolve ty) = env.resolve ty) ∧
    (WellFounded
        (fun bound length => Table.Follows env.frames.length? Length.Mentions length bound) ∧
      ∀ length,
        (∀ steps, env.frames.lengthBindingCount ≤ steps →
          env.resolveLengthWithin steps length = env.resolveLength length) ∧
        (∀ id, env.resolveLength length = .var id → env.frames.length? id = none) ∧
        env.resolveLength (env.resolveLength length) = env.resolveLength length) := by
  have consistent := reachable.consistent
  have ⟨placeholdersOnce, lengthsOnce, placeholdersAcyclic, lengthsAcyclic⟩ := consistent
  refine ⟨⟨placeholdersOnce, lengthsOnce⟩, ?_, ⟨?_, ?_⟩, ?_, ?_⟩
  · intro lowest isSuffix
    constructor
    · exact placeholdersAcyclic.of_le (placeholdersOnce.topmost?_of_suffix isSuffix)
    · exact lengthsAcyclic.of_le (lengthsOnce.topmost?_of_suffix isSuffix)
  · exact placeholdersAcyclic.wellFounded_follows _ Frame.mem_values
  · intro ty
    refine ⟨fun steps enough => resolveWithin_eq consistent enough ty, ?_, ?_⟩
    · exact fun var member => isBound_of_mem_vars_resolve consistent member
    · exact resolve_resolve consistent ty
  · exact lengthsAcyclic.wellFounded_follows _ Frame.mem_values
  · intro length
    refine ⟨fun steps enough => resolveLengthWithin_eq consistent enough length, ?_, ?_⟩
    · exact fun id resolved => length?_of_resolveLength_eq_var consistent resolved
    · exact resolveLength_resolveLength consistent length

/-- A chain of bindings that ends in an open transaction is resolved to its end. -/
theorem reachable_bindings_chain :
    ∃ env : Environment,
      (env.Reachable ∧ env.frames.depth = 1 ∧
        env.binding? ⟨0⟩ = some (.placeholder .native ⟨1⟩) ∧
        env.binding? ⟨1⟩ = some Ty.int) ∧
      Frame.Once Frame.placeholders env.frames.frames ∧
      env.resolve (.placeholder .native ⟨0⟩) = Ty.int ∧
      env.resolve (env.resolve (.placeholder .native ⟨0⟩)) =
        env.resolve (.placeholder .native ⟨0⟩) := by
  have computed :
      (Operation.performAll
        [.freshPlaceholder .native, .freshPlaceholder .native,
          .unify (.placeholder .native ⟨0⟩) (.placeholder .native ⟨1⟩), .push,
          .unify (.placeholder .native ⟨1⟩) Ty.int]
        (empty Options.standard)).map
          (fun env => (env.frames.depth, env.binding? ⟨0⟩, env.binding? ⟨1⟩,
            env.resolve (.placeholder .native ⟨0⟩))) =
        some (1, some (.placeholder .native ⟨1⟩), some Ty.int, Ty.int) := by
    decide +kernel
  obtain ⟨env, performed, shown⟩ := Option.map_eq_some_iff.mp computed
  simp only [Prod.mk.injEq] at shown
  obtain ⟨isDeep, first, second, resolved⟩ := shown
  have reachable : env.Reachable := ⟨_, _, performed⟩
  obtain ⟨⟨once, _⟩, _, ⟨_, resolves⟩, _⟩ := reachable_bindings reachable
  exact ⟨env, ⟨reachable, isDeep, first, second⟩, once, resolved, (resolves _).2.2⟩

end Environment

end ShaderTyping
