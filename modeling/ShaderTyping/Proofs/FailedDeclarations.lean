import ShaderTyping.Proofs.DeclarationTypes

namespace ShaderTyping

/-!
# What a failed declaration leaves

Inferring a declared variable can fail in two places.  The inference of its expression is a
transaction, so a failure there forgets everything.  The type of the expression is then unified
with the provisional type of the variable, outside of any transaction: a failure there leaves
what the expression has recorded.  It can only happen if the variable is used in its own
expression, so that its provisional type is bound or occurs in the type of the expression.
-/

/-! ## Unification with an untouched placeholder -/

namespace Unification

variable {env : Environment} {id : PlaceholderId} {ty : Ty}

/-- A placeholder can be bound to a type in which it does not occur. -/
theorem bind_succeeds
    (notInside : env.occurs id (env.follow ty) = false)
    (scope : ScopeId) :
    ∃ final, bind scope id ty env = .ok (env.follow ty) final := by
  rw [bind, Action.environment_bind]
  split
  · exact ⟨env, rfl⟩
  · rw [notInside]
    exact ⟨_, rfl⟩

/-- An unbound placeholder agrees with every type in which it does not occur. -/
theorem within_succeeds
    (unbound : env.binding? id = none)
    (notInside : env.occurs id (env.follow ty) = false)
    (scope : ScopeId)
    (steps : Nat) :
    ∃ result final, within (steps + 1) (.placeholder scope id) ty env = .ok result final := by
  rw [within, step]
  split
  · exact ⟨_, _, rfl⟩
  · rw [Action.environment_bind, unbound]
    exact ⟨_, bind_succeeds notInside scope⟩

end Unification

/-- An unbound placeholder is unified with a type in which it does not occur. -/
theorem unify_succeeds
    {env : Environment}
    {id : PlaceholderId}
    {ty : Ty}
    (unbound : env.binding? id = none)
    (notInside : env.occurs id (env.follow ty) = false)
    (scope : ScopeId) :
    ∃ result final, unify (.placeholder scope id) ty env = .ok result final := by
  obtain ⟨result, final, ended⟩ := Unification.within_succeeds unbound notInside scope 999
  exact ⟨result, final, by rw [unify, Action.orElse, Unification.usualNesting, ended]⟩

/-! ## Declarations -/

namespace Environment

/--
The expression of a declared variable has a type, and inferring it has used the provisional
type of the variable: that is bound, or it occurs in the type of the expression.
-/
def UsesItself (env : Environment) (scope : ScopeId) (name : String) (expr : Expr) : Prop :=
  ∃ ty after,
    infer expr (env.begun scope name) = .ok ty after ∧
      (after.binding? ⟨env.fresh.placeholder⟩ ≠ none ∨
        after.occurs ⟨env.fresh.placeholder⟩ (after.follow ty) = true)

end Environment

variable {env final : Environment} {scope : ScopeId} {name : String} {cause : InferError}

/-- A declaration fails in its expression or in unifying the type with the provisional one. -/
theorem exists_failure_of_inferDeclared
    {expr : Expr}
    (failed : Inference.inferDeclared infer scope name expr env = .error cause final) :
    ∃ inner, final = inner.ended scope name ∧
      (infer expr (env.begun scope name) = .error cause inner ∨
        ∃ ty after reason,
          infer expr (env.begun scope name) = .ok ty after ∧
            unify (env.provisional scope) ty after = .error reason inner) := by
  rw [Inference.inferDeclared, Action.environment_bind] at failed
  cases inProgress : env.context.inProgress.lookup (scope, name) with
  | some provisional =>
      rw [inProgress] at failed
      cases failed
  | none =>
      rw [inProgress] at failed
      obtain isFresh | ⟨_, _, isFresh, remaining⟩ := Action.bind_eq_error.mp failed <;>
        cases isFresh
      obtain inside | ⟨_, _, _, isGeneral⟩ := Action.bind_eq_error.mp remaining
      · obtain ⟨inner, insideFailed, rfl⟩ := Action.between_eq_error.mp inside
        refine ⟨inner, rfl, ?_⟩
        rcases Action.bind_eq_error.mp insideFailed with
          inferenceFailed | ⟨ty, after, inferred, unifying⟩
        · exact Or.inl inferenceFailed
        · obtain ⟨reason, unifyFailed, _⟩ := Action.mapError_eq_error.mp unifying
          exact Or.inr ⟨ty, after, reason, inferred, unifyFailed⟩
      · cases isGeneral

/-- A declared variable fails where its expression or the unification after it fails. -/
theorem exists_failure_of_inferDeclaration
    (failed : inferDeclaration scope name env = .error cause final) :
    ∃ expr, env.declared.values.local? scope name = some expr ∧
      ∃ inner, final = inner.ended scope name ∧
        (infer expr (env.begun scope name) = .error cause inner ∨
          ∃ ty after reason,
            infer expr (env.begun scope name) = .ok ty after ∧
              unify (env.provisional scope) ty after = .error reason inner) := by
  rw [inferDeclaration, Action.environment_bind] at failed
  cases isDeclared : env.declared.values.local? scope name with
  | none =>
      rw [isDeclared] at failed
      cases failed
  | some expr =>
      rw [isDeclared] at failed
      obtain inferring | ⟨_, _, _, isPure⟩ := Action.bind_eq_error.mp failed
      · obtain ⟨inner, isEnded, failure⟩ := exists_failure_of_inferDeclared inferring
        exact ⟨expr, rfl, inner, isEnded, failure⟩
      · cases isPure

/--
A failed declaration restores all frames and what is in progress, unless the expression of the
variable has a type and uses the variable itself.
-/
theorem failed_declaration_restores
    (failed : inferDeclaration scope name env = .error cause final) :
    ∃ expr, env.declared.values.local? scope name = some expr ∧
      (env.Restored final ∧ final.frames.depth = env.frames.depth) ∧
      (final.frames = env.frames ∨ env.UsesItself scope name expr) := by
  obtain ⟨expr, isDeclared, inner, rfl, failure⟩ := exists_failure_of_inferDeclaration failed
  have restored :=
    Environment.Restored.of_run ((inferDeclaration_run scope name env).of_eq_error failed)
  refine ⟨expr, isDeclared, ⟨restored, congrArg List.length restored.below⟩, ?_⟩
  rcases failure with inferenceFailed | ⟨ty, after, reason, inferred, unifyFailed⟩
  · exact Or.inl ((infer_transactional expr _).2 _ _ inferenceFailed).2
  · refine Or.inr ⟨ty, after, inferred, ?_⟩
    by_contra unused
    rw [not_or, not_not, Bool.not_eq_true] at unused
    obtain ⟨result, left, agreed⟩ := unify_succeeds unused.1 unused.2 scope
    rw [Environment.provisional, agreed] at unifyFailed
    cases unifyFailed

/-! ## A declaration that contains itself -/

namespace FailedDeclaration

open MutualCalls (node)

/-- The array that a variable declares whose only element is the variable. -/
def nested : Expr :=
  node 1 1 (.array [node 0 1 (.reference "f")])

/-- A position of the wrong type. -/
def misplaced : Expr :=
  node 2 1 (.index
    (node 3 1 (.array [node 4 1 (.literal (.int 1))]))
    (node 5 1 (.literal (.bool true))))

/-- The program `f = [f]` and `g = [1][true]`. -/
def operations : List Operation :=
  [.newScope .native, .declareVariable ⟨1⟩ "f" nested, .declareVariable ⟨1⟩ "g" misplaced]

/-- Both variables fail; the first one after its expression has recorded its type. -/
theorem computed :
    ((Operation.performAll operations (.empty Options.standard)).map fun env =>
        ((decide env.exprIds.Nodup, env.frames.inferred? nested.id,
            match inferDeclaration ⟨1⟩ "f" env with
            | .error _ final => final.frames.inferred? nested.id
            | _ => none),
          match inferDeclaration ⟨1⟩ "g" env with
          | .error _ _ => (infer misplaced (env.begun ⟨1⟩ "g")).value?.isNone
          | _ => false)) =
      some ((true, none, some (Ty.array (.placeholder ⟨1⟩ ⟨0⟩) (.known 1))), true) := by
  decide +kernel

/-- The expression of the second variable. -/
theorem declared :
    (Operation.performAll operations (.empty Options.standard)).map
        (fun env => env.declared.values.local? ⟨1⟩ "g") =
      some (some misplaced) :=
  rfl

/-- The environment in which the program is declared, and how its variables fail there. -/
theorem exists_env :
    ∃ env,
      (Operation.performAll operations (.empty Options.standard) = some env ∧ env.exprIds.Nodup) ∧
        (∃ cause final,
          inferDeclaration ⟨1⟩ "f" env = .error cause final ∧ final.frames ≠ env.frames) ∧
        ∃ cause final expr,
          inferDeclaration ⟨1⟩ "g" env = .error cause final ∧
            (env.declared.values.local? ⟨1⟩ "g" = some expr ∧ ¬ env.UsesItself ⟨1⟩ "g" expr) := by
  obtain ⟨env, performed, shown⟩ := Option.map_eq_some_iff.mp computed
  simp only [Prod.mk.injEq, decide_eq_true_eq] at shown
  obtain ⟨⟨distinct, before, after⟩, fails⟩ := shown
  have isDeclared := declared
  rw [performed, Option.map_some, Option.some.injEq] at isDeclared
  refine ⟨env, ⟨performed, distinct⟩, ?_, ?_⟩
  · split at after
    · rename_i cause final failed
      refine ⟨cause, final, failed, fun same => ?_⟩
      rw [same, before] at after
      cases after
    · cases after
  · split at fails
    · rename_i cause final failed
      refine ⟨cause, final, misplaced, failed, isDeclared, ?_⟩
      rintro ⟨ty, left, inferred, _⟩
      rw [inferred] at fails
      cases fails
    · cases fails

end FailedDeclaration

/-- A variable that is declared to be an array of itself fails, and its expression keeps a type. -/
theorem failed_declaration_leaves_types :
    ∃ operations env cause final,
      ((∀ operation ∈ operations, operation.isDeclaration = true) ∧
        Operation.performAll operations (.empty Options.standard) = some env ∧
        env.exprIds.Nodup) ∧
      inferDeclaration ⟨1⟩ "f" env = .error cause final ∧
      final.frames ≠ env.frames := by
  obtain ⟨env, ⟨performed, distinct⟩, ⟨cause, final, failed, changed⟩, _⟩ :=
    FailedDeclaration.exists_env
  exact ⟨_, env, cause, final, ⟨by decide, performed, distinct⟩, failed, changed⟩

/-- A declaration whose expression fails restores all frames. -/
theorem failed_declaration_restores_misplacedPosition :
    ∃ env cause final,
      Operation.performAll FailedDeclaration.operations (.empty Options.standard) = some env ∧
        inferDeclaration ⟨1⟩ "g" env = .error cause final ∧
        final.frames = env.frames ∧
        final.context.inProgress = env.context.inProgress := by
  obtain ⟨env, ⟨performed, _⟩, _, cause, final, expr, failed, isDeclared, unused⟩ :=
    FailedDeclaration.exists_env
  obtain ⟨_, isDeclared', ⟨restored, _⟩, unchanged | used⟩ := failed_declaration_restores failed
  · exact ⟨env, cause, final, performed, failed, unchanged, restored.inProgress⟩
  · rw [isDeclared] at isDeclared'
    cases isDeclared'
    exact absurd used unused

end ShaderTyping
