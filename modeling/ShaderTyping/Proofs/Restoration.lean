import ShaderTyping.Proofs.Operations

namespace ShaderTyping

/-!
# What inference restores

A run leaves the declarations, the options, the frames below the top one, and all
that is being inferred as it found them.  Fresh variables, the trace and the list
of outside values only grow.  A transaction that fails restores the top frame as
well, and every attempt to infer an expression is a transaction.
-/

namespace Environment

/-- What a run leaves as it was, and what it only adds to. -/
structure Restored (env final : Environment) : Prop where
  declared : final.declared = env.declared
  options : final.options = env.options
  below : final.frames.below = env.frames.below
  activeParams : final.context.activeParams = env.context.activeParams
  inProgress : final.context.inProgress = env.context.inProgress
  depth : final.context.depth = env.context.depth
  externals : env.context.externals <:+ final.context.externals
  placeholders : env.fresh.placeholder ≤ final.fresh.placeholder
  lengths : env.fresh.length ≤ final.fresh.length
  labels : env.fresh.label ≤ final.fresh.label
  unifications : env.trace.unifications.toList <+: final.trace.unifications.toList
  inferences : env.trace.inferences.toList <+: final.trace.inferences.toList

namespace Restored

variable {env middle final : Environment}

theorem refl (env : Environment) : Restored env env where
  declared := rfl
  options := rfl
  below := rfl
  activeParams := rfl
  inProgress := rfl
  depth := rfl
  externals := List.suffix_rfl
  placeholders := Nat.le_refl _
  lengths := Nat.le_refl _
  labels := Nat.le_refl _
  unifications := List.prefix_rfl
  inferences := List.prefix_rfl

theorem trans
    (first : Restored env middle)
    (second : Restored middle final) :
    Restored env final where
  declared := second.declared.trans first.declared
  options := second.options.trans first.options
  below := second.below.trans first.below
  activeParams := second.activeParams.trans first.activeParams
  inProgress := second.inProgress.trans first.inProgress
  depth := second.depth.trans first.depth
  externals := first.externals.trans second.externals
  placeholders := Nat.le_trans first.placeholders second.placeholders
  lengths := Nat.le_trans first.lengths second.lengths
  labels := Nat.le_trans first.labels second.labels
  unifications := first.unifications.trans second.unifications
  inferences := first.inferences.trans second.inferences

/-- Only the top frame is written. -/
theorem write (env : Environment) (change : Frame → Frame) :
    Restored env { env with frames := env.frames.write change } :=
  { refl env with }

/-- A step of unification only adds to the trace. -/
theorem traceUnify (event : UnifyEvent) (left right : Operand) (env : Environment) :
    Restored env (env.traceUnify event left right) := by
  unfold Environment.traceUnify
  split
  · refine { refl env with unifications := ?_ }
    simp [Trace.addUnification]
  · exact refl env

/-- A step of inference only adds to the trace. -/
theorem traceInfer (expr : Expr) (rule : InferRule) (ty : Ty) (env : Environment) :
    Restored env (env.traceInfer expr rule ty) := by
  unfold Environment.traceInfer
  split
  · refine { refl env with inferences := ?_ }
    simp [Trace.addInference]
  · exact refl env

/-- What unification does writes to the top frame and the trace only. -/
theorem of_binds (step : Binds env final) : Restored env final := by
  cases step with
  | note event left right => exact traceUnify event left right env
  | placeholder event left right => exact (traceUnify event left right env).trans (write _ _)
  | length event left right => exact (traceUnify event left right env).trans (write _ _)

/-- What a transaction restores of the environment around it. -/
theorem transaction
    {inner : Environment}
    (restored : Restored env.push inner)
    (keep : Bool) :
    Restored env (inner.finish keep) := by
  rw [finish_eq]
  exact
    { restored with
      below := by
        rw [FrameStack.below_finish, restored.below]
        rfl }

/-- What a run leaves as it was, by the changes that it is made of. -/
theorem of_run (run : Run env final) : Restored env final := by
  induction run with
  | refl env => exact refl env
  | trans _ _ first second => exact first.trans second
  | binds step => exact of_binds step
  | @fresh env placeholders lengths labels =>
      exact
        { refl env with
          placeholders := Nat.le_add_right _ _
          lengths := Nat.le_add_right _ _
          labels := Nat.le_add_right _ _ }
  | quantify => exact write _ _
  | markGeneric => exact write _ _
  | recordInferred => exact write _ _
  | recordParameter => exact write _ _
  | traceInfer expr rule ty => exact traceInfer expr rule ty _
  | @external env ty => exact { refl env with externals := List.suffix_cons _ _ }
  | transaction keep _ inductionHypothesis => exact inductionHypothesis.transaction keep
  | @insideFunction env inner types _ inductionHypothesis =>
      have activeParams := inductionHypothesis.activeParams
      refine { inductionHypothesis with activeParams := ?_ }
      exact congrArg List.tail activeParams
  | @insideDeclaration env inner key provisional notInProgress _ inductionHypothesis =>
      have inProgress : inner.context.inProgress = (key, provisional) :: env.context.inProgress :=
        inductionHypothesis.inProgress
      have others :
          env.context.inProgress.filter (fun entry => entry.1 != key) =
            env.context.inProgress := by
        refine List.filter_eq_self.mpr fun entry member => ?_
        rw [bne_comm]
        exact List.lookup_eq_none_iff.mp notInProgress entry member
      refine { inductionHypothesis with inProgress := ?_ }
      rw [inProgress, List.filter_cons_of_neg (by simp), others]
  | @deeper env inner _ inductionHypothesis =>
      have depth := inductionHypothesis.depth
      refine { inductionHypothesis with depth := ?_ }
      exact congrArg (· - 1) depth

/-- A failed transaction restores all frames. -/
theorem frames_of_failed
    {inner : Environment}
    (restored : Restored env.push inner) :
    (inner.finish false).frames = env.frames := by
  have below : inner.frames.below = env.frames.top :: env.frames.below := restored.below
  simp [FrameStack.finish, FrameStack.abort?, below]

end Restored

end Environment

namespace Action

/-- If the action fails, it leaves the frames as they were. -/
def FailsClean (action : Action ε α) (env : Environment) : Prop :=
  ∀ cause final, action env = .error cause final → final.frames = env.frames

namespace FailsClean

variable {env : Environment}

theorem pure (value : α) : FailsClean (Pure.pure value : Action ε α) env := by
  intro cause final failed
  cases failed

/-- Failing at once leaves everything as it was found. -/
theorem fail (cause : ε) : FailsClean (Action.fail cause : Action ε α) env := by
  intro cause final failed
  cases failed
  rfl

/-- After reading the environment an action goes on with the same environment. -/
theorem bind_environment
    {next : Environment → Action ε α}
    (clean : FailsClean (next env) env) :
    FailsClean (Action.environment >>= next) env :=
  clean

end FailsClean

end Action

namespace Inference

variable {env : Environment} {rule : Expr → Action InferError (InferRule × Ty)}

/-- An attempt fails only inside its transaction. -/
theorem attempted_failsClean
    (ruleRuns : ∀ expr env, Action.Obeys Environment.Run (rule expr) env)
    (expr : Expr)
    (previous : Option Ty) :
    (attempted rule expr previous).FailsClean env := by
  intro cause final failed
  rcases Action.bind_eq_error.mp failed with inTransaction | ⟨_, _, _, afterwards⟩
  · obtain ⟨inner, inside, rfl⟩ := Action.transaction_eq_error.mp inTransaction
    have run : Environment.Run env.push inner :=
      (transacted_run ruleRuns expr previous).of_eq_error inside
    exact (Environment.Restored.of_run run).frames_of_failed
  · cases afterwards

/-- Inference with a memory fails clean: an attempt is a transaction. -/
theorem memoized_failsClean
    (ruleRuns : ∀ expr env, Action.Obeys Environment.Run (rule expr) env)
    (expr : Expr) :
    (memoized rule expr).FailsClean env := by
  refine .bind_environment ?_
  split
  · exact .pure _
  · split
    · exact .fail _
    · exact attempted_failsClean ruleRuns _ _

/-- Inference in any number of levels fails clean. -/
theorem within_failsClean (levels : Nat) (expr : Expr) :
    (within levels expr).FailsClean env := by
  cases levels with
  | zero => exact memoized_failsClean (fun _ _ => .exhausted) expr
  | succ levels =>
      exact memoized_failsClean (fun expr _ => inferForm_run (within_run levels) expr) expr

end Inference

/--
Inference is transactional: it ends with what it found around the top frame, and
a failure leaves the top frame as it was too.
-/
theorem infer_transactional (expr : Expr) (env : Environment) :
    (∀ ty final, infer expr env = .ok ty final →
      env.Restored final ∧ final.frames.depth = env.frames.depth) ∧
    ∀ cause final, infer expr env = .error cause final →
      env.Restored final ∧ final.frames = env.frames := by
  constructor
  · intro ty final ended
    have restored := Environment.Restored.of_run ((infer_run expr env).of_eq_ok ended)
    exact ⟨restored, congrArg List.length restored.below⟩
  · intro cause final failed
    have restored := Environment.Restored.of_run ((infer_run expr env).of_eq_error failed)
    have clean : (infer expr).FailsClean env :=
      .bind_environment (Inference.within_failsClean _ expr)
    exact ⟨restored, clean cause final failed⟩

end ShaderTyping
