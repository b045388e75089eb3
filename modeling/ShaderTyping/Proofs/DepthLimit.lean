import ShaderTyping.Proofs.AdjustedInference
import ShaderTyping.Proofs.Restoration

namespace ShaderTyping

/-!
# The depth limit

The depth limit decides only whether inference fails by reaching it.  What an expression comes to
under some limit without failing so, a type or another failure, it comes to under every higher
limit, and the environment that is left differs in the limit only (`infer_of_higher_limit`).
-/

/-- The depth limit is raised by some levels. -/
def Adjustment.raise (levels : Nat) : Adjustment where
  options options := { options with maxDepth := options.maxDepth + levels }
  trace := id
  addUnification _ _ _ _ _ := rfl
  addInference _ _ _ := rfl

/-- Whether inference fails by reaching a depth limit; giving no answer counts as that. -/
def InferError.IsDepthLimit : Option InferError → Prop
  | some error => ∃ limit, error.cause = .depthLimit limit
  | none => True

/-- Raising the limit excuses reaching it. -/
theorem Adjustment.raise_raises (levels : Nat) :
    (raise levels).Raises InferError.IsDepthLimit where
  le_maxDepth _ := Nat.le_add_right _ _
  excuses := .inr ⟨trivial, fun _ limit => ⟨limit, rfl⟩⟩

namespace Outcome

/-- The cause of a failure, if there is one. -/
def cause? : Outcome ε α → Option ε
  | .error cause _ => some cause
  | .ok _ _ | .exhausted => none

/-- An outcome with a cause is a failure. -/
theorem eq_error_of_cause?
    {outcome : Outcome ε α}
    {cause : ε}
    (fails : outcome.cause? = some cause) :
    ∃ final, outcome = .error cause final := by
  cases outcome with
  | ok value final => contradiction
  | error reason final =>
      cases fails
      exact ⟨final, rfl⟩
  | exhausted => contradiction

end Outcome

namespace Environment

variable {env final : Environment} {limit : Nat}

/-- The environment under another depth limit. -/
def withMaxDepth (limit : Nat) (env : Environment) : Environment :=
  { env with options.maxDepth := limit }

/-- Raising the limit by the difference sets it to the higher one. -/
theorem adjust_raise
    (higher : env.options.maxDepth ≤ limit)
    (sameOptions : final.options = env.options) :
    final.adjust (.raise (limit - env.options.maxDepth)) = final.withMaxDepth limit := by
  have raised : final.options.maxDepth + (limit - env.options.maxDepth) = limit := by
    rw [sameOptions, Nat.add_sub_cancel' higher]
  unfold adjust withMaxDepth Adjustment.raise
  dsimp only
  rw [raised]
  rfl

end Environment

/--
Raising the depth limit changes nothing but failures by the limit: what succeeds gives the same
type, what fails otherwise fails the same way, and what is left is the same apart from the limit.
-/
theorem infer_of_higher_limit
    {env : Environment}
    {limit : Nat}
    (higher : env.options.maxDepth ≤ limit)
    (expr : Expr) :
    (∀ ty final, infer expr env = .ok ty final →
      infer expr (env.withMaxDepth limit) = .ok ty (final.withMaxDepth limit)) ∧
    ∀ error final, infer expr env = .error error final →
      (∀ reached, error.cause ≠ .depthLimit reached) →
      infer expr (env.withMaxDepth limit) = .error error (final.withMaxDepth limit) := by
  have carried :=
    infer_carriesOver (Adjustment.raise_raises (limit - env.options.maxDepth)) expr env
  rw [Environment.adjust_raise higher rfl] at carried
  constructor
  · intro ty final ended
    have restored := Environment.Restored.of_run ((infer_run expr env).of_eq_ok ended)
    rw [ended] at carried
    rcases carried with isExcused | same
    · exact isExcused.elim
    · rw [same, ← Environment.adjust_raise higher restored.options]
      rfl
  · intro error final failed isOther
    have restored := Environment.Restored.of_run ((infer_run expr env).of_eq_error failed)
    rw [failed] at carried
    rcases carried with ⟨reached, isLimit⟩ | same
    · exact (isOther reached isLimit).elim
    · rw [same, ← Environment.adjust_raise higher restored.options]
      rfl

/--
With two levels an array of a number has its type and one of a number and a truth value is refused;
both stay so with three levels.  With one level the limit is reached.
-/
theorem infer_of_higher_limit_arrays :
    ∃ first second final failed error,
      first = Expr.node ⟨⟨0⟩, .native, .synthetic⟩
        (.array [.node ⟨⟨1⟩, .native, .synthetic⟩ (.literal (.int 1))]) ∧
      second = Expr.node ⟨⟨0⟩, .native, .synthetic⟩
        (.array [.node ⟨⟨1⟩, .native, .synthetic⟩ (.literal (.int 1)),
          .node ⟨⟨2⟩, .native, .synthetic⟩ (.literal (.bool true))]) ∧
      (infer first (Environment.empty ⟨1, false⟩)).cause?.map InferError.cause =
        some (.depthLimit 1) ∧
      infer first (Environment.empty ⟨2, false⟩) = .ok (.array Ty.int (.known 1)) final ∧
      infer first (Environment.empty ⟨3, false⟩) =
        .ok (.array Ty.int (.known 1)) (final.withMaxDepth 3) ∧
      error.cause = .unify (.mismatch Ty.int Ty.bool) ∧
      infer second (Environment.empty ⟨2, false⟩) = .error error failed ∧
      infer second (Environment.empty ⟨3, false⟩) = .error error (failed.withMaxDepth 3) := by
  have succeeds :
      (infer
        (.node ⟨⟨0⟩, .native, .synthetic⟩
          (.array [.node ⟨⟨1⟩, .native, .synthetic⟩ (.literal (.int 1))]))
        (Environment.empty ⟨2, false⟩)).value? = some (.array Ty.int (.known 1)) := by
    decide +kernel
  have fails :
      (infer
        (.node ⟨⟨0⟩, .native, .synthetic⟩
          (.array [.node ⟨⟨1⟩, .native, .synthetic⟩ (.literal (.int 1)),
            .node ⟨⟨2⟩, .native, .synthetic⟩ (.literal (.bool true))]))
        (Environment.empty ⟨2, false⟩)).cause? =
        some ⟨⟨2⟩, .synthetic, .unify (.mismatch Ty.int Ty.bool)⟩ := by
    decide +kernel
  obtain ⟨final, ended⟩ := Outcome.eq_ok_of_value? succeeds
  obtain ⟨failed, refused⟩ := Outcome.eq_error_of_cause? fails
  have higher : (Environment.empty ⟨2, false⟩).options.maxDepth ≤ 3 := by
    decide
  have isOther (reached : Nat) : InferCause.unify (.mismatch Ty.int Ty.bool) ≠ .depthLimit reached :=
    fun same => by cases same
  exact
    ⟨_, _, final, failed, _, rfl, rfl, by decide +kernel, ended,
      (infer_of_higher_limit higher _).1 _ _ ended, rfl, refused,
      (infer_of_higher_limit higher _).2 _ _ refused isOther⟩

end ShaderTyping
