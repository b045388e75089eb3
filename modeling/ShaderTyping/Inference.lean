import ShaderTyping.Inference.Rules

namespace ShaderTyping

/-!
# Type inference

`infer` gives an expression its type.  The type of every expression is recorded
under its identity and inferred again only while nothing is known about it.  Each
attempt is a transaction: its bindings and its result are kept together, or all
of them are forgotten.  The nesting of attempts is limited by the options.
-/

variable [Dangling]

namespace Inference

/-- Run an action one level deeper. -/
def deeper (action : Action ε α) : Action ε α :=
  action.between
    (fun env => { env with context.depth := env.context.depth + 1 })
    (fun env => { env with context.depth := env.context.depth - 1 })

/-- Apply a rule and link its type to what was recorded before. -/
def linked (rule : Expr → Action InferError (InferRule × Ty))
    (expr : Expr) (previous : Option Ty) : Action InferError (InferRule × Ty) := do
  let (name, ty) ← rule expr
  match previous with
  | some previous =>
      let ty ← blame expr (unify previous ty)
      pure (name, ty)
  | none => pure (name, ty)

/-- Apply a rule in a transaction and record the type it gives. -/
def attempted (rule : Expr → Action InferError (InferRule × Ty))
    (expr : Expr) (previous : Option Ty) : Action InferError Ty := do
  let (name, ty) ← Action.transaction do
    let (name, ty) ← deeper (linked rule expr previous)
    Action.update (Environment.recordInferred expr.id ty)
    pure (name, ty)
  Action.update (Environment.traceInfer expr name ty)
  pure ty

/-- The recorded type of an expression, or else the type that a rule gives. -/
def memoized (rule : Expr → Action InferError (InferRule × Ty))
    (expr : Expr) : Action InferError Ty := do
  let env ← Action.environment
  match (env.frames.inferred? expr.id).filter fun ty => !env.isUnbound ty with
  | some ty => pure ty
  | none =>
      if env.options.maxDepth ≤ env.context.depth then
        failAt expr (.depthLimit env.options.maxDepth)
      else
        attempted rule expr (env.frames.inferred? expr.id)

/-- Inference with a bound on the nesting of attempts. -/
def within : Nat → Expr → Action InferError Ty
  | 0 => memoized fun _ => Action.exhausted
  | levels + 1 => memoized (inferForm (within levels))

end Inference

/-- The type of an expression. -/
def infer (expr : Expr) : Action InferError Ty := do
  let env ← Action.environment
  Inference.within (env.options.maxDepth - env.context.depth) expr

/-- The generalized type of the variable that a scope itself declares, if it does. -/
def inferDeclaration (scope : ScopeId) (name : String) :
    Action InferError (Option Ty) := do
  let env ← Action.environment
  match env.declared.values.local? scope name with
  | some expr => some <$> Inference.inferDeclared infer scope name expr
  | none => pure none

end ShaderTyping
