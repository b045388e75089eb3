import ShaderTyping.Diagnostic
import ShaderTyping.Expr
import ShaderTyping.Unification

namespace ShaderTyping

/-!
# Failures of inference

A failure names the expression at which it arose and its cause.
-/

/-- Why an expression has no type. -/
inductive InferCause where
  /-- Two types do not agree. -/
  | unify (error : UnifyError)
  /-- A variable is not declared. -/
  | undefinedVariable (name : String)
  /-- An array has no element to take its type from. -/
  | emptyArray
  /-- A struct has no field. -/
  | emptyStruct
  /-- A struct gives a field twice. -/
  | duplicateField (label : String)
  /-- An array is built with a length that is not positive. -/
  | nonPositiveLength (length : Int)
  /-- An overload set has no option. -/
  | emptyUnion
  /-- A parameter belongs to no known function. -/
  | detachedParameter (position : Nat)
  /-- Expressions are nested too deeply. -/
  | depthLimit (limit : Nat)
  deriving Repr, DecidableEq

namespace InferCause

/-- The text of a cause. -/
def message : InferCause → String
  | .unify error => error.message
  | .undefinedVariable name => "undefined variable `" ++ name ++ "`"
  | .emptyArray => "cannot infer the type of an empty array"
  | .emptyStruct => "struct literal has no fields"
  | .duplicateField label => "field `" ++ label ++ "` is given more than once"
  | .nonPositiveLength length =>
      "array length `" ++ Int.repr length ++ "` is not positive"
  | .emptyUnion => "union has no options"
  | .detachedParameter position =>
      "parameter " ++ Nat.repr position ++ " does not belong to a known function"
  | .depthLimit limit =>
      "expression nesting exceeds the inference depth limit of " ++ Nat.repr limit

/-- The category that a cause is reported under. -/
def category : InferCause → Category
  | .unify (.mismatch _ _) | .unify (.lengthMismatch _ _) => .typeMismatch
  | .unify (.occurs _ _) => .infiniteType
  | .unify (.undeclaredAlias _) => .undeclaredType
  | .unify (.noSharedFields _ _) => .missingField
  | .unify (.notAFunction _) => .notAFunction
  | .unify (.noMatchingOverload _ _) => .noMatchingOverload
  | .undefinedVariable _ => .undefinedName
  | .nonPositiveLength _ => .typeMismatch
  | .duplicateField _ => .duplicateDeclaration
  | .emptyArray | .emptyStruct | .emptyUnion | .detachedParameter _ | .depthLimit _ =>
      .inferenceIncomplete

/-- How to mend a cause, where there is something to suggest. -/
def help? : InferCause → Option String
  | .emptyArray =>
      some ("give the array at least one element, " ++
        "or build it with an iteration constructor")
  | .nonPositiveLength _ =>
      some "an iteration constructor needs at least one element"
  | .depthLimit _ =>
      some "raise `InferOptions::max_depth` or split the expression"
  | _ => none

end InferCause

/-- A failure of inference at an expression. -/
structure InferError where
  expr : ExprId
  span : Span
  cause : InferCause
  deriving Repr, DecidableEq

namespace InferError

/-- A failure at an expression. -/
def ofExpr (expr : Expr) (cause : InferCause) : InferError where
  expr := expr.id
  span := expr.span
  cause := cause

/-- The diagnostic that reports a failure. -/
def toDiagnostic (error : InferError) : Diagnostic :=
  let reported :=
    ((Diagnostic.error error.cause.category error.cause.message).about
      (.expression error.expr)).locatedIn error.span
  match error.cause.help? with
  | some help => reported.withHelp help
  | none => reported

end InferError

end ShaderTyping
