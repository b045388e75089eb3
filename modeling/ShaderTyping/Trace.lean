import ShaderTyping.Expr
import ShaderTyping.Ty.Text

namespace ShaderTyping

/-!
# Traces

On request an environment keeps the steps of unification and inference, so that
tools can show how a type came about.  A step holds the types themselves; their
texts are written when the trace is read.
-/

/-- What happened in a step of unification. -/
inductive UnifyEvent where
  /-- The two sides are equal. -/
  | identity
  /-- Two arrays are unified part by part. -/
  | splitArray
  /-- Two functions are unified part by part. -/
  | splitFunction
  /-- A placeholder is bound to a type. -/
  | bind (id : PlaceholderId) (ty : Ty)
  /-- A length variable is bound to a length. -/
  | bindLength (id : LengthId) (length : Length)
  /-- A reference is replaced by what it stands for. -/
  | expand (reference definition : Ty)
  /-- `int` and `float` become `float`. -/
  | widen
  /-- Two structs keep the fields they share. -/
  | meet (labels : List String)
  /-- A member of an overload set is tried on arguments. -/
  | overload (arguments : Nat)
  /-- A placeholder occurs in the type it would be bound to. -/
  | occursCheck
  /-- Two types do not fit together. -/
  | mismatch
  /-- Two structs have no field in common. -/
  | noSharedField
  deriving Repr

namespace UnifyEvent

/-- The name of the action that an event belongs to. -/
def action : UnifyEvent → String
  | .identity => "identity"
  | .splitArray | .splitFunction => "decompose"
  | .bind _ _ => "bind"
  | .bindLength _ _ => "bind_length"
  | .expand _ _ => "expand_alias"
  | .widen => "widen"
  | .meet _ => "meet"
  | .overload _ => "overload"
  | .occursCheck => "occurs_check"
  | .mismatch | .noSharedField => "error"

/-- The text that explains an event. -/
def detail : UnifyEvent → String
  | .identity => "types already equal"
  | .splitArray => "a[n] ~ b[m] -> unify components and lengths"
  | .splitFunction => "a -> b ~ c -> d -> unify params and returns"
  | .bind id ty => (Var.placeholder id).rawName ++ " := " ++ ty.displayText
  | .bindLength id length => (Var.length id).rawName ++ " := " ++ length.rawText
  | .expand reference definition =>
      reference.rawText ++ " := " ++ definition.displayText
  | .widen => "int and float widen to float"
  | .meet labels => "keep \x7b " ++ ", ".intercalate labels ++ " \x7d"
  | .overload arguments =>
      "try overload with " ++ Nat.repr arguments ++ " argument(s)"
  | .occursCheck => "placeholder occurs in the type it would be bound to"
  | .mismatch => "type mismatch"
  | .noSharedField => "no shared field"

end UnifyEvent

/-- One side of a step of unification. -/
inductive Operand where
  | type (ty : Ty)
  | length (length : Length)
  deriving Repr

namespace Operand

/-- The text of a side: types as users see them, lengths with their numbers. -/
def text : Operand → String
  | .type ty => ty.displayText
  | .length bound => bound.rawText

end Operand

/-- A numbered step of unification. -/
structure UnifyStep where
  number : Nat
  event : UnifyEvent
  left : Operand
  right : Operand
  deriving Repr

/-- The rule that gave an expression its type. -/
inductive InferRule where
  | literal
  | array
  | index
  | struct
  | field
  | lambda
  | call
  | conditional
  | reference
  | external
  | parameter
  | dynamicArray
  | union
  | native
  deriving Repr, DecidableEq

namespace InferRule

/-- The name of a rule. -/
def name : InferRule → String
  | .literal => "literal"
  | .array => "array"
  | .index => "index"
  | .struct => "struct"
  | .field => "field_access"
  | .lambda => "lambda"
  | .call => "call"
  | .conditional => "if"
  | .reference => "var_lookup"
  | .external => "external"
  | .parameter => "parameter"
  | .dynamicArray => "dynamic_array"
  | .union => "union"
  | .native => "native"

end InferRule

/-- A rule that gave an expression its type. -/
structure InferStep where
  site : Site
  description : String
  rule : InferRule
  ty : Ty
  deriving Repr

namespace InferStep

/-- The text that identifies the expression. -/
def subject (step : InferStep) : String :=
  "#" ++ Nat.repr step.site.id.number ++ " " ++ step.description

/-- The text that tells the scope of the expression. -/
def detail (step : InferStep) : String :=
  "scope " ++ step.site.scope.text

end InferStep

/-- The steps that were kept, oldest first. -/
structure Trace where
  unifications : Array UnifyStep
  inferences : Array InferStep
  deriving Repr

namespace Trace

/-- The trace without steps. -/
def empty : Trace where
  unifications := #[]
  inferences := #[]

/-- Add a step of unification under the next number. -/
def addUnification (event : UnifyEvent) (left right : Operand) (trace : Trace) : Trace :=
  { trace with
    unifications := trace.unifications.push
      { number := trace.unifications.size + 1
        event := event
        left := left
        right := right } }

/-- Add a step of inference. -/
def addInference (step : InferStep) (trace : Trace) : Trace :=
  { trace with inferences := trace.inferences.push step }

end Trace

end ShaderTyping
