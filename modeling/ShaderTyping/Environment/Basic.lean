import ShaderTyping.Declaration
import ShaderTyping.Frame
import ShaderTyping.Trace

namespace ShaderTyping

/-!
# Environments

An `Environment` is all that type inference works on: the declarations of a
program, the findings so far in a stack of frames, counters for fresh variables,
and what is being inferred at the moment.  Counters and traces are not part of
the frames, so they keep growing when a transaction is aborted.
-/

/-- The settings of inference. -/
structure Options where
  /-- The deepest nesting of expressions that inference follows. -/
  maxDepth : Nat
  /-- Whether steps are kept in the trace. -/
  trace : Bool
  deriving Repr, DecidableEq

namespace Options

/-- A nesting of 512 expressions and no trace. -/
def standard : Options where
  maxDepth := 512
  trace := false

end Options

/-- The scopes of a program and what is declared in them. -/
structure Declarations where
  scopes : ScopeTree
  types : DeclarationTable Ty
  values : DeclarationTable Expr
  /-- The function values inside declared variables, the latest first. -/
  functions : List (ExprId × Expr)

namespace Declarations

/-- The native scope and no declarations. -/
def empty : Declarations where
  scopes := ScopeTree.root
  types := DeclarationTable.empty
  values := DeclarationTable.empty
  functions := []

/-- Nest a new scope in an existing one. -/
def newScope (parent : ScopeId) (declared : Declarations) :
    Except DeclarationError (ScopeId × Declarations) :=
  match declared.scopes.child? parent with
  | some (scope, scopes) => .ok (scope, { declared with scopes := scopes })
  | none => .error (.unknownScope parent)

/-- Declare a type under a name. -/
def declareType (scope : ScopeId) (name : String) (ty : Ty) (declared : Declarations) :
    Except DeclarationError Declarations :=
  if declared.scopes.contains scope then do
    let types ← declared.types.insert ⟨scope, name, ty⟩
    .ok { declared with types := types }
  else
    .error (.unknownScope scope)

/--
The function values inside an expression with their identities, the last first.

Should a part carry the identity of the whole expression, the whole expression
stands for it.
-/
def functionsIn (expr : Expr) : List (ExprId × Expr) :=
  ((expr.nodes.filter fun node => node.form.isFunction).map fun node =>
    (node.id, if node.id = expr.id then expr else node)).reverse

/-- Declare a variable under a name. -/
def declareVariable (scope : ScopeId) (name : String) (expr : Expr)
    (declared : Declarations) : Except DeclarationError Declarations :=
  if declared.scopes.contains scope then do
    let values ← declared.values.insert ⟨scope, name, expr⟩
    .ok
      { declared with
        values := values
        functions := functionsIn expr ++ declared.functions }
  else
    .error (.unknownScope scope)

/-- The type that a name stands for in a scope, with the scope that declares it. -/
def findType? (declared : Declarations) (scope : ScopeId) (name : String) :
    Option (ScopeId × Ty) :=
  declared.types.lookup? declared.scopes scope name

/-- The variable that a name stands for in a scope, with the scope that declares it. -/
def findVariable? (declared : Declarations) (scope : ScopeId) (name : String) :
    Option (ScopeId × Expr) :=
  declared.values.lookup? declared.scopes scope name

/-- The function value with an identity, if it is inside a declared variable. -/
def function? (declared : Declarations) (id : ExprId) : Option Expr :=
  declared.functions.lookup id

end Declarations

/-- The numbers of the next fresh variables. -/
@[ext]
structure Counters where
  placeholder : Nat
  length : Nat
  label : Nat
  deriving Repr, DecidableEq

/-- What is being inferred at the moment. -/
structure Context where
  /-- The parameter types of the functions around the expression, innermost first. -/
  activeParams : List (List Ty)
  /-- The provisional types of the declarations that are being inferred. -/
  inProgress : List ((ScopeId × String) × Ty)
  /-- The placeholders for outside values without a written type. -/
  externals : List Ty
  /-- The number of expressions around the current one. -/
  depth : Nat
  deriving Repr

namespace Context

/-- Nothing is being inferred. -/
def idle : Context where
  activeParams := []
  inProgress := []
  externals := []
  depth := 0

end Context

/-- All that type inference works on. -/
structure Environment where
  declared : Declarations
  frames : FrameStack
  fresh : Counters
  context : Context
  options : Options
  trace : Trace

namespace Environment

/-- An environment without declarations. -/
def empty (options : Options) : Environment where
  declared := Declarations.empty
  frames := FrameStack.empty
  fresh := ⟨0, 0, 0⟩
  context := Context.idle
  options := options
  trace := Trace.empty

/-- Keep steps in the trace from now on. -/
def enableTrace (env : Environment) : Environment :=
  { env with options.trace := true }

/-- Open a transaction. -/
def push (env : Environment) : Environment :=
  { env with frames := env.frames.push }

/-- Keep the findings of the latest transaction, if one is open. -/
def commit? (env : Environment) : Option Environment :=
  env.frames.commit?.map fun frames => { env with frames := frames }

/-- Forget the findings of the latest transaction, if one is open. -/
def abort? (env : Environment) : Option Environment :=
  env.frames.abort?.map fun frames => { env with frames := frames }

/-- End the latest transaction; without an open one nothing happens. -/
def finish (keep : Bool) (env : Environment) : Environment :=
  (if keep then env.commit? else env.abort?).getD env

/-- A new placeholder of a scope. -/
def freshPlaceholder (scope : ScopeId) : StateM Environment Ty := fun env =>
  (.placeholder scope ⟨env.fresh.placeholder⟩,
    { env with fresh.placeholder := env.fresh.placeholder + 1 })

/-- A new length variable. -/
def freshLength : StateM Environment Length := fun env =>
  (.var ⟨env.fresh.length⟩,
    { env with fresh.length := env.fresh.length + 1 })

/-- A new label for a parametric type. -/
def freshLabel : StateM Environment LabelId := fun env =>
  (⟨env.fresh.label⟩, { env with fresh.label := env.fresh.label + 1 })

/-- Bind a placeholder in the top frame. -/
def bindPlaceholder (id : PlaceholderId) (ty : Ty) (env : Environment) : Environment :=
  { env with frames := env.frames.bindPlaceholder id ty }

/-- Bind a length variable in the top frame. -/
def bindLength (id : LengthId) (length : Length) (env : Environment) : Environment :=
  { env with frames := env.frames.bindLength id length }

/-- Quantify a length variable in the top frame. -/
def markGeneric (id : LengthId) (env : Environment) : Environment :=
  { env with frames := env.frames.markGeneric id }

/-- Record the type of an expression in the top frame. -/
def recordInferred (id : ExprId) (ty : Ty) (env : Environment) : Environment :=
  { env with frames := env.frames.recordInferred id ty }

/-- Record the type of a parameter in the top frame. -/
def recordParameter (function : ExprId) (position : Nat) (ty : Ty)
    (env : Environment) : Environment :=
  { env with frames := env.frames.recordParameter function position ty }

/-- Keep a step of unification, if steps are kept. -/
def traceUnify (event : UnifyEvent) (left right : Operand) (env : Environment) :
    Environment :=
  if env.options.trace then
    { env with trace := env.trace.addUnification event left right }
  else
    env

/-! ## What keeping a step changes -/

/-- A step is kept in the trace, and nowhere else. -/
theorem traceUnify_eq (event : UnifyEvent) (left right : Operand) (env : Environment) :
    env.traceUnify event left right =
      { env with trace := (env.traceUnify event left right).trace } := by
  unfold traceUnify
  split <;> rfl

/-- A step of unification declares nothing. -/
@[simp] theorem declared_traceUnify (event : UnifyEvent) (left right : Operand)
    (env : Environment) :
    (env.traceUnify event left right).declared = env.declared := by
  rw [traceUnify_eq]

/-- A step of unification writes to no frame. -/
@[simp] theorem frames_traceUnify (event : UnifyEvent) (left right : Operand)
    (env : Environment) :
    (env.traceUnify event left right).frames = env.frames := by
  rw [traceUnify_eq]

/-! ## What the end of a transaction changes -/

/-- A transaction ends in the frames, and nowhere else. -/
theorem finish_eq (keep : Bool) (env : Environment) :
    env.finish keep = { env with frames := env.frames.finish keep } := by
  cases keep with
  | true =>
      cases committed : env.frames.commit? <;>
        simp [finish, commit?, FrameStack.finish, committed]
  | false =>
      cases aborted : env.frames.abort? <;>
        simp [finish, abort?, FrameStack.finish, aborted]

/-- The end of a transaction keeps all declarations. -/
@[simp] theorem declared_finish (keep : Bool) (env : Environment) :
    (env.finish keep).declared = env.declared := by
  rw [finish_eq]

/-- The end of a transaction commits or aborts the top frame. -/
@[simp] theorem frames_finish (keep : Bool) (env : Environment) :
    (env.finish keep).frames = env.frames.finish keep := by
  rw [finish_eq]

/-- The end of a transaction takes no fresh number back. -/
@[simp] theorem fresh_finish (keep : Bool) (env : Environment) :
    (env.finish keep).fresh = env.fresh := by
  rw [finish_eq]

/-- The end of a transaction leaves the context as it is. -/
@[simp] theorem context_finish (keep : Bool) (env : Environment) :
    (env.finish keep).context = env.context := by
  rw [finish_eq]

/-- The end of a transaction keeps the trace, also when it aborts. -/
@[simp] theorem trace_finish (keep : Bool) (env : Environment) :
    (env.finish keep).trace = env.trace := by
  rw [finish_eq]

end Environment

end ShaderTyping
