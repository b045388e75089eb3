import ShaderTyping.Environment.Basic
import ShaderTyping.Operator

namespace ShaderTyping

/-!
# Building programs

A `Workspace` is an environment together with the number of the next expression.
Expressions are built in a workspace, because building a function value opens a
scope for its body and declares its parameters there.  What was numbered and
declared before a refused declaration stays.
-/

/-- An environment and the number of the next expression. -/
structure Workspace where
  env : Environment
  nextExpr : Nat

/-- A step of building a program, which a refused declaration ends. -/
abbrev Build := EStateM DeclarationError Workspace

namespace Build

/-- Change the declarations, unless that is refused. -/
def declare (change : Declarations → Except DeclarationError (α × Declarations)) :
    Build α := do
  let workspace ← get
  match change workspace.env.declared with
  | .ok (value, declared) =>
      set { workspace with env.declared := declared }
      pure value
  | .error cause => throw cause

/-- Nest a new scope in an existing one. -/
def newScope (parent : ScopeId) : Build ScopeId :=
  declare fun declared => declared.newScope parent

/-- Declare a type under a name. -/
def declareType (scope : ScopeId) (name : String) (ty : Ty) : Build Unit :=
  declare fun declared => (declared.declareType scope name ty).map fun changed => ((), changed)

/-- Declare a variable under a name. -/
def declareVariable (scope : ScopeId) (name : String) (expr : Expr) : Build Unit :=
  declare fun declared =>
    (declared.declareVariable scope name expr).map fun changed => ((), changed)

/-- The identity of the next expression. -/
def reserve : Build ExprId := do
  let workspace ← get
  set { workspace with nextExpr := workspace.nextExpr + 1 }
  pure ⟨workspace.nextExpr⟩

/-- Build an expression from its parts. -/
def node (scope : ScopeId) (span : Span) (form : Form Expr) : Build Expr := do
  let id ← reserve
  pure (.node ⟨id, scope, span⟩ form)

/-- Build a call of a named function. -/
def apply (scope : ScopeId) (name : String) (args : List Expr) : Build Expr := do
  let callee ← node scope Span.synthetic (.reference name)
  node scope Span.synthetic (.call callee args)

/-- Declare the parameters of a function from a position on. -/
def declareParameters (function : ExprId) (scope : ScopeId) :
    Nat → List Parameter → Build Unit
  | _, [] => pure ()
  | position, param :: rest => do
      let parameter ← node scope Span.synthetic (.parameter function position)
      declareVariable scope param.name parameter
      declareParameters function scope (position + 1) rest

/-- Build a function value whose body lies in a scope of its own. -/
def function (scope : ScopeId) (params : List Parameter) (body : ScopeId → Build Expr) :
    Build Expr := do
  let inner ← newScope scope
  let id ← reserve
  declareParameters id inner 0 params
  let body ← body inner
  pure (.node ⟨id, scope, Span.synthetic⟩ (.function params body))

/-- Declare the names of the primitives and the built-in operators. -/
def declareNatives : Build Unit := do
  for kind in Primitive.all do
    declareType .native kind.name (.primitive kind)
  for (name, ty) in Operator.all do
    let native ← node .native Span.synthetic (.native ty)
    declareVariable .native name native

end Build

namespace Workspace

/-- A workspace without declarations. -/
def empty (options : Options) : Workspace where
  env := Environment.empty options
  nextExpr := 0

/-- A workspace with the primitives and the built-in operators. -/
def withNatives (options : Options) : Workspace :=
  match Build.declareNatives.run (empty options) with
  | .ok _ workspace | .error _ workspace => workspace

end Workspace

end ShaderTyping
