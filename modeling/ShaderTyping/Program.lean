import ShaderTyping.Checker

namespace ShaderTyping

/-!
# Typed programs

`inferProgram` infers every variable that is declared outside the native scope.
`checkProgram` runs the standard checkers first and quantifies what is still
open afterwards, so that no placeholder is left.
-/

/-- A declared variable with its type. -/
structure TypedDeclaration where
  scope : ScopeId
  name : String
  expr : ExprId
  ty : Ty
  deriving Repr, DecidableEq

/-- The variables of a program with their types, by scope and name. -/
structure TypedProgram where
  declarations : List TypedDeclaration
  deriving Repr, DecidableEq

namespace TypedProgram

/-- The variable that a scope itself declares under a name. -/
def find? (program : TypedProgram) (scope : ScopeId) (name : String) :
    Option TypedDeclaration :=
  program.declarations.find? fun declaration =>
    declaration.scope == scope && declaration.name == name

/-- The type of the variable that a scope itself declares under a name. -/
def typeOf? (program : TypedProgram) (scope : ScopeId) (name : String) : Option Ty :=
  (program.find? scope name).map TypedDeclaration.ty

end TypedProgram

namespace Program

/-- The variables declared outside the native scope. -/
def userVariables (env : Environment) : List (Declaration Expr) :=
  env.declared.values.entries.filter fun declaration =>
    !declaration.scope.isNative

/-- What the inference of some declarations has come to. -/
structure Progress where
  typed : List TypedDeclaration
  errors : List InferError
  deriving Repr

/-- Infer one more declaration; each error is listed once. -/
def inferNext (progress : Progress) (declaration : Declaration Expr) :
    Action ε Progress := do
  match ← Action.attempt (inferDeclaration declaration.scope declaration.name) with
  | .ok (some ty) =>
      let typed : TypedDeclaration :=
        { scope := declaration.scope
          name := declaration.name
          expr := declaration.value.id
          ty := ty }
      pure { progress with typed := progress.typed ++ [typed] }
  | .ok none => pure progress
  | .error error =>
      if progress.errors.contains error then
        pure progress
      else
        pure { progress with errors := progress.errors ++ [error] }

end Program

/-- Infer every variable outside the native scope and report all that fail. -/
def inferProgram : Action Report TypedProgram := do
  let env ← Action.environment
  let progress ← (Program.userVariables env).foldlM Program.inferNext ⟨[], []⟩
  if progress.errors.isEmpty then
    let env ← Action.environment
    pure ⟨progress.typed.map fun declaration =>
      { declaration with ty := env.resolve declaration.ty }⟩
  else
    Action.fail ⟨progress.errors.map InferError.toDiagnostic⟩

/-- Check a program, infer it, and quantify what is still open. -/
def checkProgram : Action Report TypedProgram := do
  Checker.run Checker.standard
  let program ← inferProgram
  let declarations ← program.declarations.mapM fun declaration => do
    let ty ← Environment.close declaration.ty
    pure { declaration with ty := ty }
  pure ⟨declarations⟩

end ShaderTyping
