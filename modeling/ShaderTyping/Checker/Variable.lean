import ShaderTyping.Environment.Basic

namespace ShaderTyping

/-!
# Variables without a declaration

Every reference inside a declared variable must find a declaration in the scopes
around it.
-/

namespace Environment

/-- The name of an undeclared variable, if an expression refers to one. -/
def undefinedName? (env : Environment) (expr : Expr) : Option String :=
  match expr.form with
  | .reference name =>
      if (env.declared.findVariable? expr.scope name).isNone then some name else none
  | _ => none

/-- The diagnostic for a reference to an undeclared variable. -/
def undefinedDiagnostic (expr : Expr) (name : String) : Diagnostic :=
  ((Diagnostic.error .undefinedName ("undefined variable `" ++ name ++ "`")).about
    (.expression expr.id)).locatedIn expr.span

/-- A diagnostic for every reference to an undeclared variable. -/
def undefinedVariables (env : Environment) : List Diagnostic :=
  env.declared.values.entries.flatMap fun declaration =>
    declaration.value.nodes.filterMap fun node =>
      (env.undefinedName? node).map (undefinedDiagnostic node)

end Environment

end ShaderTyping
