import ShaderTyping.Inference

namespace ShaderTyping

/-!
# Outside values with one type

An attribute or a uniform must have the same type wherever it is used.  The check
infers the program first.  Declarations without a type are left out, and so are
uses whose type still depends on placeholders or on parametric types.
-/

/-- A use of an outside value with its type. -/
structure ExternalUse where
  name : String
  site : Site
  ty : Ty
  deriving Repr

namespace ExternalUse

/-- A list of texts as in running text. -/
def enumerate : List String → String
  | [] => ""
  | [only] => only
  | first :: rest =>
      ", ".intercalate ((first :: rest).dropLast) ++ " and " ++
        ((first :: rest).getLastD "")

/-- The type of a use as it is quoted. -/
def quoted (use : ExternalUse) : String :=
  "`" ++ use.ty.displayText ++ "`"

/-- Point at a use that has source text. -/
def annotate (diagnostic : Diagnostic) (use : ExternalUse) : Diagnostic :=
  if use.site.span.isSynthetic then
    diagnostic
  else
    diagnostic.withNote use.site.span ("used as " ++ use.quoted ++ " here")

/-- The first uses of one outside value with each of its types. -/
def distinctTypes (uses : List ExternalUse) : List ExternalUse :=
  uses.eraseDupsBy fun first second => first.ty == second.ty

/-- The diagnostic for an outside value, if it is used with several types. -/
def conflict? (kind : ExternalKind) (name : String) (uses : List ExternalUse) :
    Option Diagnostic :=
  match distinctTypes uses with
  | first :: second :: rest =>
      let distinct := first :: second :: rest
      let message :=
        kind.text ++ " `" ++ name ++ "` is used as " ++
          enumerate (distinct.map quoted)
      let diagnostic :=
        ((Diagnostic.error .externalConflict message).about
          (.expression second.site.id)).locatedIn second.site.span
      some ((distinct.foldl annotate diagnostic).withHelp
        ("annotate `" ++ name ++ "` with one type at every use"))
  | _ => none

/-- Put a name into an ascending list of names, unless it is there. -/
def insertName (name : String) : List String → List String
  | [] => [name]
  | first :: rest =>
      if name < first then
        name :: first :: rest
      else if name = first then
        first :: rest
      else
        first :: insertName name rest

/-- The names of outside values, each once and in ascending order. -/
def names (uses : List ExternalUse) : List String :=
  uses.foldr (fun use names => insertName use.name names) []

/-- The diagnostics for all outside values, by name. -/
def conflicts (kind : ExternalKind) (uses : List ExternalUse) : List Diagnostic :=
  (names uses).filterMap fun name =>
    conflict? kind name (uses.filter fun use => use.name == name)

end ExternalUse

namespace Environment

/-- The expanded type of an expression, if it depends on no type variable. -/
def groundType? (env : Environment) (id : ExprId) : Option Ty :=
  ((env.typeOf? id).map env.expand).filter fun ty => ty.vars.all Var.isLength

/-- The use of an outside value of a kind, if an expression is one. -/
def externalUse? (env : Environment) (node : Expr) : Option ExternalUse := do
  let (_, name, _) ← node.form.external?
  let ty ← env.groundType? node.id
  some ⟨name, node.site, ty⟩

/-- Whether an expression refers to an outside value of a kind. -/
def refersTo (kind : ExternalKind) (node : Expr) : Bool :=
  (node.form.external?.map Prod.fst) == some kind

/-- The uses of outside values of a kind in some declarations, each expression once. -/
def externalUses (env : Environment) (kind : ExternalKind)
    (declarations : List (Declaration Expr)) : List ExternalUse :=
  let nodes := (declarations.flatMap fun declaration => declaration.value.nodes).filter
    (refersTo kind)
  (nodes.eraseDupsBy fun first second => first.id == second.id).filterMap env.externalUse?

/-- Infer a declaration and tell whether that failed. -/
def fails (declaration : Declaration Expr) : Action ε Bool := do
  match ← Action.attempt (inferDeclaration declaration.scope declaration.name) with
  | .ok _ => pure false
  | .error _ => pure true

/-- The declarations that have a type, among all of them and with the native ones. -/
def inferable : List (Declaration Expr) → Action ε (List (Declaration Expr))
  | [] => pure []
  | declaration :: rest => do
      let failed ← if declaration.scope.isNative then pure false else fails declaration
      let others ← inferable rest
      pure (if failed then others else declaration :: others)

/-- Infer the program and report the outside values of a kind with several types. -/
def externalConflicts (kind : ExternalKind) : Action ε (List Diagnostic) := do
  let env ← Action.environment
  let declarations ← inferable env.declared.values.entries
  let env ← Action.environment
  pure (ExternalUse.conflicts kind (env.externalUses kind declarations))

end Environment

end ShaderTyping
