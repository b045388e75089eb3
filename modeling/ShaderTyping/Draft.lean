import ShaderTyping.Workspace

namespace ShaderTyping

/-!
# Drafts of expressions

A draft is an expression without identities and scopes, as a reader of source
text produces it.  Building a draft in a workspace gives every expression its
identity after its parts, opens a scope for the body of each function and
declares the parameters there.
-/

/-- An expression that has not been numbered. -/
inductive Draft where
  /-- A form whose parts lie in the same scope. -/
  | plain (form : Form Draft)
  /-- A function value whose body lies in a scope of its own. -/
  | function (params : List Parameter) (body : Draft)
  /-- A call of a named function. -/
  | apply (name : String) (args : List Draft)
  /-- A draft with a scope, a source text or an identity given beforehand. -/
  | placed (scope : Option ScopeId) (span : Option Span) (id : Option ExprId)
      (inner : Draft)

namespace Draft

/-- Give an expression another source text or identity. -/
def relocate (span : Option Span) (id : Option ExprId) (expr : Expr) : Expr :=
  expr.moveTo
    { expr.site with
      span := span.getD expr.span
      id := id.getD expr.id }

mutual

/-- Build a draft in a scope. -/
def build : Draft → ScopeId → Build Expr
  | .plain form, scope => do
      let form ← buildForm form scope
      Build.node scope Span.synthetic form
  | .function params body, scope => Build.function scope params body.build
  | .apply name args, scope => do
      let args ← buildList args scope
      Build.apply scope name args
  | .placed around span id inner, scope => do
      let expr ← inner.build (around.getD scope)
      pure (relocate span id expr)

/-- Build the parts of a form in order of evaluation. -/
def buildForm : Form Draft → ScopeId → Build (Form Expr)
  | .literal value, _ => pure (.literal value)
  | .array elements, scope => do
      pure (.array (← buildList elements scope))
  | .index base position, scope => do
      let base ← base.build scope
      let position ← position.build scope
      pure (.index base position)
  | .struct fields, scope => do
      pure (.struct (← buildFields fields scope))
  | .field base label, scope => do
      pure (.field (← base.build scope) label)
  | .function params body, scope => do
      pure (.function params (← body.build scope))
  | .call callee args, scope => do
      let callee ← callee.build scope
      let args ← buildList args scope
      pure (.call callee args)
  | .conditional condition whenTrue whenFalse, scope => do
      let condition ← condition.build scope
      let whenTrue ← whenTrue.build scope
      let whenFalse ← whenFalse.build scope
      pure (.conditional condition whenTrue whenFalse)
  | .reference name, _ => pure (.reference name)
  | .external kind name ascription, _ => pure (.external kind name ascription)
  | .parameter owner position, _ => pure (.parameter owner position)
  | .dynamicArray length generator, scope => do
      let length ← length.build scope
      let generator ← generator.build scope
      pure (.dynamicArray length generator)
  | .union options, scope => do
      pure (.union (← buildList options scope))
  | .native ty, _ => pure (.native ty)

/-- Build drafts one after the other. -/
def buildList : List Draft → ScopeId → Build (List Expr)
  | [], _ => pure []
  | draft :: rest, scope => do
      let expr ← draft.build scope
      let others ← buildList rest scope
      pure (expr :: others)

/-- Build the values of fields one after the other. -/
def buildFields : List (String × Draft) → ScopeId → Build (List (String × Expr))
  | [], _ => pure []
  | (label, draft) :: rest, scope => do
      let expr ← draft.build scope
      let others ← buildFields rest scope
      pure ((label, expr) :: others)

end

end Draft

end ShaderTyping
