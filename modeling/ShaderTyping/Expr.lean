import ShaderTyping.Site
import ShaderTyping.Ty.Basic

namespace ShaderTyping

/-!
# Expressions

An expression is a `Form` at a `Site`.  The form says how the expression is made
from its direct parts, so it is generic in what the parts are.  `Expr.nodes`
lists an expression and everything inside it, each expression before its parts.
-/

/-- A literal value. -/
inductive Literal where
  | int (value : Int)
  | uint (value : Nat)
  | float (value : Float)
  | bool (value : Bool)
  deriving Repr

/-- The two kinds of values that a program receives from outside. -/
inductive ExternalKind where
  /-- An input for each vertex. -/
  | attribute
  /-- A constant for each draw call. -/
  | uniform
  deriving Repr, DecidableEq

namespace ExternalKind

/-- The word for a kind of outside value. -/
def text : ExternalKind → String
  | .attribute => "attribute"
  | .uniform => "uniform"

end ExternalKind

/-- A parameter of a function, with the type written for it. -/
structure Parameter where
  name : String
  ascription : Option Ty
  deriving Repr

/-- How an expression is made from its direct parts. -/
inductive Form (α : Type) where
  /-- A literal value. -/
  | literal (value : Literal)
  /-- An array of the given elements. -/
  | array (elements : List α)
  /-- An element of an array. -/
  | index (base position : α)
  /-- A struct of the given fields. -/
  | struct (fields : List (String × α))
  /-- A field of a struct. -/
  | field (base : α) (label : String)
  /-- A function value. -/
  | function (params : List Parameter) (body : α)
  /-- A call with the arguments from left to right. -/
  | call (callee : α) (args : List α)
  /-- A choice between two values. -/
  | conditional (condition whenTrue whenFalse : α)
  /-- A reference to a declared variable. -/
  | reference (name : String)
  /-- A value that the program receives from outside. -/
  | external (kind : ExternalKind) (name : String) (ascription : Option Ty)
  /-- The parameter at a position of a function value. -/
  | parameter (function : ExprId) (position : Nat)
  /-- An array whose elements a generator makes from their positions. -/
  | dynamicArray (length generator : α)
  /-- An overload set of values. -/
  | union (options : List α)
  /-- A built-in value of a fixed type. -/
  | native (ty : Ty)
  deriving Repr

namespace Form

/-- The direct parts of a form, in order of evaluation. -/
def children : Form α → List α
  | .array elements => elements
  | .index base position => [base, position]
  | .struct fields => fields.map Prod.snd
  | .field base _ => [base]
  | .function _ body => [body]
  | .call callee args => callee :: args
  | .conditional condition whenTrue whenFalse => [condition, whenTrue, whenFalse]
  | .dynamicArray length generator => [length, generator]
  | .union options => options
  | .literal _ | .reference _ | .external _ _ _ | .parameter _ _ | .native _ => []

/-- The types written on a form itself. -/
def ascriptions : Form α → List Ty
  | .function params _ => params.filterMap Parameter.ascription
  | .external _ _ ascription => ascription.toList
  | _ => []

/-- The outside value that a form refers to, with the type written for it. -/
def external? : Form α → Option (ExternalKind × String × Option Ty)
  | .external kind name ascription => some (kind, name, ascription)
  | _ => none

/-- Whether a form is a function value. -/
def isFunction : Form α → Bool
  | .function _ _ => true
  | _ => false

/-- A short name for a form. -/
def describe : Form α → String
  | .literal _ => "literal"
  | .array _ => "array"
  | .index _ _ => "array access"
  | .struct _ => "struct"
  | .field _ _ => "field access"
  | .function _ _ => "function"
  | .call _ _ => "call"
  | .conditional _ _ _ => "conditional"
  | .reference _ => "variable"
  | .external kind _ _ => kind.text
  | .parameter _ _ => "parameter"
  | .dynamicArray _ _ => "dynamic array"
  | .union _ => "union"
  | .native _ => "native"

end Form

/-- An expression of the shading language. -/
inductive Expr where
  | node (site : Site) (form : Form Expr)
  deriving Repr

namespace Expr

/-- Where an expression stands. -/
def site : Expr → Site
  | .node site _ => site

/-- How an expression is made. -/
def form : Expr → Form Expr
  | .node _ form => form

/-- The identity of an expression. -/
def id (expr : Expr) : ExprId :=
  expr.site.id

/-- The scope an expression was written in. -/
def scope (expr : Expr) : ScopeId :=
  expr.site.scope

/-- The source text of an expression. -/
def span (expr : Expr) : Span :=
  expr.site.span

/-- The same form at another site. -/
def moveTo (site : Site) : Expr → Expr
  | .node _ form => .node site form

mutual

/-- Put an expression and everything inside it in front of `rest`. -/
def nodesOnto : Expr → List Expr → List Expr
  | .node site form, rest => .node site form :: nodesOfFormOnto form rest
termination_by structural expr => expr

/-- Put everything inside a form in front of `rest`. -/
def nodesOfFormOnto : Form Expr → List Expr → List Expr
  | .array elements, rest => nodesOfListOnto elements rest
  | .index base position, rest => base.nodesOnto (position.nodesOnto rest)
  | .struct fields, rest => nodesOfFieldsOnto fields rest
  | .field base _, rest => base.nodesOnto rest
  | .function _ body, rest => body.nodesOnto rest
  | .call callee args, rest => callee.nodesOnto (nodesOfListOnto args rest)
  | .conditional condition whenTrue whenFalse, rest =>
      condition.nodesOnto (whenTrue.nodesOnto (whenFalse.nodesOnto rest))
  | .dynamicArray length generator, rest => length.nodesOnto (generator.nodesOnto rest)
  | .union options, rest => nodesOfListOnto options rest
  | .literal _, rest | .reference _, rest | .external _ _ _, rest
  | .parameter _ _, rest | .native _, rest => rest

/-- Put everything inside a list of expressions in front of `rest`. -/
def nodesOfListOnto : List Expr → List Expr → List Expr
  | [], rest => rest
  | expr :: others, rest => expr.nodesOnto (nodesOfListOnto others rest)

/-- Put everything inside the fields of a struct in front of `rest`. -/
def nodesOfFieldsOnto : List (String × Expr) → List Expr → List Expr
  | [], rest => rest
  | (_, expr) :: others, rest => expr.nodesOnto (nodesOfFieldsOnto others rest)

end

/-- An expression and everything inside it, each expression before its parts. -/
def nodes (expr : Expr) : List Expr :=
  expr.nodesOnto []

mutual

/-- The nodes of an expression stand in front of the rest, which stays as it is. -/
theorem nodesOnto_eq (expr : Expr) (rest : List Expr) :
    expr.nodesOnto rest = expr.nodes ++ rest := by
  match expr with
  | .node site form =>
      simp only [nodes, nodesOnto]
      rw [nodesOfFormOnto_eq form rest, nodesOfFormOnto_eq form []]
      simp

/-- Everything inside a form is everything inside its parts. -/
theorem nodesOfFormOnto_eq (form : Form Expr) (rest : List Expr) :
    nodesOfFormOnto form rest = form.children.flatMap nodes ++ rest := by
  match form with
  | .array elements =>
      simp [nodesOfFormOnto, Form.children, nodesOfListOnto_eq elements]
  | .index base position =>
      simp [nodesOfFormOnto, Form.children, nodesOnto_eq base, nodesOnto_eq position]
  | .struct fields =>
      simp [nodesOfFormOnto, Form.children, nodesOfFieldsOnto_eq fields]
  | .field base _ =>
      simp [nodesOfFormOnto, Form.children, nodesOnto_eq base]
  | .function _ body =>
      simp [nodesOfFormOnto, Form.children, nodesOnto_eq body]
  | .call callee args =>
      simp [nodesOfFormOnto, Form.children, nodesOnto_eq callee, nodesOfListOnto_eq args]
  | .conditional condition whenTrue whenFalse =>
      simp [nodesOfFormOnto, Form.children, nodesOnto_eq condition,
        nodesOnto_eq whenTrue, nodesOnto_eq whenFalse]
  | .dynamicArray length generator =>
      simp [nodesOfFormOnto, Form.children, nodesOnto_eq length, nodesOnto_eq generator]
  | .union options =>
      simp [nodesOfFormOnto, Form.children, nodesOfListOnto_eq options]
  | .literal _ | .reference _ | .external _ _ _ | .parameter _ _ | .native _ =>
      simp [nodesOfFormOnto, Form.children]

/-- The nodes of a list are the nodes of its expressions. -/
theorem nodesOfListOnto_eq (exprs rest : List Expr) :
    nodesOfListOnto exprs rest = exprs.flatMap nodes ++ rest := by
  match exprs with
  | [] => rfl
  | expr :: others =>
      rw [nodesOfListOnto, nodesOnto_eq expr, nodesOfListOnto_eq others rest,
        List.flatMap_cons, List.append_assoc]

/-- The nodes of struct fields are the nodes of their values. -/
theorem nodesOfFieldsOnto_eq (fields : List (String × Expr)) (rest : List Expr) :
    nodesOfFieldsOnto fields rest = (fields.map Prod.snd).flatMap nodes ++ rest := by
  match fields with
  | [] => rfl
  | (_, expr) :: others =>
      rw [nodesOfFieldsOnto, nodesOnto_eq expr, nodesOfFieldsOnto_eq others rest,
        List.map_cons, List.flatMap_cons, List.append_assoc]

end

/-- The nodes of an expression are itself and the nodes of its parts. -/
theorem nodes_eq (expr : Expr) :
    expr.nodes = expr :: expr.form.children.flatMap nodes := by
  obtain ⟨site, form⟩ := expr
  rw [nodes, nodesOnto, nodesOfFormOnto_eq, List.append_nil]
  rfl

end Expr

end ShaderTyping
