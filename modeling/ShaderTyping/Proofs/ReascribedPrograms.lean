import ShaderTyping.Proofs.CheckedPrograms
import ShaderTyping.Proofs.ConstantReferences

namespace ShaderTyping

/-!
# Programs with other types written for parameters

`Environment.reascribe` puts other types for those that a program writes for the
parameters of its functions.  Everything else stays: sites, scopes, declared types, and
the names of variables.  It is the environment that the changed program declares
(`Declarations.declareVariable_reascribe`).
-/

/-- Change the types that are written for the parameters of a function. -/
def Parameter.reascribe (change : Nat → Ty → Ty) (params : List Parameter) : List Parameter :=
  params.mapIdx fun position param =>
    { param with ascription := param.ascription.map (change position) }

namespace Expr

variable (change : ExprId → Nat → Ty → Ty)

mutual

/-- Change the types that are written for the parameters of functions inside an expression. -/
def reascribe : Expr → Expr
  | .node site form => .node site (reascribeForm site.id form)
termination_by structural expr => expr

/-- Change the types written inside a form, which is that of a function of the given identity. -/
def reascribeForm (function : ExprId) : Form Expr → Form Expr
  | .array elements => .array (reascribeList elements)
  | .index base position => .index base.reascribe position.reascribe
  | .struct fields => .struct (reascribeFields fields)
  | .field base label => .field base.reascribe label
  | .function params body =>
      .function (Parameter.reascribe (change function) params) body.reascribe
  | .call callee args => .call callee.reascribe (reascribeList args)
  | .conditional condition whenTrue whenFalse =>
      .conditional condition.reascribe whenTrue.reascribe whenFalse.reascribe
  | .dynamicArray length generator => .dynamicArray length.reascribe generator.reascribe
  | .union options => .union (reascribeList options)
  | .literal value => .literal value
  | .reference name => .reference name
  | .external kind name ascription => .external kind name ascription
  | .parameter function position => .parameter function position
  | .native ty => .native ty

/-- Change the types written inside a list of expressions. -/
def reascribeList : List Expr → List Expr
  | [] => []
  | expr :: others => expr.reascribe :: reascribeList others

/-- Change the types written inside the fields of a struct. -/
def reascribeFields : List (String × Expr) → List (String × Expr)
  | [] => []
  | (label, expr) :: others => (label, expr.reascribe) :: reascribeFields others

end

/-- Expressions in a list are reascribed one by one. -/
theorem reascribeList_eq (exprs : List Expr) :
    reascribeList change exprs = exprs.map (reascribe change) := by
  induction exprs with
  | nil => rfl
  | cons expr others inductionHypothesis => rw [reascribeList, inductionHypothesis, List.map_cons]

/-- The fields of a struct are reascribed one by one. -/
theorem reascribeFields_eq (fields : List (String × Expr)) :
    reascribeFields change fields =
      fields.map fun field => (field.1, field.2.reascribe change) := by
  induction fields with
  | nil => rfl
  | cons field others inductionHypothesis =>
      rw [reascribeFields, inductionHypothesis, List.map_cons]

/-- A reascribed expression stays where it is. -/
@[simp] theorem site_reascribe (expr : Expr) : (expr.reascribe change).site = expr.site := by
  cases expr
  rfl

/-- A reascribed expression keeps its identity. -/
@[simp] theorem id_reascribe (expr : Expr) : (expr.reascribe change).id = expr.id :=
  congrArg Site.id (site_reascribe change expr)

/-- A reascribed expression keeps its scope. -/
@[simp] theorem scope_reascribe (expr : Expr) : (expr.reascribe change).scope = expr.scope :=
  congrArg Site.scope (site_reascribe change expr)

/-- The form of a reascribed expression is the reascribed form. -/
theorem form_reascribe (expr : Expr) :
    (expr.reascribe change).form = reascribeForm change expr.id expr.form := by
  cases expr
  rfl

/-- The parts of a reascribed form are the reascribed parts. -/
theorem children_reascribeForm (function : ExprId) (form : Form Expr) :
    (reascribeForm change function form).children = form.children.map (reascribe change) := by
  cases form <;> simp [reascribeForm, Form.children, reascribeList_eq, reascribeFields_eq]

/-- A reascribed expression is a function if it was one before. -/
theorem isFunction_reascribe (expr : Expr) :
    (expr.reascribe change).form.isFunction = expr.form.isFunction := by
  rw [form_reascribe]
  cases expr.form <;> rfl

/-- What is inside a changed expression is what was inside it, changed. -/
theorem nodes_reascribe (expr : Expr) :
    (expr.reascribe change).nodes = expr.nodes.map (reascribe change) := by
  induction expr using Expr.induction with
  | node expr inductionHypothesis =>
      rw [nodes_eq, nodes_eq expr, form_reascribe, children_reascribeForm, List.map_cons,
        List.map_flatMap, List.flatMap_map]
      refine congrArg _ (List.flatMap_congr fun child isChild => ?_)
      exact inductionHypothesis child isChild

end Expr

namespace Expr

/--
Whether the types on an expression itself may be changed: those written for parameters
to types that are alike, in an expression without other than constant overload sets.
-/
def Plain (alike : Ty → Ty → Prop) (change : ExprId → Nat → Ty → Ty) (expr : Expr) : Prop :=
  match expr.form with
  | .function params _ =>
      List.Forall₂ (fun param param' => Option.Rel alike param.ascription param'.ascription)
        params (Parameter.reascribe (change expr.id) params)
  | .external _ _ ascription => ∀ ty ∈ ascription, ty.Steady
  | .native ty => ty.Steady
  | .union _ => False
  | _ => True

end Expr

/-! ## Changed tables -/

namespace DeclarationTable

variable {β : Type} (convert : α → β)

/-- Convert a declared value. -/
def convertEntry (entry : Declaration α) : Declaration β :=
  ⟨entry.scope, entry.name, convert entry.value⟩

/-- Convert all values of a table. -/
def map (table : DeclarationTable α) : DeclarationTable β where
  entries := table.entries.map (convertEntry convert)
  sorted := List.pairwise_map.mpr table.sorted

/-- Entries are found by scope and name, whatever their values are. -/
theorem find?_map (table : DeclarationTable α) (scope : ScopeId) (name : String) :
    (table.map convert).find? scope name =
      (table.find? scope name).map (convertEntry convert) := by
  rw [find?, map, List.find?_map]
  rfl

/-- What a scope declares is converted. -/
theorem local?_map (table : DeclarationTable α) (scope : ScopeId) (name : String) :
    (table.map convert).local? scope name = (table.local? scope name).map convert := by
  rw [local?, local?, find?_map, Option.map_map, Option.map_map]
  rfl

/-- What is found from a scope is converted, and found in the same scope. -/
theorem lookup?_map
    (table : DeclarationTable α)
    (tree : ScopeTree)
    (scope : ScopeId)
    (name : String) :
    (table.map convert).lookup? tree scope name =
      (table.lookup? tree scope name).map fun found => (found.1, convert found.2) := by
  rw [lookup?_eq, lookup?_eq]
  induction tree.ancestors scope with
  | nil => rfl
  | cons around rest inductionHypothesis =>
      rw [List.findSome?_cons, List.findSome?_cons, local?_map, inductionHypothesis]
      cases table.local? around name <;> rfl

/-- Converted declarations are placed in the same order. -/
theorem place_map (added : Declaration α) (entries : List (Declaration α)) :
    place (convertEntry convert added) (entries.map (convertEntry convert)) =
      (place added entries).map (convertEntry convert) := by
  induction entries with
  | nil => rfl
  | cons first rest inductionHypothesis =>
      simp only [place, List.map_cons, inductionHypothesis]
      split <;> split <;> first | rfl | contradiction

/-- A declaration is accepted or refused whatever the values are. -/
theorem insert_map (table : DeclarationTable α) (added : Declaration α) :
    (table.map convert).insert (convertEntry convert added) =
      (table.insert added).map (map convert) := by
  have sameFound := table.find?_map convert added.scope added.name
  unfold insert
  split <;> split
  · rfl
  · rename_i _ found notFound
    rw [notFound] at sameFound
    cases sameFound.symm.trans found
  · rename_i notFound _ found
    rw [found] at sameFound
    cases notFound.symm.trans sameFound
  · refine congrArg Except.ok ?_
    simp only [map, mk.injEq]
    exact place_map convert added table.entries

end DeclarationTable

/-! ## Changed programs -/

/-- Change the types that are written for the parameters of functions. -/
def Declarations.reascribe (change : ExprId → Nat → Ty → Ty) (declared : Declarations) :
    Declarations :=
  { declared with
    values := declared.values.map (Expr.reascribe change)
    functions := declared.functions.map fun function => (function.1, function.2.reascribe change) }

/-- Change the types that a program writes for the parameters of its functions. -/
def Environment.reascribe (change : ExprId → Nat → Ty → Ty) (env : Environment) : Environment :=
  { env with declared := env.declared.reascribe change }

namespace Declarations

variable (change : ExprId → Nat → Ty → Ty) (declared : Declarations)

/-- References find the reascribed declarations. -/
theorem findVariable?_reascribe (scope : ScopeId) (name : String) :
    (declared.reascribe change).findVariable? scope name =
      (declared.findVariable? scope name).map fun found => (found.1, found.2.reascribe change) :=
  DeclarationTable.lookup?_map _ declared.values declared.scopes scope name

/-- The functions of a reascribed program are the reascribed functions. -/
theorem function?_reascribe (id : ExprId) :
    (declared.reascribe change).function? id =
      (declared.function? id).map (Expr.reascribe change) := by
  change (declared.functions.map _).lookup id = (declared.functions.lookup id).map _
  induction declared.functions with
  | nil => rfl
  | cons function rest inductionHypothesis =>
      obtain ⟨other, expr⟩ := function
      rw [List.map_cons, List.lookup_cons, List.lookup_cons, inductionHypothesis]
      cases id == other <;> rfl

/-- The functions inside a reascribed expression are the reascribed ones. -/
theorem functionsIn_reascribe (expr : Expr) :
    functionsIn (expr.reascribe change) =
      (functionsIn expr).map fun function => (function.1, function.2.reascribe change) := by
  rw [functionsIn, functionsIn, Expr.nodes_reascribe, List.filter_map, List.map_map,
    List.map_reverse, List.map_map]
  have sameNodes :
      ((fun node : Expr => node.form.isFunction) ∘ Expr.reascribe change) =
        fun node => node.form.isFunction :=
    funext (Expr.isFunction_reascribe change)
  rw [sameNodes]
  refine congrArg List.reverse (List.map_congr_left fun node _ => ?_)
  simp only [Function.comp_apply, Expr.id_reascribe, Prod.mk.injEq, true_and]
  split <;> rfl

/-- A changed program is what the changed declarations make. -/
theorem declareVariable_reascribe (scope : ScopeId) (name : String) (expr : Expr) :
    (declared.reascribe change).declareVariable scope name (expr.reascribe change) =
      (declared.declareVariable scope name expr).map (reascribe change) := by
  have inserted :
      (declared.reascribe change).values.insert ⟨scope, name, expr.reascribe change⟩ =
        (declared.values.insert ⟨scope, name, expr⟩).map
          (DeclarationTable.map (Expr.reascribe change)) :=
    DeclarationTable.insert_map _ declared.values ⟨scope, name, expr⟩
  unfold declareVariable
  rw [inserted, functionsIn_reascribe]
  change (if declared.scopes.contains scope then _ else _) = _
  split
  · cases declared.values.insert ⟨scope, name, expr⟩ with
    | error cause => rfl
    | ok values =>
        refine congrArg Except.ok ?_
        simp only [reascribe, List.map_append]
  · rfl

end Declarations

end ShaderTyping
