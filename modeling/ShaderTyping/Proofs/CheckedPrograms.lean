import ShaderTyping.Proofs.AliasCheck
import ShaderTyping.Proofs.Descent
import ShaderTyping.Proofs.Preservation
import ShaderTyping.Proofs.Restoration
import ShaderTyping.Proofs.SkippedDeclarations

namespace ShaderTyping

/-!
# Programs that pass the checks

In a program without bad references every type that is written somewhere refers to
declared types only, and every variable that an expression refers to is declared.
`Environment.Checked` says so of all that inference has found out about such a
program, together with what inference relies on: nothing leads back to itself, and
an expression whose type is recorded has parts whose types are recorded.  Heads of
types are never references there.
-/

/-! ## References and declared types -/

/-- The references in a type are declared. -/
def Declarations.Covers (declared : Declarations) (ty : Ty) : Prop :=
  ∀ scope name, .named scope name ∈ ty.leaves → (declared.findType? scope name).isSome

namespace Ty

/-- The references in a type are its leaves of this form. -/
theorem mem_references {ty : Ty} {scope : ScopeId} {name : String} :
    (scope, name) ∈ ty.references ↔ .named scope name ∈ ty.leaves := by
  constructor
  · intro member
    obtain ⟨leaf, isLeaf, isNamed⟩ := List.mem_filterMap.mp member
    split at isNamed
    · cases isNamed
      exact isLeaf
    · contradiction
  · exact fun member => List.mem_filterMap.mpr ⟨_, member, rfl⟩

/-- That references are declared. -/
def Invariant.covered (declared : Declarations) : Invariant where
  holds := declared.Covers
  holdsLength _ := True
  primitive kind := by simp [Declarations.Covers]
  placeholder scope id := by simp [Declarations.Covers]
  parametric scope label := by simp [Declarations.Covers]
  array := by simp [Declarations.Covers]
  function := by
    intro param result
    simp only [Declarations.Covers, leaves_function, List.mem_append]
    constructor
    · exact fun covers =>
        ⟨fun scope name member => covers scope name (Or.inl member),
          fun scope name member => covers scope name (Or.inr member)⟩
    · rintro ⟨paramCovers, resultCovers⟩ scope name (inParam | inResult)
      · exact paramCovers scope name inParam
      · exact resultCovers scope name inResult
  field covers field isField scope name member := by
    refine covers scope name ?_
    rw [leaves_struct]
    exact List.mem_flatMap.mpr ⟨field, isField, member⟩
  struct _ _ _ each scope name member := by
    rw [leaves_struct] at member
    obtain ⟨field, isField, inField⟩ := List.mem_flatMap.mp member
    exact each field isField scope name inField
  ofFields _ each scope name member := by
    rw [Ty.ofFields, leaves_struct] at member
    obtain ⟨field, isField, inField⟩ := List.mem_flatMap.mp member
    exact each field (mem_of_mem_sortFields field isField) scope name inField
  member covers part isMember scope name member := by
    refine covers scope name ?_
    rw [leaves_union]
    exact List.mem_flatMap.mpr ⟨part, isMember, member⟩
  rebuilt _ _ each scope name member := by
    obtain ⟨part, isPart, inPart⟩ := mem_collect_ofMembers member
    exact each part isPart scope name inPart
  ofMembers {types ty} each isUnion scope name member := by
    have rebuilt : (Ty.ofMembers types).getD (.union []) = ty := by rw [isUnion]; rfl
    rw [← rebuilt] at member
    obtain ⟨part, isPart, inPart⟩ := mem_collect_ofMembers member
    exact each part isPart scope name inPart
  known _ := trivial
  var _ := trivial

end Ty

namespace Environment

variable {env final : Environment}

/-- A covered reference stands for a type. -/
theorem definition?_of_covers
    {ty : Ty}
    (covers : env.declared.Covers ty)
    {scope : ScopeId}
    {name : String}
    (isLeaf : .named scope name ∈ ty.leaves) :
    ∃ key definition, env.definition? scope name = some (key, definition) := by
  obtain ⟨⟨declaredIn, definition⟩, isFound⟩ :=
    Option.isSome_iff_exists.mp (covers scope name isLeaf)
  refine ⟨(declaredIn, name), definition, ?_⟩
  rw [definition?, isFound]
  rfl

/-- The head of a type is not a reference if all references are declared. -/
theorem head_ne_named
    (acyclic : env.Acyclic)
    (satisfied : env.Satisfies (.covered env.declared))
    {ty : Ty}
    (covers : env.declared.Covers ty)
    (scope : ScopeId)
    (name : String) :
    env.head ty ≠ .named scope name := by
  intro isNamed
  have headCovers : env.declared.Covers (env.head ty) := satisfied.head covers
  rw [isNamed] at headCovers
  obtain ⟨key, definition, isDefined⟩ :=
    definition?_of_covers headCovers (List.mem_singleton_self _)
  rw [definition?_of_head_eq acyclic isNamed] at isDefined
  contradiction

/-! ## What a run keeps -/

/-- A write that keeps the bindings closes no cycle. -/
theorem Acyclic.write
    {change : Frame → Frame}
    (acyclic : env.Acyclic)
    (kept : (change env.frames.top).placeholders = env.frames.top.placeholders) :
    Acyclic { env with frames := env.frames.write change } := by
  refine acyclic.congr (standsFor?_congr rfl fun id => ?_)
  have sameEntry :
      (change env.frames.top).placeholders[id]? = env.frames.top.placeholders[id]? := by
    rw [kept]
  change (env.frames.write change).placeholder? id = env.frames.placeholder? id
  exact FrameStack.read_write_of_eq sameEntry

/-- After a commit nothing leads back to itself either. -/
theorem acyclic_finish
    (acyclic : env.Acyclic) :
    (env.finish true).Acyclic := by
  refine acyclic.congr (standsFor?_congr (declared_finish true env) fun id => ?_)
  rw [binding?, frames_finish, FrameStack.placeholder?_finish_true]
  rfl

/-- Nothing leads back to itself after a run if nothing did so before. -/
theorem Run.acyclic
    (run : Run env final)
    (consistent : env.frames.Consistent)
    (acyclic : env.Acyclic) :
    final.Acyclic := by
  induction run with
  | refl => exact acyclic
  | trans first _ firstHypothesis secondHypothesis =>
      exact secondHypothesis (first.consistent consistent) (firstHypothesis consistent acyclic)
  | binds step => exact step.acyclic consistent acyclic
  | fresh => exact acyclic.congr fun _ => rfl
  | @quantify env id scope label unbound =>
      have notFound : env.occurs id (.parametric scope label) = false := by
        simp [occurs, searchWithin]
      have bound := Binds.acyclic
        (.placeholder .identity (.type (.parametric scope label))
          (.type (.parametric scope label)) unbound notFound)
        consistent acyclic
      refine bound.congr (standsFor?_congr ?_ fun other => ?_)
      · exact (declared_traceUnify _ _ _ env).symm
      · rw [binding?, binding?, bindPlaceholder, bindPlaceholder, frames_traceUnify]
  | markGeneric => exact acyclic.write rfl
  | recordInferred => exact acyclic.write rfl
  | recordParameter => exact acyclic.write rfl
  | traceInfer expr rule ty =>
      refine acyclic.congr (standsFor?_congr (declared_traceInfer expr rule ty _) fun id => ?_)
      rw [binding?, frames_traceInfer]
      rfl
  | external => exact acyclic.congr fun _ => rfl
  | @transaction env inner keep run inductionHypothesis =>
      have pushed : env.push.Acyclic :=
        acyclic.congr (standsFor?_congr rfl fun id => FrameStack.placeholder?_push env.frames id)
      have innerAcyclic := inductionHypothesis consistent.push pushed
      cases keep with
      | true => exact acyclic_finish innerAcyclic
      | false =>
          have restored := Restored.of_run run
          refine acyclic.congr (standsFor?_congr (restored.transaction false).declared fun id => ?_)
          rw [binding?, restored.frames_of_failed]
          rfl
  | insideFunction types _ inductionHypothesis =>
      exact (inductionHypothesis consistent (acyclic.congr fun _ => rfl)).congr fun _ => rfl
  | insideDeclaration provisional _ _ inductionHypothesis =>
      exact (inductionHypothesis consistent (acyclic.congr fun _ => rfl)).congr fun _ => rfl
  | deeper _ inductionHypothesis =>
      exact (inductionHypothesis consistent (acyclic.congr fun _ => rfl)).congr fun _ => rfl

/-- What unification does is a quiet run. -/
theorem QuietRun.of_binds
    (steps : Relation.ReflTransGen Binds env final) :
    QuietRun env final := by
  induction steps with
  | refl => exact .refl env
  | tail _ step inductionHypothesis =>
      refine inductionHypothesis.trans ⟨.binds step, fun id => ?_⟩
      cases step with
      | note => rw [frames_traceUnify]
      | placeholder =>
          rw [bindPlaceholder, frames_traceUnify]
          exact FrameStack.read_write_of_eq rfl
      | length =>
          rw [bindLength, frames_traceUnify]
          exact FrameStack.read_write_of_eq rfl

/-- A step of inference is a quiet run. -/
theorem QuietRun.traceInfer (expr : Expr) (rule : InferRule) (ty : Ty) :
    QuietRun env (env.traceInfer expr rule ty) :=
  ⟨.traceInfer expr rule ty, fun id => by rw [frames_traceInfer]⟩

end Environment

/-! ## Checked declarations -/

/-- The type of a built-in value. -/
def Form.native? : Form α → Option Ty
  | .native ty => some ty
  | _ => none

namespace Declarations

/-- All expressions inside declared variables. -/
def nodes (declared : Declarations) : List Expr :=
  declared.values.entries.flatMap fun declaration => declaration.value.nodes

/-- The types of the built-in values inside declared variables. -/
def nativeTypes (declared : Declarations) : List Ty :=
  declared.nodes.filterMap fun node => node.form.native?

/-- What the checks show of declarations. -/
structure Checked (declared : Declarations) : Prop where
  satisfied : declared.Satisfies (.covered declared)
  functions : ∀ function ∈ declared.functions, function.2 ∈ declared.nodes
  references :
    ∀ node ∈ declared.nodes, ∀ {name}, node.form = .reference name →
      (declared.findVariable? node.scope name).isSome

variable {declared : Declarations}

/-- The expression of a declared variable is among the nodes of the program. -/
theorem value_mem_nodes
    {declaration : Declaration Expr}
    (member : declaration ∈ declared.values.entries) :
    declaration.value ∈ declared.nodes := by
  refine List.mem_flatMap.mpr ⟨declaration, member, ?_⟩
  rw [Expr.nodes_eq]
  exact List.mem_cons_self

/-- The parts of a node are among the nodes of the program. -/
theorem child_mem_nodes
    {node child : Expr}
    (member : node ∈ declared.nodes)
    (isChild : child ∈ node.form.children) :
    child ∈ declared.nodes := by
  obtain ⟨declaration, isDeclared, inValue⟩ := List.mem_flatMap.mp member
  exact List.mem_flatMap.mpr ⟨declaration, isDeclared, Expr.child_mem_nodes inValue isChild⟩

/-- All types written in the nodes of a checked program are covered. -/
theorem Checked.holdsExpr
    (checked : declared.Checked)
    {node : Expr}
    (member : node ∈ declared.nodes) :
    (Ty.Invariant.covered declared).holdsExpr node := by
  obtain ⟨declaration, isDeclared, inValue⟩ := List.mem_flatMap.mp member
  exact Ty.Invariant.node (checked.satisfied.values declaration isDeclared) inValue

end Declarations

namespace Environment

/-- The type of an expression is recorded. -/
def Knows (env : Environment) (id : ExprId) : Prop :=
  (env.frames.inferred? id).isSome

/--
Inference of a checked program is under way.

The types of the listed expressions are recorded, and with the type of any
expression the types of its parts.
-/
structure Checked
    (declared : Declarations)
    (known : List ExprId)
    (env : Environment) : Prop where
  program : declared.Checked
  sameDeclared : env.declared = declared
  satisfied : env.Satisfies (.covered declared)
  consistent : env.frames.Consistent
  acyclic : env.Acyclic
  recorded : ∀ id ∈ known, env.Knows id
  parts :
    ∀ {id}, env.Knows id →
      ∃ node ∈ declared.nodes, node.id = id ∧ ∀ child ∈ node.form.children, env.Knows child.id

namespace Checked

variable {declared : Declarations} {known : List ExprId} {env final : Environment}

/-- Where the types of some expressions are recorded, those of fewer are. -/
theorem mono
    (checked : env.Checked declared known)
    {fewer : List ExprId}
    (included : fewer ⊆ known) :
    env.Checked declared fewer :=
  { checked with recorded := fun id member => checked.recorded id (included member) }

/-- An environment with the same records is checked if its types are covered. -/
theorem of_same
    (checked : env.Checked declared known)
    (sameDeclared : final.declared = env.declared)
    (satisfied : final.Satisfies (.covered declared))
    (consistent : final.frames.Consistent)
    (acyclic : final.Acyclic)
    (sameRecords : ∀ id, final.frames.inferred? id = env.frames.inferred? id) :
    final.Checked declared known := by
  have knows (id : ExprId) : final.Knows id ↔ env.Knows id := by
    rw [Knows, Knows, sameRecords]
  refine
    { program := checked.program
      sameDeclared := sameDeclared.trans checked.sameDeclared
      satisfied := satisfied
      consistent := consistent
      acyclic := acyclic
      recorded := fun id member => (knows id).mpr (checked.recorded id member)
      parts := ?_ }
  intro id isKnown
  obtain ⟨node, isNode, isId, children⟩ := checked.parts ((knows id).mp isKnown)
  exact ⟨node, isNode, isId, fun child isChild => (knows child.id).mpr (children child isChild)⟩

/-- A quiet run keeps an environment checked if the types in it stay covered. -/
theorem of_quietRun
    (checked : env.Checked declared known)
    (quiet : QuietRun env final)
    (satisfied : final.Satisfies (.covered declared)) :
    final.Checked declared known :=
  checked.of_same (Restored.of_run quiet.run).declared satisfied
    (quiet.run.consistent checked.consistent)
    (quiet.run.acyclic checked.consistent checked.acyclic) quiet.inferred

/-- A new frame keeps an environment checked. -/
theorem push (checked : env.Checked declared known) : env.push.Checked declared known := by
  refine checked.of_same rfl checked.satisfied.push checked.consistent.push ?_ fun id => ?_
  · refine checked.acyclic.congr (standsFor?_congr rfl fun id => ?_)
    exact FrameStack.placeholder?_push env.frames id
  · exact FrameStack.inferred?_push env.frames id

/-- A commit keeps an environment checked. -/
theorem commit (checked : env.Checked declared known) :
    (env.finish true).Checked declared known := by
  refine checked.of_same (declared_finish true env) (checked.satisfied.finish true)
    (consistent_finish checked.consistent true) (acyclic_finish checked.acyclic) fun id => ?_
  rw [frames_finish, FrameStack.inferred?_finish_true]

/-- A failed transaction leaves an environment as checked as it was. -/
theorem abort
    {inner : Environment}
    (checked : env.Checked declared known)
    (run : Run env.push inner) :
    (inner.finish false).Checked declared known := by
  have restored := Restored.of_run run
  have around := restored.transaction false
  have sameFrames := restored.frames_of_failed
  refine checked.of_same around.declared ?_ ?_ ?_ fun id => by rw [sameFrames]
  · refine ⟨around.declared ▸ checked.satisfied.declared, ?_, ?_⟩
    · exact sameFrames ▸ checked.satisfied.frames
    · exact around.inProgress ▸ checked.satisfied.inProgress
  · exact sameFrames ▸ checked.consistent
  · refine checked.acyclic.congr (standsFor?_congr around.declared fun id => ?_)
    rw [binding?, sameFrames]
    rfl

/-- The type of an expression may be recorded as soon as the types of its parts are. -/
theorem recordInferred
    (checked : env.Checked declared known)
    {expr : Expr}
    (member : expr ∈ declared.nodes)
    (children : ∀ child ∈ expr.form.children, child.id ∈ known)
    {ty : Ty}
    (covers : declared.Covers ty) :
    (env.recordInferred expr.id ty).Checked declared (expr.id :: known) := by
  have knows (id : ExprId) :
      (env.recordInferred expr.id ty).Knows id ↔ id = expr.id ∨ env.Knows id := by
    change ((env.frames.recordInferred expr.id ty).inferred? id).isSome ↔ _
    rw [FrameStack.inferred?_recordInferred]
    by_cases same : id = expr.id
    · simp [same]
    · simp [same, Knows]
  refine
    { program := checked.program
      sameDeclared := checked.sameDeclared
      satisfied := checked.satisfied.recordInferred covers expr.id
      consistent := checked.consistent.recordInferred expr.id ty
      acyclic := checked.acyclic.write rfl
      recorded := ?_
      parts := ?_ }
  · intro id isKnown
    rcases List.mem_cons.mp isKnown with rfl | before
    · exact (knows _).mpr (Or.inl rfl)
    · exact (knows id).mpr (Or.inr (checked.recorded id before))
  · intro id isKnown
    rcases (knows id).mp isKnown with rfl | before
    · refine ⟨expr, member, rfl, fun child isChild => (knows _).mpr (Or.inr ?_)⟩
      exact checked.recorded child.id (children child isChild)
    · obtain ⟨node, isNode, isId, parts⟩ := checked.parts before
      exact ⟨node, isNode, isId, fun child isChild =>
        (knows child.id).mpr (Or.inr (parts child isChild))⟩

/-- The head of a type is not a reference. -/
theorem head_ne_named
    (checked : env.Checked declared known)
    {ty : Ty}
    (covers : declared.Covers ty)
    (scope : ScopeId)
    (name : String) :
    env.head ty ≠ .named scope name := by
  have sameDeclared := checked.sameDeclared
  subst sameDeclared
  exact Environment.head_ne_named checked.acyclic checked.satisfied covers scope name

/-- If types of expressions are recorded, so are the types of all that is inside them. -/
theorem knows_nodes
    (checked : env.Checked declared known)
    (distinct : (declared.nodes.map Expr.id).Nodup)
    {expr : Expr}
    (member : expr ∈ declared.nodes)
    (isKnown : env.Knows expr.id) :
    ∀ node ∈ expr.nodes, env.Knows node.id := by
  induction expr using Expr.induction with
  | node expr inductionHypothesis =>
      obtain ⟨node, isNode, sameId, children⟩ := checked.parts isKnown
      cases List.inj_on_of_nodup_map distinct isNode member sameId
      rw [Expr.nodes_eq]
      refine List.forall_mem_cons.mpr ⟨isKnown, fun part isPart => ?_⟩
      obtain ⟨child, isChild, inChild⟩ := List.mem_flatMap.mp isPart
      have childMember := Declarations.child_mem_nodes member isChild
      exact inductionHypothesis child isChild childMember (children child isChild) part inChild

end Checked

end Environment

/-! ## Declared programs -/

namespace Declarations

/-- The function values that are listed are inside declared variables. -/
def ListsFunctions (declared : Declarations) : Prop :=
  ∀ function ∈ declared.functions, function.2 ∈ declared.nodes

variable {declared changed : Declarations}

/-- A new scope leaves all functions listed. -/
theorem ListsFunctions.newScope
    {parent : ScopeId}
    (lists : declared.ListsFunctions)
    (made : (declared.newScope parent).map Prod.snd = .ok changed) :
    changed.ListsFunctions := by
  unfold Declarations.newScope at made
  split at made
  · cases made
    exact lists
  · contradiction

/-- A type declaration leaves all functions listed. -/
theorem ListsFunctions.declareType
    {scope : ScopeId}
    {name : String}
    {ty : Ty}
    (lists : declared.ListsFunctions)
    (made : declared.declareType scope name ty = .ok changed) :
    changed.ListsFunctions := by
  unfold Declarations.declareType at made
  split at made
  · cases inserted : declared.types.insert ⟨scope, name, ty⟩ with
    | error cause =>
        rw [inserted] at made
        contradiction
    | ok types =>
        rw [inserted] at made
        cases made
        exact lists
  · contradiction

/-- A variable declaration lists the functions inside its expression. -/
theorem ListsFunctions.declareVariable
    {scope : ScopeId}
    {name : String}
    {expr : Expr}
    (lists : declared.ListsFunctions)
    (made : declared.declareVariable scope name expr = .ok changed) :
    changed.ListsFunctions := by
  unfold Declarations.declareVariable at made
  split at made
  · cases inserted : declared.values.insert ⟨scope, name, expr⟩ with
    | error cause =>
        rw [inserted] at made
        contradiction
    | ok values =>
        rw [inserted] at made
        cases made
        unfold DeclarationTable.insert at inserted
        split at inserted
        · contradiction
        · cases inserted
          intro function member
          rcases List.mem_append.mp member with isNew | isOld
          · obtain ⟨node, isFunction, rfl⟩ := List.mem_map.mp (List.mem_reverse.mp isNew)
            refine List.mem_flatMap.mpr
              ⟨⟨scope, name, expr⟩, DeclarationTable.mem_place.mpr (Or.inl rfl), ?_⟩
            dsimp only
            split
            · rw [Expr.nodes_eq]
              exact List.mem_cons_self
            · exact (List.mem_filter.mp isFunction).1
          · obtain ⟨declaration, isDeclared, inValue⟩ := List.mem_flatMap.mp (lists function isOld)
            exact List.mem_flatMap.mpr
              ⟨declaration, DeclarationTable.mem_place.mpr (Or.inr isDeclared), inValue⟩
  · contradiction

/-- A property of declarations that is kept when another one is made. -/
structure Lasting (holds : Declarations → Prop) : Prop where
  newScope :
    ∀ {declared changed parent},
      holds declared → (declared.newScope parent).map Prod.snd = .ok changed → holds changed
  declareType :
    ∀ {declared changed scope name ty},
      holds declared → declared.declareType scope name ty = .ok changed → holds changed
  declareVariable :
    ∀ {declared changed scope name expr},
      holds declared → declared.declareVariable scope name expr = .ok changed → holds changed

/-- Listing the functions of a program is kept by every declaration. -/
theorem ListsFunctions.lasting : Lasting ListsFunctions where
  newScope := .newScope
  declareType := .declareType
  declareVariable := .declareVariable

end Declarations

namespace Operation

/-- Declarations record nothing. -/
theorem performAll_declarations
    {operations : List Operation}
    (declares : ∀ operation ∈ operations, operation.isDeclaration = true)
    {env final : Environment}
    (performed : performAll operations env = some final) :
    final.frames = env.frames ∧ final.context = env.context := by
  induction operations generalizing env with
  | nil =>
      cases performed
      exact ⟨rfl, rfl⟩
  | cons operation rest inductionHypothesis =>
      obtain ⟨isDeclaration, restDeclare⟩ := List.forall_mem_cons.mp declares
      rw [performAll, Option.bind_eq_some_iff] at performed
      obtain ⟨middle, first, others⟩ := performed
      have declared
          {change : Declarations → Except DeclarationError Declarations}
          (isMiddle : declare env change = middle) :
          final.frames = env.frames ∧ final.context = env.context := by
        subst isMiddle
        unfold declare at others
        split at others
        · have remaining := inductionHypothesis restDeclare others
          exact remaining
        · exact inductionHypothesis restDeclare others
      cases operation with
      | newScope | declareType | declareVariable => exact declared (Option.some.inj first)
      | _ => contradiction

/-- Only declarations change what is declared. -/
theorem Changes.declared
    {holds : Declarations → Prop}
    (lasting : Declarations.Lasting holds)
    {env final : Environment}
    (changes : Changes env final)
    (start : holds env.declared) :
    holds final.declared := by
  have declares
      {env : Environment}
      {change : Declarations → Except DeclarationError Declarations}
      (start : holds env.declared)
      (changes : ∀ {changed}, change env.declared = .ok changed → holds changed) :
      holds (declare env change).declared := by
    unfold declare
    split
    · rename_i changed made
      exact changes made
    · exact start
  induction changes with
  | refl => exact start
  | trans _ _ first second => exact second (first start)
  | newScope => exact declares start (lasting.newScope start)
  | declareType => exact declares start (lasting.declareType start)
  | declareVariable => exact declares start (lasting.declareVariable start)
  | enableTrace | push => exact start
  | finish => rwa [Environment.declared_finish]
  | run run => rwa [(Environment.Restored.of_run run).declared]

end Operation

namespace Environment

/-- What declarations keep holds of the declarations of every reachable environment. -/
theorem Reachable.declared
    {holds : Declarations → Prop}
    (lasting : Declarations.Lasting holds)
    (empty : ∀ options, holds (empty options).declared)
    {env : Environment}
    (reachable : env.Reachable) :
    holds env.declared := by
  obtain ⟨options, operations, performed⟩ := reachable
  exact (Operation.performAll_changes operations performed).declared lasting (empty options)

/-- In every reachable environment the functions of the program are listed. -/
theorem Reachable.listsFunctions
    {env : Environment}
    (reachable : env.Reachable) :
    env.declared.ListsFunctions :=
  reachable.declared Declarations.ListsFunctions.lasting fun _ => List.forall_mem_nil _

/-- A program of declarations only: scopes, types and variables. -/
structure Declared (env : Environment) : Prop where
  frames : env.frames = FrameStack.empty
  context : env.context = Context.idle
  functions : env.declared.ListsFunctions

/-- Declarations alone leave all frames empty and nothing in progress. -/
theorem declared_of_operations
    {options : Options}
    {operations : List Operation}
    (declares : ∀ operation ∈ operations, operation.isDeclaration = true)
    {env : Environment}
    (performed : Operation.performAll operations (empty options) = some env) :
    env.Declared := by
  have reachable : env.Reachable := ⟨options, operations, performed⟩
  obtain ⟨frames, context⟩ := Operation.performAll_declarations declares performed
  exact ⟨frames, context, reachable.listsFunctions⟩

variable {env : Environment}

/-- A reference to a variable is declared if no undefined variable is reported. -/
theorem findVariable?_of_undefinedVariables
    (clean : env.undefinedVariables = [])
    {node : Expr}
    (member : node ∈ env.declared.nodes)
    {name : String}
    (isReference : node.form = .reference name) :
    (env.declared.findVariable? node.scope name).isSome := by
  obtain ⟨declaration, isDeclared, inValue⟩ := List.mem_flatMap.mp member
  by_contra notFound
  have isUndefined : env.undefinedName? node = some name := by
    have isNone := Option.not_isSome_iff_eq_none.mp notFound
    simp [undefinedName?, isReference, isNone]
  have reported : undefinedDiagnostic node name ∈ env.undefinedVariables := by
    refine List.mem_flatMap.mpr ⟨declaration, isDeclared, List.mem_filterMap.mpr ?_⟩
    exact ⟨node, inValue, by rw [isUndefined]; rfl⟩
  rw [clean] at reported
  contradiction

/-- Types that refer only to listed types are covered by the declarations. -/
theorem RefersOnlyTo.covers
    {listed : List AliasKey}
    {ty : Ty}
    (refers : env.RefersOnlyTo listed ty) :
    env.declared.Covers ty := by
  intro scope name member
  obtain ⟨key, definition, found, _⟩ := refers _ (Ty.mem_references.mpr member)
  obtain ⟨entry, isFound, _⟩ := Option.map_eq_some_iff.mp found
  exact Option.isSome_of_eq_some isFound

/-- The types written on a form are covered if its ascriptions are and built-in types are plain. -/
theorem holdsForm_of_ascriptions
    {declared : Declarations}
    {form : Form α}
    (ascriptions : ∀ ty ∈ form.ascriptions, declared.Covers ty)
    (natives : ∀ ty ∈ form.native?, ty.references = []) :
    (Ty.Invariant.covered declared).holdsForm form := by
  cases form with
  | function params body =>
      intro param isParam ty isWritten
      exact ascriptions ty (List.mem_filterMap.mpr ⟨param, isParam, isWritten⟩)
  | external kind name ascription =>
      intro ty isWritten
      exact ascriptions ty (Option.mem_toList.mpr isWritten)
  | native ty =>
      intro scope name isNamed
      have isReference := Ty.mem_references.mpr isNamed
      rw [natives ty rfl] at isReference
      contradiction
  | array elements => exact fun _ => trivial
  | _ => trivial

/-- All that is declared is covered if no problem with references is reported. -/
theorem Declared.satisfied
    (declared : env.Declared)
    (natives : ∀ ty ∈ env.declared.nativeTypes, ty.references = [])
    (aliases : env.aliasProblems = []) :
    env.declared.Satisfies (.covered env.declared) := by
  obtain ⟨listed, settled, all, written⟩ := settled_of_aliasProblems aliases
  have formsHold :
      ∀ node ∈ env.declared.nodes, (Ty.Invariant.covered env.declared).holdsForm node.form := by
    intro node member
    obtain ⟨declaration, isDeclared, inValue⟩ := List.mem_flatMap.mp member
    refine holdsForm_of_ascriptions (fun ty isWritten => ?_) fun ty isNative => ?_
    · exact (written declaration isDeclared node inValue ty isWritten).covers
    · exact natives ty (List.mem_filterMap.mpr ⟨node, member, isNative⟩)
  have exprsHold {node : Expr} (member : node ∈ env.declared.nodes) :
      (Ty.Invariant.covered env.declared).holdsExpr node := by
    intro part isPart
    obtain ⟨declaration, isDeclared, inValue⟩ := List.mem_flatMap.mp member
    have inside := Expr.nodes_subset inValue isPart
    exact formsHold part (List.mem_flatMap.mpr ⟨declaration, isDeclared, inside⟩)
  refine
    { types := fun declaration member => ?_
      values := fun declaration member => exprsHold (Declarations.value_mem_nodes member)
      functions := fun function member => exprsHold (declared.functions function member) }
  have isKey := all (List.mem_map_of_mem member)
  exact (settled.refersOnlyTo isKey (DeclarationTable.local?_of_mem member)).covers

/-- In a program of declarations only nothing is bound, so no binding leads back to itself. -/
theorem Declared.consistent (declared : env.Declared) : env.frames.Consistent := by
  rw [declared.frames]
  exact .empty

/-- Nothing leads back to itself in a declared program without problems. -/
theorem Declared.acyclic
    (declared : env.Declared)
    (aliases : env.aliasProblems = []) :
    env.Acyclic := by
  obtain ⟨listed, settled, all, _⟩ := settled_of_aliasProblems aliases
  refine settled.acyclic all fun id => ?_
  rw [binding?, declared.frames]
  exact FrameStack.placeholder?_empty id

/-- A declared program without problems is checked before inference starts. -/
theorem Declared.checked
    (declared : env.Declared)
    (natives : ∀ ty ∈ env.declared.nativeTypes, ty.references = [])
    (aliases : env.aliasProblems = [])
    (variablesFound : env.undefinedVariables = []) :
    env.Checked env.declared [] := by
  have satisfied := declared.satisfied natives aliases
  have nothingKnown (id : ExprId) : ¬ env.Knows id := by
    rw [Knows, declared.frames]
    simp [FrameStack.empty, FrameStack.inferred?, FrameStack.read, FrameStack.frames, Frame.empty]
  refine
    { program :=
        { satisfied := satisfied
          functions := declared.functions
          references := fun _ member =>
            findVariable?_of_undefinedVariables variablesFound member }
      sameDeclared := rfl
      satisfied := ⟨satisfied, ?_, ?_⟩
      consistent := declared.consistent
      acyclic := declared.acyclic aliases
      recorded := by simp
      parts := fun isKnown => absurd isKnown (nothingKnown _) }
  · rw [declared.frames]
    exact FrameStack.Satisfies.empty _
  · rw [declared.context]
    simp [Context.idle]

end Environment

end ShaderTyping
