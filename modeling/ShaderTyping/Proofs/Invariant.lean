import ShaderTyping.Program
import ShaderTyping.Proofs.Meet
import ShaderTyping.Proofs.Occurs

namespace ShaderTyping

/-!
# Properties of all types in an environment

A `Ty.Invariant` is a property of types that passes from the parts of a type to
the type and back, such as that structs list their fields in label order.  An
environment satisfies it if everything declared, bound and recorded has it.
Reading such an environment gives only types with the property, and writing types
with the property to it leaves such an environment.
-/

/-! ## Traversals -/

/-- Every item of the second list is related to an item of the first one. -/
theorem exists_of_forall₂
    {relation : α → β → Prop}
    {first : List α}
    {second : List β}
    (related : List.Forall₂ relation first second)
    {item : β}
    (member : item ∈ second) :
    ∃ other ∈ first, relation other item := by
  induction related with
  | nil => exact absurd member List.not_mem_nil
  | cons isRelated _ inductionHypothesis =>
      rcases List.mem_cons.mp member with rfl | inRest
      · exact ⟨_, List.mem_cons_self, isRelated⟩
      · obtain ⟨other, isOther, holds⟩ := inductionHypothesis inRest
        exact ⟨other, List.mem_cons_of_mem _ isOther, holds⟩

namespace Ty

section Traversal

/-
What a computation in a monad ensures of its value is the motive; it has to be
compatible with sequencing.
-/
variable {m : Type → Type} [Monad m] {motive : ∀ {α : Type}, m α → (α → Prop) → Prop}
  (pure :
    ∀ {α : Type} {value : α} {post : α → Prop},
      post value → motive (pure value : m α) post)
  (bind :
    ∀ {α β : Type} {first : m α} {next : α → m β} {middle : α → Prop} {post : β → Prop},
      motive first middle →
      (∀ value, middle value → motive (next value) post) →
      motive (first >>= next) post)
  {visitor : Visitor m} (related : Ty → Ty → Prop)
include pure bind

/-- A traversal of fields keeps the labels and does to each type what it does to a type. -/
theorem traverseFields_ensures
    {fields : List (String × Ty)}
    (visits : ∀ field ∈ fields, motive (field.2.traverse visitor) (related field.2)) :
    motive (traverseFields visitor fields)
      (List.Forall₂
        (fun field rebuilt => rebuilt.1 = field.1 ∧ related field.2 rebuilt.2) fields) := by
  induction fields with
  | nil => exact pure .nil
  | cons field rest inductionHypothesis =>
      obtain ⟨fieldVisits, restVisits⟩ := List.forall_mem_cons.mp visits
      refine bind fieldVisits fun _ isRelated => ?_
      refine bind (inductionHypothesis restVisits) fun _ restRelated => ?_
      exact pure (.cons ⟨rfl, isRelated⟩ restRelated)

/-- A traversal of members ensures of each member what the traversal of that member does. -/
theorem traverseMembers_ensures
    {members : List Ty}
    (visits : ∀ member ∈ members, motive (member.traverse visitor) (related member)) :
    motive (traverseMembers visitor members) (List.Forall₂ related members) := by
  induction members with
  | nil => exact pure .nil
  | cons member rest inductionHypothesis =>
      obtain ⟨memberVisits, restVisits⟩ := List.forall_mem_cons.mp visits
      refine bind memberVisits fun _ isRelated => ?_
      refine bind (inductionHypothesis restVisits) fun _ restRelated => ?_
      exact pure (.cons isRelated restRelated)

end Traversal

end Ty

/-! ## Properties of types -/

namespace Ty

/--
A property of types, and of array lengths, that a type has if its parts have it.

A struct may lose some of its fields, and an overload set may be rebuilt.
Primitives and variables have the property; a reference need not have it.
-/
structure Invariant where
  holds : Ty → Prop
  holdsLength : Length → Prop
  primitive : ∀ kind : Primitive, holds (.primitive kind)
  placeholder : ∀ (scope : ScopeId) (id : PlaceholderId), holds (.placeholder scope id)
  parametric : ∀ (scope : ScopeId) (label : LabelId), holds (.parametric scope label)
  array :
    ∀ {component : Ty} {length : Length},
      holds (.array component length) ↔ holds component ∧ holdsLength length
  function :
    ∀ {param result : Ty}, holds (.function param result) ↔ holds param ∧ holds result
  field :
    ∀ {fields : List (String × Ty)}, holds (.struct fields) →
      ∀ field ∈ fields, holds field.2
  struct :
    ∀ {fields kept : List (String × Ty)}, holds (.struct fields) →
      (kept.map Prod.fst).Sublist (fields.map Prod.fst) →
      (kept = [] → fields = []) →
      (∀ field ∈ kept, holds field.2) →
      holds (.struct kept)
  ofFields :
    ∀ {fields : List (String × Ty)}, fields ≠ [] →
      (∀ field ∈ fields, holds field.2) →
      holds (ofFields fields)
  member : ∀ {members : List Ty}, holds (.union members) → ∀ member ∈ members, holds member
  rebuilt :
    ∀ {members rebuilt : List Ty}, holds (.union members) →
      rebuilt.length = members.length →
      (∀ member ∈ rebuilt, holds member) →
      holds ((ofMembers rebuilt).getD (.union []))
  ofMembers :
    ∀ {types : List Ty} {ty : Ty}, (∀ member ∈ types, holds member) →
      ofMembers types = some ty →
      holds ty
  known : ∀ {count : Nat}, 0 < count → holdsLength (.known count)
  var : ∀ id : LengthId, holdsLength (.var id)

namespace Invariant

variable {rule : Invariant}

/--
A traversal whose visits give types and lengths with a property rebuilds a type
with the property.

What a computation in the monad ensures of its value is the motive; it has to
be compatible with sequencing.
-/
theorem traverse
    {m : Type → Type}
    [Monad m]
    {motive : ∀ {α : Type}, m α → (α → Prop) → Prop}
    (pure :
      ∀ {α : Type} {value : α} {post : α → Prop},
        post value → motive (pure value : m α) post)
    (bind :
      ∀ {α β : Type} {first : m α} {next : α → m β} {middle : α → Prop} {post : β → Prop},
        motive first middle →
        (∀ value, middle value → motive (next value) post) →
        motive (first >>= next) post)
    {visitor : Visitor m}
    (named :
      ∀ scope name, rule.holds (.named scope name) →
        motive (visitor.named scope name) rule.holds)
    (placeholder : ∀ scope id, motive (visitor.placeholder scope id) rule.holds)
    (parametric : ∀ scope label, motive (visitor.parametric scope label) rule.holds)
    (length :
      ∀ {length}, rule.holdsLength length →
        motive (visitor.length length) rule.holdsLength)
    {ty : Ty}
    (holds : rule.holds ty) :
    motive (ty.traverse visitor) rule.holds := by
  induction ty using Ty.induction with
  | primitive kind => exact pure holds
  | array component bound inductionHypothesis =>
      obtain ⟨componentHolds, boundHolds⟩ := rule.array.mp holds
      refine bind (inductionHypothesis componentHolds) fun _ rebuilt => ?_
      exact bind (length boundHolds) fun _ visited => pure (rule.array.mpr ⟨rebuilt, visited⟩)
  | function param result paramHypothesis resultHypothesis =>
      obtain ⟨paramHolds, resultHolds⟩ := rule.function.mp holds
      refine bind (paramHypothesis paramHolds) fun _ paramRebuilt => ?_
      refine bind (resultHypothesis resultHolds) fun _ resultRebuilt => ?_
      exact pure (rule.function.mpr ⟨paramRebuilt, resultRebuilt⟩)
  | struct fields inductionHypothesis =>
      have each := rule.field holds
      refine bind (traverseFields_ensures pure bind (fun _ => rule.holds) fun field isField =>
        inductionHypothesis field isField (each field isField)) fun rebuilt related => pure ?_
      have labels := map_fst_of_forall₂ (related.imp fun _ _ rebuilt => rebuilt.1)
      refine rule.struct holds (labels ▸ List.Sublist.refl _) ?_ fun field isField => ?_
      · rintro rfl
        exact List.forall₂_nil_right_iff.mp related
      · obtain ⟨_, _, _, fieldHolds⟩ := exists_of_forall₂ related isField
        exact fieldHolds
  | union members inductionHypothesis =>
      have each := rule.member holds
      refine bind (traverseMembers_ensures pure bind (fun _ => rule.holds) fun member isMember =>
        inductionHypothesis member isMember (each member isMember)) fun rebuilt related => pure ?_
      refine rule.rebuilt holds related.length_eq.symm fun member isMember => ?_
      obtain ⟨_, _, memberHolds⟩ := exists_of_forall₂ related isMember
      exact memberHolds
  | named scope name => exact named scope name holds
  | placeholder scope id => exact placeholder scope id
  | parametric scope label => exact parametric scope label

/-- Replacing leaves by types with a property keeps the property. -/
theorem subst
    {substitution : Substitution}
    (named :
      ∀ scope name, rule.holds (.named scope name) →
        rule.holds (substitution.named scope name))
    (placeholder : ∀ scope id, rule.holds (substitution.placeholder scope id))
    (parametric : ∀ scope label, rule.holds (substitution.parametric scope label))
    (length :
      ∀ {length}, rule.holdsLength length → rule.holdsLength (substitution.length length))
    {ty : Ty}
    (holds : rule.holds ty) :
    rule.holds (ty.subst substitution) :=
  rule.traverse (m := Id) (motive := fun value post => post value)
    (fun holds => holds)
    (fun first next => next _ first)
    named placeholder parametric length holds

/-- A function of several parameters has the property if they and its result have it. -/
theorem curried
    {params : List Ty}
    {result : Ty}
    (paramsHold : ∀ param ∈ params, rule.holds param)
    (resultHolds : rule.holds result) :
    rule.holds (Ty.curried params result) := by
  induction params with
  | nil => exact resultHolds
  | cons param rest inductionHypothesis =>
      obtain ⟨paramHolds, restHold⟩ := List.forall_mem_cons.mp paramsHold
      exact rule.function.mpr ⟨paramHolds, inductionHypothesis restHold⟩

end Invariant

end Ty

/-! ## Expressions -/

namespace Expr

/-- An expression has every property that it has if its parts have it. -/
@[elab_as_elim] theorem induction
    {motive : Expr → Prop}
    (node :
      ∀ expr : Expr, (∀ child ∈ expr.form.children, motive child) → motive expr)
    (expr : Expr) :
    motive expr := by
  induction count : expr.nodes.length using Nat.strong_induction_on generalizing expr with
  | h count inductionHypothesis =>
      refine node expr fun child isChild => inductionHypothesis _ ?_ child rfl
      have isPart : child.nodes ∈ expr.form.children.map nodes := List.mem_map_of_mem isChild
      have parts : child.nodes.length ≤ (expr.form.children.flatMap nodes).length :=
        (List.sublist_flatten_of_mem isPart).length_le
      rw [← count, nodes_eq expr, List.length_cons]
      exact Nat.lt_succ_of_le parts

/-- What is inside a part of an expression is inside the expression. -/
theorem nodes_subset
    {expr node : Expr}
    (member : node ∈ expr.nodes) :
    node.nodes ⊆ expr.nodes := by
  induction expr using Expr.induction with
  | node expr inductionHypothesis =>
      rw [nodes_eq expr] at member
      rcases List.mem_cons.mp member with rfl | inside
      · exact List.Subset.refl _
      · obtain ⟨child, isChild, inChild⟩ := List.mem_flatMap.mp inside
        intro part isPart
        have inParts := inductionHypothesis child isChild inChild isPart
        rw [nodes_eq expr]
        exact List.mem_cons_of_mem _ (List.mem_flatMap.mpr ⟨child, isChild, inParts⟩)

/-- The parts of a node of an expression are nodes of the expression too. -/
theorem child_mem_nodes
    {expr node child : Expr}
    (member : node ∈ expr.nodes)
    (isChild : child ∈ node.form.children) :
    child ∈ expr.nodes := by
  have isNode : child ∈ child.nodes := by
    rw [nodes_eq]
    exact List.mem_cons_self
  refine nodes_subset member ?_
  rw [nodes_eq]
  exact List.mem_cons_of_mem _ (List.mem_flatMap.mpr ⟨child, isChild, isNode⟩)

end Expr

namespace Ty.Invariant

/--
The types written on a form have a property, and so has the length of an array.

An array without elements has no type, so its length does not matter.
-/
def holdsForm (rule : Invariant) : Form α → Prop
  | .array elements =>
      elements ≠ [] → rule.holdsLength (Inference.lengthOfCount elements.length)
  | .function params _ => ∀ param ∈ params, ∀ ty ∈ param.ascription, rule.holds ty
  | .external _ _ ascription => ∀ ty ∈ ascription, rule.holds ty
  | .native ty => rule.holds ty
  | _ => True

/-- The types and array lengths in an expression have a property. -/
def holdsExpr (rule : Invariant) (expr : Expr) : Prop :=
  ∀ node ∈ expr.nodes, rule.holdsForm node.form

variable {rule : Invariant} {expr : Expr}

/-- The types written at an expression itself have the property. -/
theorem form (holds : rule.holdsExpr expr) : rule.holdsForm expr.form := by
  refine holds expr ?_
  rw [Expr.nodes_eq]
  exact List.mem_cons_self

/-- The types written in a node of an expression have the property. -/
theorem node
    {node : Expr}
    (holds : rule.holdsExpr expr)
    (member : node ∈ expr.nodes) :
    rule.holdsExpr node :=
  fun part isPart => holds part (Expr.nodes_subset member isPart)

/-- The types written in the parts of an expression have the property. -/
theorem children
    (holds : rule.holdsExpr expr) :
    ∀ child ∈ expr.form.children, rule.holdsExpr child := by
  intro child isChild part isPart
  refine holds part ?_
  rw [Expr.nodes_eq]
  exact List.mem_cons_of_mem _ (List.mem_flatMap.mpr ⟨child, isChild, isPart⟩)

end Ty.Invariant

/-! ## Frames and declarations -/

namespace Frame

section Every

variable {κ ν : Type} [Ord κ] {property : ν → Prop}

/-- All entries of a table have a property. -/
def Every (property : ν → Prop) (table : Std.TreeMap κ ν) : Prop :=
  ∀ ⦃key : κ⦄ ⦃value : ν⦄, table[key]? = some value → property value

variable [Std.TransOrd κ]

/-- Every value of the empty table has any property. -/
theorem Every.empty : Every property (∅ : Std.TreeMap κ ν) := by
  intro key value found
  rw [Std.TreeMap.getElem?_emptyc] at found
  contradiction

/-- Adding a value with the property keeps it for all values of a table. -/
theorem Every.insert
    [Std.LawfulEqOrd κ]
    {table : Std.TreeMap κ ν}
    (every : Every property table)
    (key : κ)
    {value : ν}
    (holds : property value) :
    Every property (table.insert key value) := by
  intro other entry found
  rw [Std.TreeMap.getElem?_insert] at found
  split at found
  · cases found
    exact holds
  · exact every found

/-- The values of two tables laid over each other have the property if all of theirs have it. -/
theorem Every.union
    {table later : Std.TreeMap κ ν}
    (every : Every property table)
    (laterEvery : Every property later) :
    Every property (table ∪ later) := by
  intro key value found
  rw [Std.TreeMap.getElem?_union] at found
  rcases Option.or_eq_some_iff.mp found with inLater | ⟨_, inTable⟩
  · exact laterEvery inLater
  · exact every inTable

end Every

/-- All types and lengths in a frame have a property. -/
structure Satisfies (rule : Ty.Invariant) (frame : Frame) : Prop where
  placeholders : Every rule.holds frame.placeholders
  lengths : Every rule.holdsLength frame.lengths
  inferred : Every rule.holds frame.inferred
  parameters : Every rule.holds frame.parameters

/-- The empty frame satisfies every property. -/
theorem Satisfies.empty (rule : Ty.Invariant) : Frame.empty.Satisfies rule where
  placeholders := .empty
  lengths := .empty
  inferred := .empty
  parameters := .empty

/-- A frame that absorbs a later one satisfies the property if both do. -/
theorem Satisfies.absorb
    {rule : Ty.Invariant}
    {frame later : Frame}
    (satisfied : frame.Satisfies rule)
    (laterSatisfied : later.Satisfies rule) :
    (frame.absorb later).Satisfies rule where
  placeholders := satisfied.placeholders.union laterSatisfied.placeholders
  lengths := satisfied.lengths.union laterSatisfied.lengths
  inferred := satisfied.inferred.union laterSatisfied.inferred
  parameters := satisfied.parameters.union laterSatisfied.parameters

end Frame

namespace FrameStack

/-- All types and lengths in a stack of frames have a property. -/
def Satisfies (rule : Ty.Invariant) (stack : FrameStack) : Prop :=
  ∀ frame ∈ stack.frames, frame.Satisfies rule

namespace Satisfies

variable {rule : Ty.Invariant} {stack : FrameStack}

/-- The empty stack satisfies every property. -/
theorem empty (rule : Ty.Invariant) : FrameStack.empty.Satisfies rule := by
  intro frame member
  cases List.mem_singleton.mp member
  exact .empty rule

/-- A new frame is empty, so it satisfies the property. -/
theorem push (satisfied : stack.Satisfies rule) : stack.push.Satisfies rule :=
  List.forall_mem_cons.mpr ⟨.empty rule, satisfied⟩

/-- A commit moves entries down without changing them. -/
theorem commit
    {merged : FrameStack}
    (satisfied : stack.Satisfies rule)
    (committed : stack.commit? = some merged) :
    merged.Satisfies rule := by
  obtain ⟨top, below⟩ := stack
  cases below with
  | nil => contradiction
  | cons parent rest =>
      cases committed
      obtain ⟨topSatisfied, belowSatisfied⟩ := List.forall_mem_cons.mp satisfied
      obtain ⟨parentSatisfied, restSatisfied⟩ := List.forall_mem_cons.mp belowSatisfied
      exact List.forall_mem_cons.mpr ⟨parentSatisfied.absorb topSatisfied, restSatisfied⟩

/-- An abort drops the entries of a frame. -/
theorem abort
    {restored : FrameStack}
    (satisfied : stack.Satisfies rule)
    (aborted : stack.abort? = some restored) :
    restored.Satisfies rule := by
  obtain ⟨top, below⟩ := stack
  cases below with
  | nil => contradiction
  | cons parent rest =>
      cases aborted
      exact (List.forall_mem_cons.mp satisfied).2

/-- Commit and abort both keep the property. -/
theorem finish (satisfied : stack.Satisfies rule) (keep : Bool) :
    (stack.finish keep).Satisfies rule :=
  finish_induction satisfied satisfied.commit satisfied.abort keep

/-- A change of the top frame keeps the property of the stack if it keeps that of the frame. -/
theorem write
    {change : Frame → Frame}
    (satisfied : stack.Satisfies rule)
    (changed : stack.top.Satisfies rule → (change stack.top).Satisfies rule) :
    (stack.write change).Satisfies rule := by
  obtain ⟨topSatisfied, belowSatisfied⟩ := List.forall_mem_cons.mp satisfied
  exact List.forall_mem_cons.mpr ⟨changed topSatisfied, belowSatisfied⟩

/-- What is read is an entry of one of the frames. -/
theorem read
    {κ ν : Type}
    [Ord κ]
    {property : ν → Prop}
    {table : Frame → Std.TreeMap κ ν}
    {key : κ}
    {value : ν}
    (satisfied : stack.Satisfies rule)
    (every : ∀ {frame : Frame}, frame.Satisfies rule → Frame.Every property (table frame))
    (found : stack.read (fun frame => (table frame)[key]?) = some value) :
    property value := by
  obtain ⟨frame, isFrame, isEntry⟩ := List.exists_of_findSome?_eq_some found
  exact every (satisfied frame isFrame) isEntry

end Satisfies

end FrameStack

namespace DeclarationTable

/-- What a name stands for is declared. -/
theorem exists_of_lookup?
    {table : DeclarationTable α}
    {tree : ScopeTree}
    {scope around : ScopeId}
    {name : String}
    {value : α}
    (found : table.lookup? tree scope name = some (around, value)) :
    ∃ declaration ∈ table.entries, declaration.value = value := by
  rw [lookup?_eq] at found
  obtain ⟨_, _, isLocal⟩ := List.exists_of_findSome?_eq_some found
  obtain ⟨_, isValue, same⟩ := Option.map_eq_some_iff.mp isLocal
  obtain ⟨declaration, isFound, rfl⟩ := Option.map_eq_some_iff.mp isValue
  cases same
  exact ⟨declaration, List.mem_of_find?_eq_some isFound, rfl⟩

/-- A table has the declaration that was added and those it had before. -/
theorem mem_of_insert
    {table extended : DeclarationTable α}
    {added declaration : Declaration α}
    (inserted : table.insert added = .ok extended)
    (member : declaration ∈ extended.entries) :
    declaration = added ∨ declaration ∈ table.entries := by
  unfold insert at inserted
  split at inserted
  · contradiction
  · cases inserted
    exact mem_place.mp member

end DeclarationTable

namespace Declarations

/-- All types in declarations have a property. -/
structure Satisfies (rule : Ty.Invariant) (declared : Declarations) : Prop where
  types : ∀ declaration ∈ declared.types.entries, rule.holds declaration.value
  values : ∀ declaration ∈ declared.values.entries, rule.holdsExpr declaration.value
  functions : ∀ function ∈ declared.functions, rule.holdsExpr function.2

namespace Satisfies

variable {rule : Ty.Invariant} {declared changed : Declarations}

/-- A fresh table of declarations declares no type. -/
theorem empty (rule : Ty.Invariant) : Declarations.empty.Satisfies rule where
  types _ member := absurd member List.not_mem_nil
  values _ member := absurd member List.not_mem_nil
  functions _ member := absurd member List.not_mem_nil

/-- A new scope declares no type. -/
theorem newScope
    {parent : ScopeId}
    (satisfied : declared.Satisfies rule)
    (made : (declared.newScope parent).map Prod.snd = .ok changed) :
    changed.Satisfies rule := by
  unfold Declarations.newScope at made
  split at made
  · cases made
    exact ⟨satisfied.types, satisfied.values, satisfied.functions⟩
  · contradiction

/-- A type declaration with the property keeps it for all declarations. -/
theorem declareType
    {scope : ScopeId}
    {name : String}
    {ty : Ty}
    (satisfied : declared.Satisfies rule)
    (holds : rule.holds ty)
    (made : declared.declareType scope name ty = .ok changed) :
    changed.Satisfies rule := by
  unfold Declarations.declareType at made
  split at made
  · cases inserted : declared.types.insert ⟨scope, name, ty⟩ with
    | error cause =>
        rw [inserted] at made
        contradiction
    | ok types =>
        rw [inserted] at made
        cases made
        refine ⟨fun declaration member => ?_, satisfied.values, satisfied.functions⟩
        rcases DeclarationTable.mem_of_insert inserted member with rfl | before
        · exact holds
        · exact satisfied.types declaration before
  · contradiction

/-- A variable declaration keeps the property if the types in its expression have it. -/
theorem declareVariable
    {scope : ScopeId}
    {name : String}
    {expr : Expr}
    (satisfied : declared.Satisfies rule)
    (holds : rule.holdsExpr expr)
    (made : declared.declareVariable scope name expr = .ok changed) :
    changed.Satisfies rule := by
  have functionsHold : ∀ function ∈ functionsIn expr, rule.holdsExpr function.2 := by
    intro function member
    obtain ⟨node, isFunction, rfl⟩ := List.mem_map.mp (List.mem_reverse.mp member)
    dsimp only
    split
    · exact holds
    · exact rule.node holds (List.mem_filter.mp isFunction).1
  unfold Declarations.declareVariable at made
  split at made
  · cases inserted : declared.values.insert ⟨scope, name, expr⟩ with
    | error cause =>
        rw [inserted] at made
        contradiction
    | ok values =>
        rw [inserted] at made
        cases made
        refine ⟨satisfied.types, fun declaration member => ?_, ?_⟩
        · rcases DeclarationTable.mem_of_insert inserted member with rfl | before
          · exact holds
          · exact satisfied.values declaration before
        · exact List.forall_mem_append.mpr ⟨functionsHold, satisfied.functions⟩
  · contradiction

end Satisfies

end Declarations

/-! ## Environments -/

namespace Environment

/-- All types in an environment that can be part of a result have a property. -/
structure Satisfies (rule : Ty.Invariant) (env : Environment) : Prop where
  declared : env.declared.Satisfies rule
  frames : env.frames.Satisfies rule
  inProgress : ∀ entry ∈ env.context.inProgress, rule.holds entry.2

namespace Satisfies

variable {rule : Ty.Invariant} {env : Environment}

/-- The empty environment satisfies every property. -/
theorem empty (rule : Ty.Invariant) (options : Options) :
    (Environment.empty options).Satisfies rule where
  declared := .empty rule
  frames := .empty rule
  inProgress _ member := absurd member List.not_mem_nil

/-! ### What is written -/

/-- Opening a transaction keeps the property. -/
theorem push (satisfied : env.Satisfies rule) : env.push.Satisfies rule :=
  ⟨satisfied.declared, satisfied.frames.push, satisfied.inProgress⟩

/-- Ending a transaction keeps the property. -/
theorem finish (satisfied : env.Satisfies rule) (keep : Bool) :
    (env.finish keep).Satisfies rule := by
  rw [finish_eq]
  exact ⟨satisfied.declared, satisfied.frames.finish keep, satisfied.inProgress⟩

/-- Binding a placeholder to a type with the property keeps it. -/
theorem bindPlaceholder
    {ty : Ty}
    (satisfied : env.Satisfies rule)
    (holds : rule.holds ty)
    (id : PlaceholderId) :
    (env.bindPlaceholder id ty).Satisfies rule := by
  refine ⟨satisfied.declared, satisfied.frames.write fun top => ?_, satisfied.inProgress⟩
  exact { top with placeholders := top.placeholders.insert id holds }

/-- Binding a length variable to a length with the property keeps it. -/
theorem bindLength
    {length : Length}
    (satisfied : env.Satisfies rule)
    (holds : rule.holdsLength length)
    (id : LengthId) :
    (env.bindLength id length).Satisfies rule := by
  refine ⟨satisfied.declared, satisfied.frames.write fun top => ?_, satisfied.inProgress⟩
  exact { top with lengths := top.lengths.insert id holds }

/-- Marking a length variable as quantified writes no type. -/
theorem markGeneric (satisfied : env.Satisfies rule) (id : LengthId) :
    (env.markGeneric id).Satisfies rule := by
  refine ⟨satisfied.declared, satisfied.frames.write fun top => ?_, satisfied.inProgress⟩
  exact ⟨top.placeholders, top.lengths, top.inferred, top.parameters⟩

/-- Recording a type with the property for an expression keeps it. -/
theorem recordInferred
    {ty : Ty}
    (satisfied : env.Satisfies rule)
    (holds : rule.holds ty)
    (id : ExprId) :
    (env.recordInferred id ty).Satisfies rule := by
  refine ⟨satisfied.declared, satisfied.frames.write fun top => ?_, satisfied.inProgress⟩
  exact { top with inferred := top.inferred.insert id holds }

/-- Recording a type with the property for a parameter keeps it. -/
theorem recordParameter
    {ty : Ty}
    (satisfied : env.Satisfies rule)
    (holds : rule.holds ty)
    (function : ExprId)
    (position : Nat) :
    (env.recordParameter function position ty).Satisfies rule := by
  refine ⟨satisfied.declared, satisfied.frames.write fun top => ?_, satisfied.inProgress⟩
  exact { top with parameters := top.parameters.insert ⟨function, position⟩ holds }

/-- The trace of unification is not among the types of the environment. -/
theorem traceUnify
    (satisfied : env.Satisfies rule)
    (event : UnifyEvent)
    (left right : Operand) :
    (env.traceUnify event left right).Satisfies rule := by
  rw [traceUnify_eq]
  exact ⟨satisfied.declared, satisfied.frames, satisfied.inProgress⟩

/-- The trace of inference is not among the types of the environment. -/
theorem traceInfer
    (satisfied : env.Satisfies rule)
    (expr : Expr)
    (inferRule : InferRule)
    (ty : Ty) :
    (env.traceInfer expr inferRule ty).Satisfies rule := by
  rw [traceInfer_eq]
  exact ⟨satisfied.declared, satisfied.frames, satisfied.inProgress⟩

/-! ### What is read -/

/-- What a placeholder is bound to has the property. -/
theorem binding?
    {id : PlaceholderId}
    {ty : Ty}
    (satisfied : env.Satisfies rule)
    (found : env.binding? id = some ty) :
    rule.holds ty :=
  satisfied.frames.read Frame.Satisfies.placeholders found

/-- A recorded type has the property. -/
theorem inferred?
    {id : ExprId}
    {ty : Ty}
    (satisfied : env.Satisfies rule)
    (found : env.frames.inferred? id = some ty) :
    rule.holds ty :=
  satisfied.frames.read Frame.Satisfies.inferred found

/-- A recorded parameter type has the property. -/
theorem parameter?
    {function : ExprId}
    {position : Nat}
    {ty : Ty}
    (satisfied : env.Satisfies rule)
    (found : env.frames.parameter? function position = some ty) :
    rule.holds ty :=
  satisfied.frames.read Frame.Satisfies.parameters found

/-- The definition of a reference has the property. -/
theorem definition?
    {scope : ScopeId}
    {name : String}
    {key : AliasKey}
    {definition : Ty}
    (satisfied : env.Satisfies rule)
    (found : env.definition? scope name = some (key, definition)) :
    rule.holds definition := by
  obtain ⟨⟨around, value⟩, isFound, same⟩ := Option.map_eq_some_iff.mp found
  cases same
  obtain ⟨declaration, member, rfl⟩ := DeclarationTable.exists_of_lookup? isFound
  exact satisfied.declared.types declaration member

/-- Following bindings from a type with the property leads to one. -/
theorem follow
    {ty : Ty}
    (satisfied : env.Satisfies rule)
    (holds : rule.holds ty) :
    rule.holds (env.follow ty) := by
  have within (steps : Nat) {ty : Ty} (holds : rule.holds ty) :
      rule.holds (env.followWithin steps ty) := by
    induction steps generalizing ty with
    | zero => cases ty <;> exact holds
    | succ steps inductionHypothesis =>
        cases ty with
        | placeholder scope id =>
            rw [followWithin]
            cases found : env.binding? id with
            | none => exact holds
            | some bound => exact inductionHypothesis (satisfied.binding? found)
        | _ => exact holds
  unfold Environment.follow
  split
  · exact within _ holds
  · exact holds

/-- The head of a type with the property has it too. -/
theorem head
    {ty : Ty}
    (satisfied : env.Satisfies rule)
    (holds : rule.holds ty) :
    rule.holds (env.head ty) := by
  have within (steps : Nat) (seen : List AliasKey) {ty : Ty} (holds : rule.holds ty) :
      rule.holds (env.headWithin steps seen ty) := by
    induction steps generalizing seen ty with
    | zero => exact satisfied.follow holds
    | succ steps inductionHypothesis =>
        have followed := satisfied.follow holds
        rw [headWithin]
        split
        · rename_i scope name isNamed
          rw [isNamed] at followed
          split
          · rename_i key definition isDefined
            split
            · exact followed
            · exact inductionHypothesis _ (satisfied.definition? isDefined)
          · exact followed
        · exact followed
  exact within _ [] holds

/-- Resolving a length with the property gives one. -/
theorem resolveLength
    {length : Length}
    (satisfied : env.Satisfies rule)
    (holds : rule.holdsLength length) :
    rule.holdsLength (env.resolveLength length) := by
  have within (steps : Nat) {length : Length} (holds : rule.holdsLength length) :
      rule.holdsLength (env.resolveLengthWithin steps length) := by
    induction steps generalizing length with
    | zero => cases length <;> exact holds
    | succ steps inductionHypothesis =>
        cases length with
        | known count => exact holds
        | var id =>
            rw [resolveLengthWithin]
            cases found : env.frames.length? id with
            | none => exact holds
            | some bound =>
                have boundHolds : rule.holdsLength bound :=
                  satisfied.frames.read Frame.Satisfies.lengths found
                exact inductionHypothesis boundHolds
  cases length with
  | known count => exact holds
  | var id => exact within _ holds

/-- Resolving a type with the property gives one. -/
theorem resolve
    {ty : Ty}
    (satisfied : env.Satisfies rule)
    (holds : rule.holds ty) :
    rule.holds (env.resolve ty) := by
  have within (steps : Nat) {ty : Ty} (holds : rule.holds ty) :
      rule.holds (env.resolveWithin steps ty) := by
    induction steps generalizing ty with
    | zero => exact holds
    | succ steps inductionHypothesis =>
        refine rule.subst ?_ ?_ ?_ satisfied.resolveLength holds
        · exact fun _ _ holds => holds
        · intro scope id
          dsimp only
          split
          · rename_i bound isBound
            exact inductionHypothesis (satisfied.binding? isBound)
          · exact rule.placeholder scope id
        · exact rule.parametric
  exact within _ holds

/-- Expanding a type with the property gives one. -/
theorem expand
    {ty : Ty}
    (satisfied : env.Satisfies rule)
    (holds : rule.holds ty) :
    rule.holds (env.expand ty) := by
  have within (steps : Nat) (expanding : List AliasKey) {ty : Ty} (holds : rule.holds ty) :
      rule.holds (env.expandWithin steps expanding ty) := by
    induction steps generalizing expanding ty with
    | zero => exact holds
    | succ steps inductionHypothesis =>
        refine rule.subst ?_ ?_ ?_ satisfied.resolveLength holds
        · intro scope name named
          dsimp only
          split
          · rename_i key definition isDefined
            split
            · exact named
            · exact inductionHypothesis _ (satisfied.definition? isDefined)
          · exact named
        · intro scope id
          dsimp only
          split
          · rename_i bound isBound
            exact inductionHypothesis _ (satisfied.binding? isBound)
          · exact rule.placeholder scope id
        · exact rule.parametric
  exact within _ [] holds

end Satisfies

end Environment

end ShaderTyping
