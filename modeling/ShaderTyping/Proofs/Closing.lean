import ShaderTyping.Proofs.CheckedPrograms

namespace ShaderTyping

/-!
# Closed types

Quantifying all variables of a type leaves neither placeholders nor references in
it, provided that all references are declared and nothing leads back to itself.
While a type is closed, more and more placeholders become bound; but each new
binding is a parametric type, which leads nowhere.
-/

namespace Ty

/-- A type without placeholders and references. -/
def Closed (ty : Ty) : Prop :=
  ∀ leaf ∈ ty.leaves,
    (∀ scope id, leaf ≠ .placeholder scope id) ∧ ∀ scope name, leaf ≠ .named scope name

/-- A quantified type is closed. -/
theorem closed_parametric (scope : ScopeId) (label : LabelId) :
    (Ty.parametric scope label).Closed := by
  simp [Closed]

/-- What a traversal rebuilds has the leaves that its visits put for those of the type. -/
theorem traverse_leaves
    {m : Type → Type}
    [Monad m]
    {motive : ∀ {α : Type}, m α → (α → Prop) → Prop}
    (pure :
      ∀ {α : Type} {value : α} {post : α → Prop},
        post value → motive (pure value : m α) post)
    (bind :
      ∀ {α β : Type} {first : m α} {next : α → m β} {middle : α → Prop} {post : β → Prop},
        motive first middle →
        (∀ value, middle value → motive (next value) post) →
        motive (first >>= next) post)
    {visitor : Visitor m}
    {good : Ty → Prop}
    (length : ∀ length, motive (visitor.length length) fun _ => True)
    {ty : Ty}
    (visits :
      ∀ leaf ∈ ty.leaves,
        motive (leaf.traverse visitor) fun rebuilt => ∀ part ∈ rebuilt.leaves, good part) :
    motive (ty.traverse visitor) fun rebuilt => ∀ part ∈ rebuilt.leaves, good part := by
  induction ty using Ty.induction with
  | primitive | named | placeholder | parametric => exact visits _ (by simp)
  | array component bound inductionHypothesis =>
      refine bind (inductionHypothesis ?_) fun _ rebuilt => ?_
      · simpa using visits
      · exact bind (length bound) fun _ _ => pure (by simpa using rebuilt)
  | function param result paramHypothesis resultHypothesis =>
      simp only [leaves_function, List.forall_mem_append] at visits
      refine bind (paramHypothesis visits.1) fun _ paramRebuilt => ?_
      refine bind (resultHypothesis visits.2) fun _ resultRebuilt => pure ?_
      rw [leaves_function]
      exact List.forall_mem_append.mpr ⟨paramRebuilt, resultRebuilt⟩
  | struct fields inductionHypothesis =>
      have visited :=
        traverseFields_ensures pure bind (fun _ rebuilt => ∀ part ∈ rebuilt.leaves, good part)
          fun field isField => inductionHypothesis field isField fun leaf isLeaf =>
            visits leaf (by
              rw [leaves_struct]
              exact List.mem_flatMap.mpr ⟨field, isField, isLeaf⟩)
      refine bind visited fun rebuilt related => pure fun part isPart => ?_
      rw [leaves_struct] at isPart
      obtain ⟨field, isField, inField⟩ := List.mem_flatMap.mp isPart
      obtain ⟨_, _, _, each⟩ := exists_of_forall₂ related isField
      exact each part inField
  | union members inductionHypothesis =>
      have visited :=
        traverseMembers_ensures pure bind (fun _ rebuilt => ∀ part ∈ rebuilt.leaves, good part)
          fun member isMember => inductionHypothesis member isMember fun leaf isLeaf =>
            visits leaf (by
              rw [leaves_union]
              exact List.mem_flatMap.mpr ⟨member, isMember, isLeaf⟩)
      refine bind visited fun rebuilt related => pure fun part isPart => ?_
      obtain ⟨member, isMember, inMember⟩ := mem_collect_ofMembers isPart
      obtain ⟨_, _, each⟩ := exists_of_forall₂ related isMember
      exact each part inMember

end Ty

namespace Environment

/--
The environment differs from the first one in placeholders that were quantified
since.
-/
structure Quantifies (start env : Environment) : Prop where
  declared : env.declared = start.declared
  bindings :
    ∀ {id bound}, env.binding? id = some bound →
      start.binding? id = some bound ∨ ∃ scope label, bound = .parametric scope label

/-- The computation only quantifies placeholders, and its value is as stated. -/
def Closes
    (start : Environment)
    (computation : StateM Environment α)
    (post : α → Prop) : Prop :=
  ∀ env, start.Quantifies env →
    start.Quantifies (computation env).2 ∧ post (computation env).1

variable {start : Environment}

namespace Closes

theorem pure
    {value : α}
    {post : α → Prop}
    (holds : post value) :
    Closes start (Pure.pure value : StateM Environment α) post :=
  fun _ quantifies => ⟨quantifies, holds⟩

/-- Two computations in a row close if both do. -/
theorem bind
    {first : StateM Environment α}
    {next : α → StateM Environment β}
    {middle : α → Prop}
    {post : β → Prop}
    (firstCloses : Closes start first middle)
    (nextCloses : ∀ value, middle value → Closes start (next value) post) :
    Closes start (first >>= next) post := by
  intro env quantifies
  obtain ⟨middleQuantifies, middleHolds⟩ := firstCloses env quantifies
  exact nextCloses _ middleHolds _ middleQuantifies

/-- A computation that reads the environment closes if what follows does wherever closing leads. -/
theorem bind_get
    {next : Environment → StateM Environment α}
    {post : α → Prop}
    (nextCloses : ∀ env, start.Quantifies env → Closes start (next env) post) :
    Closes start (get >>= next) post :=
  fun env quantifies => nextCloses env quantifies env quantifies

end Closes

/-- Quantifying a placeholder gives a closed type. -/
theorem quantifyPlaceholder_closes (scope : ScopeId) (id : PlaceholderId) :
    Closes start (quantifyPlaceholder VarSet.empty scope id) Ty.Closed := by
  intro env quantifies
  have isQuantified :
      quantifyPlaceholder VarSet.empty scope id env =
        (.parametric scope ⟨env.fresh.label⟩,
          (freshLabel env).2.bindPlaceholder id (.parametric scope ⟨env.fresh.label⟩)) := by
    simp only [quantifyPlaceholder, VarSet.contains_empty, Bool.false_eq_true, if_false]
    rfl
  rw [isQuantified]
  refine ⟨⟨quantifies.declared, fun {other bound} found => ?_⟩, Ty.closed_parametric _ _⟩
  change FrameStack.placeholder? (FrameStack.bindPlaceholder id _ env.frames) other =
    some bound at found
  rw [FrameStack.placeholder?_bindPlaceholder] at found
  split at found
  · cases found
    exact Or.inr ⟨scope, _, rfl⟩
  · exact quantifies.bindings found

/-- Quantifying a length gives a length. -/
theorem quantifyLength_closes (length : Length) :
    Closes start (quantifyLength VarSet.empty length) fun _ => True := by
  refine .bind_get fun _ _ => ?_
  split
  · rename_i id _
    simp only [VarSet.contains_empty]
    intro env quantifies
    refine ⟨⟨quantifies.declared, fun {other bound} found => quantifies.bindings ?_⟩, trivial⟩
    have sameBinding :
        (env.frames.markGeneric id).placeholder? other = env.frames.placeholder? other :=
      FrameStack.read_write_of_eq rfl
    exact sameBinding.symm.trans found
  · exact .pure trivial

/-- A quantified type is not quantified again. -/
theorem quantifyWithin_parametric
    (kept : VarSet)
    (steps : Nat)
    (expanding : List AliasKey)
    (scope : ScopeId)
    (label : LabelId) :
    quantifyWithin kept steps expanding (.parametric scope label) =
      pure (.parametric scope label) := by
  cases steps <;> rfl

/--
Quantifying all variables within enough steps closes a type.

The steps are counted along what was bound and declared at the start.  The declared
types around a type rank at least as high as the type itself, so none of them is
met again.
-/
theorem quantifyWithin_closes
    {rank : Ty → Nat}
    (ranks : start.Ranks rank)
    (satisfied : start.Satisfies (.covered start.declared))
    {steps : Nat}
    {expanding : List AliasKey}
    {ty : Ty}
    (covers : start.declared.Covers ty)
    (enough : rank ty < steps)
    (above : start.RankAbove rank expanding ty) :
    Closes start (quantifyWithin VarSet.empty steps expanding ty) Ty.Closed := by
  induction steps generalizing expanding ty with
  | zero => exact absurd enough (Nat.not_lt_zero _)
  | succ steps inductionHypothesis =>
      refine Ty.traverse_leaves (motive := Closes start) .pure .bind quantifyLength_closes
        fun leaf isLeaf => ?_
      cases Ty.isLeaf_of_mem_leaves isLeaf with
      | primitive kind => exact .pure (by simp)
      | parametric scope label => exact .pure (Ty.closed_parametric scope label)
      | placeholder scope id =>
          refine .bind_get fun env quantifies => ?_
          cases found : env.binding? id with
          | none => exact quantifyPlaceholder_closes scope id
          | some bound =>
              -- What was quantified since the start has no rank, but it leads nowhere.
              rcases quantifies.bindings found with atStart | ⟨boundScope, label, rfl⟩
              · have isLess := ranks.binding isLeaf atStart
                exact inductionHypothesis (satisfied.binding? atStart) (by omega)
                  (above.of_le isLess.le)
              · dsimp only
                rw [quantifyWithin_parametric]
                exact .pure (Ty.closed_parametric _ _)
      | named scope name =>
          refine .bind_get fun env quantifies => ?_
          obtain ⟨key, definition, isDefined⟩ := definition?_of_covers covers isLeaf
          have isLess := ranks.definition isLeaf isDefined
          have isNew := above.contains_eq_false isDefined isLess
          rw [definition?_congr quantifies.declared, isDefined]
          simp only [isNew, Bool.false_eq_true, if_false]
          exact inductionHypothesis (satisfied.definition? isDefined) (by omega)
            (above.cons isDefined isLess)

/-- Closing a type leaves neither placeholders nor references. -/
theorem close_closed
    (acyclic : start.Acyclic)
    (satisfied : start.Satisfies (.covered start.declared))
    {ty : Ty}
    (covers : start.declared.Covers ty) :
    (close ty start).1.Closed := by
  obtain ⟨rank, bounded, ranks⟩ := exists_expansionRank acyclic
  have enough : rank ty < start.walkLimit + 1 := by
    have isBounded := bounded ty
    rw [walkLimit, Nat.succ_mul, Nat.mul_succ]
    omega
  have closes := quantifyWithin_closes ranks satisfied covers enough .nil
  exact (closes start ⟨rfl, Or.inl⟩).2

end Environment

end ShaderTyping
