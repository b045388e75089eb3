import Mathlib.Data.List.Infix
import ShaderTyping.Workspace

namespace ShaderTyping

/-!
# Scopes around scopes and the nearest declaration

The scopes around a scope are those from which its list of ancestors goes on, so one
scope encloses another one exactly if its ancestors are an end of the other's
(`ScopeTree.encloses_iff_suffix`).  Ends of one list are ordered by length, which makes
the scopes around a scope a chain.  Looking a name up goes through this chain from the
inside out, so it finds the declaration that no other one stands in front of
(`DeclarationTable.Nearest`), and a new declaration only changes what is found where it
is the nearest itself.
-/

namespace ScopeTree

variable {tree : ScopeTree} {scope inner outer : ScopeId}

/-- Induction along parents: from the scope around a scope to the scope. -/
theorem parentInduction
    (tree : ScopeTree)
    {motive : ScopeId → Prop}
    (step :
      ∀ scope,
        (∀ parent, tree.parent? scope = some parent → motive parent) →
        motive scope)
    (scope : ScopeId) :
    motive scope := by
  induction isNumber : scope.number using Nat.strong_induction_on generalizing scope with
  | _ _ inductionHypothesis =>
      refine step scope fun parent found => ?_
      exact inductionHypothesis parent.number (isNumber ▸ parent?_lt found) parent rfl

/-- The ancestors of a scope are the scope and those of its parent. -/
theorem ancestors_of_parent?
    {parent : ScopeId}
    (found : tree.parent? scope = some parent) :
    tree.ancestors scope = scope :: tree.ancestors parent := by
  rw [ancestors_eq, found]

/-- A scope without a parent is its only ancestor. -/
theorem ancestors_of_no_parent
    (found : tree.parent? scope = none) :
    tree.ancestors scope = [scope] := by
  rw [ancestors_eq, found]

/-- The ancestors of a scope begin with the scope itself. -/
theorem exists_ancestors_eq_cons (tree : ScopeTree) (scope : ScopeId) :
    ∃ others, tree.ancestors scope = scope :: others := by
  cases found : tree.parent? scope with
  | none => exact ⟨[], ancestors_of_no_parent found⟩
  | some parent => exact ⟨tree.ancestors parent, ancestors_of_parent? found⟩

/-- Every ancestor but the first is the parent of the one before it. -/
theorem ancestors_isChain (tree : ScopeTree) (scope : ScopeId) :
    (tree.ancestors scope).IsChain fun inner outer => tree.parent? inner = some outer := by
  induction scope using parentInduction tree with
  | step scope inductionHypothesis =>
      cases found : tree.parent? scope with
      | none =>
          rw [ancestors_of_no_parent found]
          exact .singleton scope
      | some parent =>
          have rest := inductionHypothesis parent found
          obtain ⟨others, isList⟩ := tree.exists_ancestors_eq_cons parent
          rw [ancestors_of_parent? found]
          rw [isList] at rest ⊢
          exact rest.cons_cons found

/-- Ancestors get older from the inside out. -/
theorem ancestors_pairwise (tree : ScopeTree) (scope : ScopeId) :
    (tree.ancestors scope).Pairwise fun inner outer => outer.number < inner.number := by
  have descends :
      (tree.ancestors scope).IsChain fun inner outer => outer.number < inner.number :=
    (tree.ancestors_isChain scope).imp fun _ _ => parent?_lt
  have older : IsTrans ScopeId fun inner outer => outer.number < inner.number :=
    ⟨fun _ _ _ first second => Nat.lt_trans second first⟩
  exact descends.pairwise

/-- No scope is among its ancestors twice. -/
theorem ancestors_nodup (tree : ScopeTree) (scope : ScopeId) :
    (tree.ancestors scope).Nodup :=
  (tree.ancestors_pairwise scope).imp fun isOlder same => by
    subst same
    exact Nat.lt_irrefl _ isOlder

/-- Only the root has no parent among the scopes of a tree. -/
theorem eq_native_of_no_parent
    (isScope : tree.contains scope = true)
    (found : tree.parent? scope = none) :
    scope = .native := by
  obtain ⟨number⟩ := scope
  cases number with
  | zero => rfl
  | succ position =>
      have inside : position < tree.parents.size := by
        simpa [contains, size] using isScope
      rw [parent?, Array.getElem?_eq_none_iff] at found
      omega

/-- The parent of a scope of the tree is in the tree. -/
theorem contains_parent
    {parent : ScopeId}
    (isScope : tree.contains scope = true)
    (found : tree.parent? scope = some parent) :
    tree.contains parent = true := by
  rw [contains, decide_eq_true_iff] at isScope ⊢
  exact Nat.lt_trans (parent?_lt found) isScope

/-- The walk from a scope of a tree ends at the root. -/
theorem ancestors_getLast?
    (isScope : tree.contains scope = true) :
    (tree.ancestors scope).getLast? = some .native := by
  induction scope using parentInduction tree with
  | step scope inductionHypothesis =>
      cases found : tree.parent? scope with
      | none =>
          rw [ancestors_of_no_parent found, eq_native_of_no_parent isScope found]
          rfl
      | some parent =>
          have endsAtRoot := inductionHypothesis parent found (contains_parent isScope found)
          rw [ancestors_of_parent? found, List.getLast?_cons, endsAtRoot]
          rfl

/-! ## Enclosing scopes -/

/-- A scope encloses those of whose ancestors it is one. -/
theorem encloses_iff_mem : tree.encloses outer inner = true ↔ outer ∈ tree.ancestors inner := by
  rw [encloses, List.contains_iff_mem]

/-- A scope encloses another one if its ancestors are the last ancestors of the other one. -/
theorem encloses_iff_suffix :
    tree.encloses outer inner = true ↔ tree.ancestors outer <:+ tree.ancestors inner := by
  rw [encloses_iff_mem]
  constructor
  · intro isAround
    induction inner using parentInduction tree with
    | step inner inductionHypothesis =>
        cases found : tree.parent? inner with
        | none =>
            rw [ancestors_of_no_parent found, List.mem_singleton] at isAround
            rw [isAround]
        | some parent =>
            rw [ancestors_of_parent? found, List.mem_cons] at isAround
            rcases isAround with rfl | isAround
            · exact List.suffix_rfl
            · rw [ancestors_of_parent? found]
              exact (inductionHypothesis parent found isAround).trans (List.suffix_cons _ _)
  · intro isSuffix
    obtain ⟨others, isList⟩ := tree.exists_ancestors_eq_cons outer
    exact isSuffix.subset (isList ▸ List.mem_cons_self)

/-- A scope encloses itself. -/
theorem encloses_self (tree : ScopeTree) (scope : ScopeId) : tree.encloses scope scope = true :=
  encloses_iff_suffix.mpr List.suffix_rfl

/-- Enclosing is transitive. -/
theorem encloses_trans
    {middle : ScopeId}
    (first : tree.encloses outer middle = true)
    (second : tree.encloses middle inner = true) :
    tree.encloses outer inner = true :=
  encloses_iff_suffix.mpr
    ((encloses_iff_suffix.mp first).trans (encloses_iff_suffix.mp second))

/-- Two scopes that enclose each other are the same. -/
theorem encloses_antisymm
    (first : tree.encloses outer inner = true)
    (second : tree.encloses inner outer = true) :
    outer = inner := by
  have sameList : tree.ancestors outer = tree.ancestors inner :=
    (encloses_iff_suffix.mp first).eq_of_length_le (encloses_iff_suffix.mp second).length_le
  obtain ⟨_, isOuter⟩ := tree.exists_ancestors_eq_cons outer
  obtain ⟨_, isInner⟩ := tree.exists_ancestors_eq_cons inner
  rw [isOuter, isInner] at sameList
  exact List.head_eq_of_cons_eq sameList

/-- The outermost scope encloses every scope of the tree. -/
theorem encloses_native
    (isScope : tree.contains scope = true) :
    tree.encloses .native scope = true :=
  encloses_iff_mem.mpr (List.mem_of_getLast? (ancestors_getLast? isScope))

/-- The scopes around one scope form a chain. -/
theorem encloses_or_encloses
    {other : ScopeId}
    (first : tree.encloses outer scope = true)
    (second : tree.encloses other scope = true) :
    tree.encloses outer other = true ∨ tree.encloses other outer = true :=
  (List.suffix_or_suffix_of_suffix (encloses_iff_suffix.mp first)
    (encloses_iff_suffix.mp second)).imp encloses_iff_suffix.mpr encloses_iff_suffix.mpr

/-- The scopes around a scope are the scope and those around its parent. -/
theorem encloses_iff_of_parent?
    {parent : ScopeId}
    (found : tree.parent? inner = some parent) :
    tree.encloses outer inner = true ↔ outer = inner ∨ tree.encloses outer parent = true := by
  rw [encloses_iff_mem, ancestors_of_parent? found, List.mem_cons, encloses_iff_mem]

/--
Scopes form a tree: the walk up from a scope goes from parent to parent without
repetition and ends at the root, and enclosing is a partial order with the root on top
in which the scopes around one scope are a chain.
-/
structure Nested (tree : ScopeTree) : Prop where
  starts : ∀ scope, (tree.ancestors scope).head? = some scope
  climbs :
    ∀ scope, (tree.ancestors scope).IsChain fun inner outer => tree.parent? inner = some outer
  ends : ∀ scope, tree.contains scope = true → (tree.ancestors scope).getLast? = some .native
  nodup : ∀ scope, (tree.ancestors scope).Nodup
  refl : ∀ scope, tree.encloses scope scope = true
  antisymm :
    ∀ outer inner, tree.encloses outer inner = true → tree.encloses inner outer = true → outer = inner
  trans :
    ∀ outer middle inner,
      tree.encloses outer middle = true →
      tree.encloses middle inner = true →
      tree.encloses outer inner = true
  root : ∀ scope, tree.contains scope = true → tree.encloses .native scope = true
  comparable :
    ∀ outer other scope,
      tree.encloses outer scope = true →
      tree.encloses other scope = true →
      tree.encloses outer other = true ∨ tree.encloses other outer = true

/-- The scopes of any tree are nested. -/
theorem nested (tree : ScopeTree) : tree.Nested where
  starts scope := by
    obtain ⟨others, isList⟩ := tree.exists_ancestors_eq_cons scope
    rw [isList, List.head?_cons]
  climbs := tree.ancestors_isChain
  ends _ := ancestors_getLast?
  nodup := tree.ancestors_nodup
  refl := tree.encloses_self
  antisymm _ _ := encloses_antisymm
  trans _ _ _ := encloses_trans
  root _ := encloses_native
  comparable _ _ _ := encloses_or_encloses

end ScopeTree

/-! ## The nearest declaration -/

namespace DeclarationTable

variable {table extended : DeclarationTable α} {added : Declaration α} {tree : ScopeTree}
  {scope around : ScopeId} {name : String} {value : α}

/-- No scope around the given one and strictly inside the other one declares the name. -/
def Unshadowed
    (table : DeclarationTable α)
    (tree : ScopeTree)
    (scope around : ScopeId)
    (name : String) : Prop :=
  ∀ nearer,
    tree.encloses nearer scope = true →
    tree.encloses around nearer = true →
    nearer ≠ around →
    table.local? nearer name = none

/-- A scope around the given one declares the name, and no scope in between does. -/
structure Nearest
    (table : DeclarationTable α)
    (tree : ScopeTree)
    (scope : ScopeId)
    (name : String)
    (around : ScopeId)
    (value : α) : Prop where
  declared : table.local? around name = some value
  encloses : tree.encloses around scope = true
  unshadowed : table.Unshadowed tree scope around name

/-- What the scope itself declares is nearest. -/
theorem lookup?_of_local?
    (declared : table.local? scope name = some value) :
    table.lookup? tree scope name = some (scope, value) := by
  obtain ⟨others, isList⟩ := tree.exists_ancestors_eq_cons scope
  rw [lookup?_eq, isList, List.findSome?_cons, declared]
  rfl

/-- A name that the scope does not declare is looked up in the scope around it. -/
theorem lookup?_of_parent?
    {parent : ScopeId}
    (undeclared : table.local? scope name = none)
    (found : tree.parent? scope = some parent) :
    table.lookup? tree scope name = table.lookup? tree parent name := by
  rw [lookup?_eq, ScopeTree.ancestors_of_parent? found, List.findSome?_cons, undeclared, lookup?_eq]
  rfl

/-- In a scope without a parent only its own declarations are found. -/
theorem lookup?_of_no_parent
    (undeclared : table.local? scope name = none)
    (found : tree.parent? scope = none) :
    table.lookup? tree scope name = none := by
  rw [lookup?_eq, ScopeTree.ancestors_of_no_parent found, List.findSome?_cons, undeclared]
  rfl

/-- A declaration in the scope itself is the nearest, and the only one that is. -/
theorem nearest_iff_of_local?
    {own : α}
    (declared : table.local? scope name = some own) :
    table.Nearest tree scope name around value ↔ scope = around ∧ own = value := by
  constructor
  · intro nearest
    have same : scope = around := by
      by_contra different
      have undeclared :=
        nearest.unshadowed scope (tree.encloses_self scope) nearest.encloses different
      rw [declared] at undeclared
      contradiction
    subst same
    exact ⟨rfl, Option.some.inj (declared.symm.trans nearest.declared)⟩
  · rintro ⟨rfl, rfl⟩
    refine ⟨declared, tree.encloses_self scope, fun nearer inside encloses different => ?_⟩
    exact absurd (ScopeTree.encloses_antisymm inside encloses) different

/-- Without a declaration in the scope itself the nearest one is that of its parent. -/
theorem nearest_iff_of_parent?
    {parent : ScopeId}
    (undeclared : table.local? scope name = none)
    (found : tree.parent? scope = some parent) :
    table.Nearest tree scope name around value ↔ table.Nearest tree parent name around value := by
  constructor
  · rintro ⟨declared, encloses, unshadowed⟩
    refine ⟨declared, ?_, fun nearer inside => ?_⟩
    · rcases (ScopeTree.encloses_iff_of_parent? found).mp encloses with rfl | aroundParent
      · rw [undeclared] at declared
        contradiction
      · exact aroundParent
    · exact unshadowed nearer ((ScopeTree.encloses_iff_of_parent? found).mpr (Or.inr inside))
  · rintro ⟨declared, encloses, unshadowed⟩
    refine ⟨declared, ?_, fun nearer inside => ?_⟩
    · exact (ScopeTree.encloses_iff_of_parent? found).mpr (Or.inr encloses)
    · rcases (ScopeTree.encloses_iff_of_parent? found).mp inside with rfl | aroundParent
      · exact fun _ _ => undeclared
      · exact unshadowed nearer aroundParent

/-- Looking a name up finds the nearest declaration. -/
theorem lookup?_eq_some_iff :
    table.lookup? tree scope name = some (around, value) ↔
      table.Nearest tree scope name around value := by
  induction scope using ScopeTree.parentInduction tree with
  | step scope inductionHypothesis =>
      cases declared : table.local? scope name with
      | some own =>
          rw [lookup?_of_local? declared, nearest_iff_of_local? declared, Option.some.injEq,
            Prod.mk.injEq]
      | none =>
          cases found : tree.parent? scope with
          | some parent =>
              rw [lookup?_of_parent? declared found, nearest_iff_of_parent? declared found]
              exact inductionHypothesis parent found
          | none =>
              rw [lookup?_of_no_parent declared found]
              refine ⟨nofun, fun nearest => ?_⟩
              have isAround := ScopeTree.encloses_iff_mem.mp nearest.encloses
              rw [ScopeTree.ancestors_of_no_parent found, List.mem_singleton] at isAround
              have isDeclared := nearest.declared
              rw [isAround, declared] at isDeclared
              contradiction

/-! ## New declarations -/

/-- A declaration that is not asked for does not change what is found. -/
theorem find?_place_of_not
    {chosen : Declaration α → Bool}
    (notAdded : chosen added = false)
    (entries : List (Declaration α)) :
    (place added entries).find? chosen = entries.find? chosen := by
  induction entries with
  | nil => simp [place, notAdded]
  | cons first rest inductionHypothesis =>
      unfold place
      split
      · rw [List.find?_cons_of_neg (by simp [notAdded])]
      · rw [List.find?_cons, List.find?_cons, inductionHypothesis]

/-- A new declaration is found where none was found before. -/
theorem find?_place_of_new
    {chosen : Declaration α → Bool}
    (isAdded : chosen added = true)
    {entries : List (Declaration α)}
    (isNew : entries.find? chosen = none) :
    (place added entries).find? chosen = some added := by
  induction entries with
  | nil => simp [place, isAdded]
  | cons first rest inductionHypothesis =>
      rw [List.find?_eq_none, List.forall_mem_cons] at isNew
      unfold place
      split
      · exact List.find?_cons_of_pos isAdded
      · rw [List.find?_cons_of_neg isNew.1]
        exact inductionHypothesis (List.find?_eq_none.mpr isNew.2)

/-- A declaration is accepted exactly if its scope does not declare its name yet. -/
theorem exists_insert_iff :
    (∃ extended, table.insert added = .ok extended) ↔
      table.local? added.scope added.name = none := by
  rw [local?, Option.map_eq_none_iff]
  unfold insert
  split
  · rename_i found
    simp [found]
  · rename_i isNew
    simp [isNew]

/-- An accepted declaration adds what its scope declares under its name and nothing else. -/
theorem local?_insert
    (inserted : table.insert added = .ok extended)
    (scope : ScopeId)
    (name : String) :
    extended.local? scope name =
      if scope = added.scope ∧ name = added.name then
        some added.value
      else
        table.local? scope name := by
  unfold insert at inserted
  split at inserted
  · contradiction
  · rename_i isNew
    cases inserted
    split
    · rename_i same
      obtain ⟨rfl, rfl⟩ := same
      rw [local?, find?, find?_place_of_new (by simp [Declaration.introduces]) isNew]
      rfl
    · rename_i different
      have notAdded : added.introduces scope name = false := by
        rw [Declaration.introduces, Bool.and_eq_false_iff, beq_eq_false_iff_ne, beq_eq_false_iff_ne,
          ← not_and_or]
        exact fun same => different ⟨same.1.symm, same.2.symm⟩
      rw [local?, find?, find?_place_of_not notAdded]
      rfl

section Insert

variable (inserted : table.insert added = .ok extended)
include inserted

/-- Other scopes declare what they declared before. -/
theorem local?_of_insert_ne
    (different : scope ≠ added.scope) :
    extended.local? scope name = table.local? scope name := by
  rw [local?_insert inserted, if_neg fun same => different same.1]

/-- The new declaration is there. -/
theorem local?_of_insert_self : extended.local? added.scope added.name = some added.value := by
  rw [local?_insert inserted, if_pos ⟨rfl, rfl⟩]

/-- An accepted declaration was not there before. -/
theorem isNew_of_insert : table.local? added.scope added.name = none :=
  exists_insert_iff.mp ⟨extended, inserted⟩

/-- A scope in which a new declaration stands for its name. -/
theorem nearest_added
    (encloses : tree.encloses added.scope scope = true)
    (unshadowed : table.Unshadowed tree scope added.scope added.name) :
    extended.Nearest tree scope added.name added.scope added.value := by
  refine ⟨local?_of_insert_self inserted, encloses, fun nearer inside outside different => ?_⟩
  rw [local?_of_insert_ne inserted different]
  exact unshadowed nearer inside outside different

/-- Where a new declaration is not the nearest, the same declaration is as before. -/
theorem nearest_insert_iff
    (notReached :
      ¬ (name = added.name ∧ tree.encloses added.scope scope = true ∧
        table.Unshadowed tree scope added.scope added.name)) :
    extended.Nearest tree scope name around value ↔ table.Nearest tree scope name around value := by
  by_cases isName : name = added.name
  · subst isName
    have isNew := isNew_of_insert inserted
    constructor
    · rintro ⟨declared, encloses, unshadowed⟩
      have different : around ≠ added.scope := by
        rintro rfl
        refine notReached ⟨rfl, encloses, fun nearer inside outside apart => ?_⟩
        rw [← local?_of_insert_ne inserted apart]
        exact unshadowed nearer inside outside apart
      rw [local?_of_insert_ne inserted different] at declared
      refine ⟨declared, encloses, fun nearer inside outside apart => ?_⟩
      by_cases isAdded : nearer = added.scope
      · exact isAdded ▸ isNew
      · rw [← local?_of_insert_ne inserted isAdded]
        exact unshadowed nearer inside outside apart
    · rintro ⟨declared, encloses, unshadowed⟩
      have different : around ≠ added.scope := by
        rintro rfl
        rw [isNew] at declared
        contradiction
      refine ⟨(local?_of_insert_ne inserted different).trans declared, encloses, ?_⟩
      intro nearer inside outside apart
      by_cases isAdded : nearer = added.scope
      · -- A declaration in front of the new one would also stand in front of the old one.
        subst isAdded
        refine absurd ⟨rfl, inside, fun closer closerInside closerOutside closerApart => ?_⟩ notReached
        refine unshadowed closer closerInside (ScopeTree.encloses_trans outside closerOutside) ?_
        rintro rfl
        exact different (ScopeTree.encloses_antisymm outside closerOutside)
      · rw [local?_of_insert_ne inserted isAdded]
        exact unshadowed nearer inside outside apart
  · have sameLocal (scope : ScopeId) : extended.local? scope name = table.local? scope name := by
      rw [local?_insert inserted, if_neg fun same => isName same.2]
    constructor
    · rintro ⟨declared, encloses, unshadowed⟩
      refine ⟨(sameLocal around).symm.trans declared, encloses, fun nearer inside outside apart => ?_⟩
      exact (sameLocal nearer).symm.trans (unshadowed nearer inside outside apart)
    · rintro ⟨declared, encloses, unshadowed⟩
      refine ⟨(sameLocal around).trans declared, encloses, fun nearer inside outside apart => ?_⟩
      exact (sameLocal nearer).trans (unshadowed nearer inside outside apart)

/-- A new declaration changes what is found exactly where it is the nearest. -/
theorem lookup?_insert_ne_iff :
    extended.lookup? tree scope name ≠ table.lookup? tree scope name ↔
      name = added.name ∧ tree.encloses added.scope scope = true ∧
        table.Unshadowed tree scope added.scope added.name := by
  constructor
  · intro changes
    by_contra notReached
    refine changes (Option.ext fun found => ?_)
    obtain ⟨around, value⟩ := found
    rw [lookup?_eq_some_iff, lookup?_eq_some_iff]
    exact nearest_insert_iff inserted notReached
  · rintro ⟨rfl, encloses, unshadowed⟩ same
    rw [lookup?_eq_some_iff.mpr (nearest_added inserted encloses unshadowed)] at same
    have declared := (lookup?_eq_some_iff.mp same.symm).declared
    rw [isNew_of_insert inserted] at declared
    contradiction

end Insert

end DeclarationTable

/-! ## Programs -/

/-- A refused declaration leaves the program as it was. -/
theorem Build.eq_of_declare_eq_error
    {change : Declarations → Except DeclarationError (α × Declarations)}
    {workspace left : Workspace}
    {cause : DeclarationError}
    (refused : (declare change).run workspace = .error cause left) :
    left = workspace := by
  rw [declare, EStateM.run_bind, EStateM.run_get] at refused
  dsimp only at refused
  cases changed : change workspace.env.declared with
  | ok accepted =>
      rw [changed] at refused
      cases refused
  | error refusal =>
      rw [changed] at refused
      cases refused
      rfl

/--
Scopes form a tree, and a name stands for its nearest declaration: the one made in a
scope around it such that no scope in between declares the name.

A declaration is accepted exactly if its scope does not declare the name yet.  An accepted
one changes what is found under its own name, from the scopes inside its scope in front of
which no other declaration of the name stands, and nothing else; a refused one changes
nothing.
-/
theorem names_stand_for_nearest_declarations
    (tree : ScopeTree)
    (table : DeclarationTable α) :
    tree.Nested ∧
    (∀ scope name around value,
      table.lookup? tree scope name = some (around, value) ↔
        table.Nearest tree scope name around value) ∧
    (∀ added,
      ((∃ extended, table.insert added = .ok extended) ↔
        table.local? added.scope added.name = none) ∧
      ∀ extended, table.insert added = .ok extended →
        ∀ scope name,
          extended.lookup? tree scope name ≠ table.lookup? tree scope name ↔
            name = added.name ∧ tree.encloses added.scope scope = true ∧
              table.Unshadowed tree scope added.scope added.name) ∧
    (∀ (workspace left : Workspace) scope name ty expr cause,
      (Build.declareType scope name ty).run workspace = .error cause left ∨
        (Build.declareVariable scope name expr).run workspace = .error cause left →
      left.env.declared.findType? = workspace.env.declared.findType? ∧
        left.env.declared.findVariable? = workspace.env.declared.findVariable?) := by
  refine ⟨tree.nested, fun _ _ _ _ => DeclarationTable.lookup?_eq_some_iff, fun added => ?_, ?_⟩
  · refine ⟨DeclarationTable.exists_insert_iff, fun extended inserted scope name => ?_⟩
    exact DeclarationTable.lookup?_insert_ne_iff inserted
  · rintro workspace left scope name ty expr cause (refused | refused)
    · rw [Build.eq_of_declare_eq_error refused]
      exact ⟨rfl, rfl⟩
    · rw [Build.eq_of_declare_eq_error refused]
      exact ⟨rfl, rfl⟩

namespace ShadowedName

/-- Two scopes below the root, the second inside the first. -/
def tree : ScopeTree where
  parents := #[⟨0⟩, ⟨1⟩]
  older := by
    intro position parent found
    match position with
    | 0 | 1 =>
        cases found
        decide
    | position + 2 => simp at found

/-- The outer scope declares `x`. -/
def table : DeclarationTable Nat where
  entries := [⟨⟨1⟩, "x", 1⟩]
  sorted := List.pairwise_singleton _ _

end ShadowedName

/-- A declaration in an inner scope shadows the outer one there, and only there. -/
theorem names_stand_for_nearest_declarations_shadowed :
    ∃ extended,
      ShadowedName.table.insert ⟨⟨2⟩, "x", 3⟩ = .ok extended ∧
        ShadowedName.table.lookup? ShadowedName.tree ⟨2⟩ "x" = some (⟨1⟩, 1) ∧
        extended.lookup? ShadowedName.tree ⟨2⟩ "x" ≠
          ShadowedName.table.lookup? ShadowedName.tree ⟨2⟩ "x" ∧
        extended.lookup? ShadowedName.tree ⟨1⟩ "x" =
          ShadowedName.table.lookup? ShadowedName.tree ⟨1⟩ "x" := by
  obtain ⟨nested, _, inserts, _⟩ :=
    names_stand_for_nearest_declarations ShadowedName.tree ShadowedName.table
  obtain ⟨accepted, changes⟩ := inserts ⟨⟨2⟩, "x", 3⟩
  obtain ⟨extended, inserted⟩ := accepted.mpr (by decide)
  refine ⟨extended, inserted, by decide, ?_, ?_⟩
  · refine (changes extended inserted ⟨2⟩ "x").mpr ⟨rfl, by decide, ?_⟩
    exact fun nearer inside outside apart => absurd (nested.antisymm _ _ inside outside) apart
  · by_contra differs
    obtain ⟨_, encloses, _⟩ := (changes extended inserted ⟨1⟩ "x").mp differs
    exact absurd encloses (by decide)

end ShaderTyping
