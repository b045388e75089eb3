import Mathlib.Data.List.Perm.Subperm
import ShaderTyping.Proofs.Resolution

namespace ShaderTyping

/-!
# The occurs check finds every placeholder

A leaf of a type unfolds to the type that it is bound to or defined as.  The
search of `occurs` follows every binding, but each definition only once, also
while it is still inside that definition.  Nothing is missed that way: when a
search ends without success, the definitions that it has been through lead only
to each other, and none of them mentions the placeholder.
-/

namespace Environment

/-- The type that a leaf is bound to or defined as. -/
def standsFor? (env : Environment) : Ty → Option Ty
  | .placeholder _ id => env.binding? id
  | .named scope name => (env.definition? scope name).map Prod.snd
  | _ => none

/-- A leaf leads to the leaves of the type that it unfolds to. -/
def LeadsTo (env : Environment) : Ty → Ty → Prop :=
  Table.Leads env.standsFor? fun ty leaf => leaf ∈ ty.leaves

/-- A leaf is met in a type along bindings and definitions. -/
def Reaches (env : Environment) (ty target : Ty) : Prop :=
  ∃ leaf ∈ ty.leaves, Relation.ReflTransGen env.LeadsTo leaf target

/-- The declared types. -/
def aliasKeys (env : Environment) : List AliasKey :=
  env.declared.types.entries.map fun declaration => (declaration.scope, declaration.name)

variable {env : Environment}

/-- A reference stands for what the declaring scope declares under its name. -/
theorem local?_of_definition?
    {scope : ScopeId}
    {name : String}
    {key : AliasKey}
    {definition : Ty}
    (found : env.definition? scope name = some (key, definition)) :
    env.declared.types.local? key.1 key.2 = some definition := by
  simp only [definition?, Declarations.findType?, DeclarationTable.lookup?_eq,
    Option.map_eq_some_iff, Prod.exists, Prod.mk.injEq] at found
  obtain ⟨around, value, isFound, rfl, rfl⟩ := found
  obtain ⟨candidate, _, isLocal⟩ := List.exists_of_findSome?_eq_some isFound
  obtain ⟨_, isValue, same⟩ := Option.map_eq_some_iff.mp isLocal
  cases same
  exact isValue

/-- References to one declared type have the same definition. -/
theorem definition_unique
    {scope scope' : ScopeId}
    {name name' : String}
    {key : AliasKey}
    {definition definition' : Ty}
    (found : env.definition? scope name = some (key, definition))
    (found' : env.definition? scope' name' = some (key, definition')) :
    definition = definition' := by
  have same := (local?_of_definition? found).symm.trans (local?_of_definition? found')
  exact Option.some.inj same

/-- What a reference stands for is among the declared types. -/
theorem mem_aliasKeys
    {scope : ScopeId}
    {name : String}
    {key : AliasKey}
    {definition : Ty}
    (found : env.definition? scope name = some (key, definition)) :
    key ∈ env.aliasKeys := by
  obtain ⟨declaration, isFound, _⟩ := Option.map_eq_some_iff.mp (local?_of_definition? found)
  have introduces := List.find?_some isFound
  simp only [Declaration.introduces, Bool.and_eq_true, beq_iff_eq] at introduces
  refine List.mem_map.mpr ⟨declaration, List.mem_of_find?_eq_some isFound, ?_⟩
  rw [introduces.1, introduces.2]

/-- Different declared types are not more than all of them. -/
theorem length_le_aliasCount
    {keys : List AliasKey}
    (nodup : keys.Nodup)
    (declared : keys ⊆ env.aliasKeys) :
    keys.length ≤ env.aliasCount := by
  have short := (List.subperm_of_subset nodup declared).length_le
  rwa [aliasKeys, List.length_map] at short

/-- Steps beyond the number of declared types are not used. -/
theorem headWithin_eq
    {steps : Nat}
    (enough : env.aliasCount ≤ steps)
    (ty : Ty) :
    env.headWithin steps [] ty = env.head ty := by
  have oneMore {steps : Nat} {seen : List AliasKey} {ty : Ty}
      (nodup : seen.Nodup)
      (declared : seen ⊆ env.aliasKeys)
      (isEnough : env.aliasCount ≤ steps + seen.length) :
      env.headWithin (steps + 1) seen ty = env.headWithin steps seen ty := by
    induction steps generalizing seen ty with
    | zero =>
        rw [headWithin, headWithin]
        split
        · rename_i scope name isNamed
          split
          · rename_i key definition found
            -- All declared types have been seen, this one too.
            have isSeen : key ∈ seen := by
              by_contra isNew
              have keyNodup : (key :: seen).Nodup := List.nodup_cons.mpr ⟨isNew, nodup⟩
              have keyDeclared : key :: seen ⊆ env.aliasKeys :=
                List.cons_subset.mpr ⟨mem_aliasKeys found, declared⟩
              have room := length_le_aliasCount keyNodup keyDeclared
              rw [List.length_cons] at room
              omega
            rw [if_pos (List.contains_iff_mem.mpr isSeen), isNamed]
          · exact isNamed.symm
        · rfl
    | succ steps inductionHypothesis =>
        rw [headWithin, headWithin]
        split
        · split
          · rename_i key definition found
            split
            · rfl
            · rename_i notSeen
              refine inductionHypothesis ?_ ?_ ?_
              · refine List.nodup_cons.mpr ⟨fun member => notSeen ?_, nodup⟩
                exact List.contains_iff_mem.mpr member
              · exact List.cons_subset.mpr ⟨mem_aliasKeys found, declared⟩
              · rw [List.length_cons]
                omega
          · rfl
        · rfl
  induction steps, enough using Nat.le_induction with
  | base => rfl
  | succ steps isEnough inductionHypothesis =>
      rw [oneMore List.nodup_nil (List.nil_subset _) isEnough]
      exact inductionHypothesis

/-- What the search does at one leaf. -/
def searchLeaf
    (env : Environment)
    (target : PlaceholderId)
    (recur : List AliasKey → Ty → Option (List AliasKey))
    (searched : List AliasKey) : Ty → Option (List AliasKey)
  | .placeholder _ id =>
      if id = target then
        none
      else
        match env.binding? id with
        | some bound => recur searched bound
        | none => some searched
  | .named scope name =>
      match env.definition? scope name with
      | some (key, definition) =>
          if searched.contains key then some searched else recur (key :: searched) definition
      | none => some searched
  | _ => some searched

/-- What the search comes to at a leaf, and why. -/
inductive SearchesLeaf
    (env : Environment)
    (target : PlaceholderId)
    (recur : List AliasKey → Ty → Option (List AliasKey))
    (searched : List AliasKey) : Ty → Option (List AliasKey) → Prop where
  | primitive (kind : Primitive) :
      SearchesLeaf env target recur searched (.primitive kind) (some searched)
  | parametric (scope : ScopeId) (label : LabelId) :
      SearchesLeaf env target recur searched (.parametric scope label) (some searched)
  | target (scope : ScopeId) :
      SearchesLeaf env target recur searched (.placeholder scope target) none
  | unbound {id : PlaceholderId} (scope : ScopeId) :
      id ≠ target →
      env.binding? id = none →
      SearchesLeaf env target recur searched (.placeholder scope id) (some searched)
  | bound {id : PlaceholderId} {bound : Ty} {outcome : Option (List AliasKey)}
      (scope : ScopeId) :
      id ≠ target →
      env.binding? id = some bound →
      recur searched bound = outcome →
      SearchesLeaf env target recur searched (.placeholder scope id) outcome
  | undeclared {scope : ScopeId} {name : String} :
      env.definition? scope name = none →
      SearchesLeaf env target recur searched (.named scope name) (some searched)
  | again {scope : ScopeId} {name : String} {key : AliasKey} {definition : Ty} :
      env.definition? scope name = some (key, definition) →
      key ∈ searched →
      SearchesLeaf env target recur searched (.named scope name) (some searched)
  | definition {scope : ScopeId} {name : String} {key : AliasKey} {definition : Ty}
      {outcome : Option (List AliasKey)} :
      env.definition? scope name = some (key, definition) →
      key ∉ searched →
      recur (key :: searched) definition = outcome →
      SearchesLeaf env target recur searched (.named scope name) outcome

/-- The search of a leaf comes to one of the listed results. -/
theorem searchesLeaf
    {leaf : Ty}
    (isLeaf : leaf.IsLeaf)
    (target : PlaceholderId)
    (recur : List AliasKey → Ty → Option (List AliasKey))
    (searched : List AliasKey) :
    env.SearchesLeaf target recur searched leaf (env.searchLeaf target recur searched leaf) := by
  cases isLeaf with
  | primitive kind => exact .primitive kind
  | parametric scope label => exact .parametric scope label
  | placeholder scope id =>
      rw [searchLeaf]
      split
      · rename_i isTarget
        exact isTarget ▸ .target scope
      · rename_i different
        cases found : env.binding? id with
        | none => exact .unbound scope different found
        | some bound => exact .bound scope different found rfl
  | named scope name =>
      rw [searchLeaf]
      cases found : env.definition? scope name with
      | none => exact .undeclared found
      | some entry =>
          obtain ⟨key, definition⟩ := entry
          dsimp only
          split
          · rename_i isListed
            exact .again found (List.contains_iff_mem.mp isListed)
          · rename_i notListed
            exact .definition found (fun member => notListed (List.contains_iff_mem.mpr member)) rfl

/-- With steps left the search goes through the leaves one after the other. -/
theorem searchWithin_succ
    (env : Environment)
    (target : PlaceholderId)
    (steps : Nat)
    (searched : List AliasKey)
    (ty : Ty) :
    env.searchWithin target (steps + 1) searched ty =
      ty.leaves.foldlM (env.searchLeaf target (env.searchWithin target steps)) searched :=
  rfl

/-- A fold that ends early ends at one of its items. -/
theorem exists_of_foldlM_eq_none
    {step : σ → α → Option σ}
    {items : List α}
    {start : σ}
    (ended : items.foldlM step start = none) :
    ∃ item ∈ items, ∃ state, step state item = none := by
  induction items generalizing start with
  | nil => contradiction
  | cons item rest inductionHypothesis =>
      rw [List.foldlM_cons] at ended
      cases first : step start item with
      | none => exact ⟨item, List.mem_cons_self, start, first⟩
      | some next =>
          rw [first] at ended
          obtain ⟨other, isOther, state, stops⟩ := inductionHypothesis ended
          exact ⟨other, List.mem_cons_of_mem _ isOther, state, stops⟩

/--
A leaf from which bindings lead neither to the target nor to a declared type
that is not listed.
-/
inductive Avoids (env : Environment) (target : PlaceholderId) (listed : List AliasKey) :
    Ty → Prop where
  | primitive (kind : Primitive) :
      Avoids env target listed (.primitive kind)
  | parametric (scope : ScopeId) (label : LabelId) :
      Avoids env target listed (.parametric scope label)
  | unbound {id : PlaceholderId} (scope : ScopeId) :
      id ≠ target →
      env.binding? id = none →
      Avoids env target listed (.placeholder scope id)
  | bound {id : PlaceholderId} {ty : Ty} (scope : ScopeId) :
      id ≠ target →
      env.binding? id = some ty →
      (∀ leaf ∈ ty.leaves, Avoids env target listed leaf) →
      Avoids env target listed (.placeholder scope id)
  | undeclared {scope : ScopeId} {name : String} :
      env.definition? scope name = none →
      Avoids env target listed (.named scope name)
  | declared {scope : ScopeId} {name : String} {key : AliasKey} {definition : Ty} :
      env.definition? scope name = some (key, definition) →
      key ∈ listed →
      Avoids env target listed (.named scope name)

/-- What is avoided stays avoided when more definitions are searched. -/
theorem Avoids.mono
    {target : PlaceholderId}
    {listed more : List AliasKey}
    {leaf : Ty}
    (avoids : env.Avoids target listed leaf)
    (included : listed ⊆ more) :
    env.Avoids target more leaf := by
  induction avoids with
  | primitive kind => exact .primitive kind
  | parametric scope label => exact .parametric scope label
  | unbound scope different isUnbound => exact .unbound scope different isUnbound
  | bound scope different isBound _ inductionHypothesis =>
      exact .bound scope different isBound inductionHypothesis
  | undeclared isUndeclared => exact .undeclared isUndeclared
  | declared isDeclared isListed => exact .declared isDeclared (included isListed)

/--
What is known when a search of some leaves has ended without success.

The declared types that were listed before are those around the search; their
definitions are still being searched, so nothing is said about them.
-/
structure Explored
    (env : Environment)
    (target : PlaceholderId)
    (before after : List AliasKey)
    (leaves : List Ty) : Prop where
  kept : before ⊆ after
  nodup : after.Nodup
  declared : after ⊆ env.aliasKeys
  avoids : ∀ leaf ∈ leaves, env.Avoids target after leaf
  definitions :
    ∀ {scope name key definition},
      env.definition? scope name = some (key, definition) →
      key ∈ after →
      key ∉ before →
      ∀ leaf ∈ definition.leaves, env.Avoids target after leaf

namespace Explored

variable {target : PlaceholderId} {before middle after : List AliasKey}

/-- A search of leaves that are avoided anyway finds out nothing new. -/
theorem unchanged
    {leaves : List Ty}
    (nodup : before.Nodup)
    (declared : before ⊆ env.aliasKeys)
    (avoids : ∀ leaf ∈ leaves, env.Avoids target before leaf) :
    env.Explored target before before leaves where
  kept := List.Subset.refl _
  nodup := nodup
  declared := declared
  avoids := avoids
  definitions := fun _ isListed isNew => (isNew isListed).elim

/-- Searches of some leaves and then of more are a search of all of them. -/
theorem append
    {first second : List Ty}
    (earlier : env.Explored target before middle first)
    (later : env.Explored target middle after second) :
    env.Explored target before after (first ++ second) where
  kept := List.Subset.trans earlier.kept later.kept
  nodup := later.nodup
  declared := later.declared
  avoids := by
    intro leaf member
    rcases List.mem_append.mp member with inFirst | inSecond
    · exact (earlier.avoids leaf inFirst).mono later.kept
    · exact later.avoids leaf inSecond
  definitions := by
    intro scope name key definition found isListed isNew leaf isLeaf
    by_cases inMiddle : key ∈ middle
    · exact (earlier.definitions found inMiddle isNew leaf isLeaf).mono later.kept
    · exact later.definitions found isListed inMiddle leaf isLeaf

/-- A search that had nothing around it shows that the target is not reached. -/
theorem not_reaches
    {ty : Ty}
    {scope : ScopeId}
    (explored : env.Explored target [] after ty.leaves) :
    ¬ env.Reaches ty (.placeholder scope target) := by
  rintro ⟨leaf, isLeaf, path⟩
  have avoids := explored.avoids leaf isLeaf
  clear isLeaf
  induction path using Relation.ReflTransGen.head_induction_on with
  | refl =>
      cases avoids with
      | unbound _ different => exact different rfl
      | bound _ different => exact different rfl
  | head step _ inductionHypothesis =>
      obtain ⟨next, unfolds, isNext⟩ := step
      cases avoids with
      | bound _ _ isBound inside =>
          cases isBound.symm.trans unfolds
          exact inductionHypothesis (inside _ isNext)
      | declared found isListed =>
          simp only [standsFor?, found, Option.map_some, Option.some.injEq] at unfolds
          subst unfolds
          exact inductionHypothesis
            (explored.definitions found isListed List.not_mem_nil _ isNext)
      | unbound _ _ isUnbound =>
          cases isUnbound.symm.trans unfolds
      | undeclared isUndeclared =>
          simp [standsFor?, isUndeclared] at unfolds
      | primitive => simp [standsFor?] at unfolds
      | parametric => simp [standsFor?] at unfolds

end Explored

/--
One leaf is explored if the recursive searches explore what they are called on.

The recursive searches are those of the type that a placeholder is bound to and
of a definition that has not been searched before.
-/
theorem explored_searchLeaf
    {target : PlaceholderId}
    {recur : List AliasKey → Ty → Option (List AliasKey)}
    {searched after : List AliasKey}
    {leaf : Ty}
    (isLeaf : leaf.IsLeaf)
    (nodup : searched.Nodup)
    (declared : searched ⊆ env.aliasKeys)
    (bindings :
      ∀ {scope id bound},
        leaf = .placeholder scope id →
        env.binding? id = some bound →
        recur searched bound = some after →
        env.Explored target searched after bound.leaves)
    (definitions :
      ∀ {scope name key definition},
        leaf = .named scope name →
        env.definition? scope name = some (key, definition) →
        key ∉ searched →
        recur (key :: searched) definition = some after →
        env.Explored target (key :: searched) after definition.leaves)
    (ended : env.searchLeaf target recur searched leaf = some after) :
    env.Explored target searched after [leaf] := by
  have unchanged
      (avoids : env.Avoids target searched leaf) :
      env.Explored target searched searched [leaf] :=
    .unchanged nodup declared (by simpa using avoids)
  have search := env.searchesLeaf isLeaf target recur searched
  rw [ended] at search
  cases search with
  | primitive kind => exact unchanged (.primitive kind)
  | parametric scope label => exact unchanged (.parametric scope label)
  | unbound scope different isUnbound => exact unchanged (.unbound scope different isUnbound)
  | undeclared isUndeclared => exact unchanged (.undeclared isUndeclared)
  | again found isListed => exact unchanged (.declared found isListed)
  | bound scope different found recursion =>
      have explored := bindings rfl found recursion
      refine { explored with avoids := ?_ }
      intro other member
      rw [List.mem_singleton.mp member]
      exact .bound scope different found explored.avoids
  | @definition _ _ key _ _ found isNew recursion =>
      have explored := definitions rfl found isNew recursion
      refine
        { kept := fun other member => explored.kept (List.mem_cons_of_mem _ member)
          nodup := explored.nodup
          declared := explored.declared
          avoids := ?_
          definitions := ?_ }
      · intro other member
        rw [List.mem_singleton.mp member]
        exact .declared found (explored.kept List.mem_cons_self)
      · intro otherScope otherName other otherDefinition otherFound isListed notBefore
        by_cases same : other = key
        · subst same
          cases definition_unique found otherFound
          exact explored.avoids
        · refine explored.definitions otherFound isListed fun member => ?_
          exact (List.mem_cons.mp member).elim same notBefore

/-- Leaves are explored one after the other. -/
theorem explored_foldlM
    {target : PlaceholderId}
    {step : List AliasKey → Ty → Option (List AliasKey)}
    {leaves : List Ty}
    {searched after : List AliasKey}
    (nodup : searched.Nodup)
    (declared : searched ⊆ env.aliasKeys)
    (each :
      ∀ leaf ∈ leaves, ∀ {before next},
        searched ⊆ before →
        before.Nodup →
        before ⊆ env.aliasKeys →
        step before leaf = some next →
        env.Explored target before next [leaf])
    (ended : leaves.foldlM step searched = some after) :
    env.Explored target searched after leaves := by
  induction leaves generalizing searched with
  | nil =>
      cases ended
      exact .unchanged nodup declared (by simp)
  | cons leaf rest inductionHypothesis =>
      rw [List.foldlM_cons, Option.bind_eq_bind, Option.bind_eq_some_iff] at ended
      obtain ⟨middle, first, others⟩ := ended
      have earlier :=
        each leaf List.mem_cons_self (List.Subset.refl _) nodup declared first
      have later :=
        inductionHypothesis earlier.nodup earlier.declared
          (fun other member before next included =>
            each other (List.mem_cons_of_mem _ member)
              (List.Subset.trans earlier.kept included))
          others
      exact earlier.append later

/--
The steps that a search still needs.

They are counted by the definitions that have not been searched, each with a full
chain of bindings behind it, and by the rank of the type that is being searched.
-/
def searchNeed
    (env : Environment)
    (rank : Ty → Nat)
    (searched : List AliasKey)
    (ty : Ty) : Nat :=
  (env.aliasCount - searched.length) * (env.bindingCount + 1) + rank ty

/-- A binding of lower rank needs fewer steps, also after more definitions. -/
theorem searchNeed_binding
    {rank : Ty → Nat}
    {searched before : List AliasKey}
    {ty bound : Ty}
    (nodup : searched.Nodup)
    (included : searched ⊆ before)
    (isLess : rank bound < rank ty) :
    env.searchNeed rank before bound < env.searchNeed rank searched ty := by
  have longer := (List.subperm_of_subset nodup included).length_le
  have fewer :
      (env.aliasCount - before.length) * (env.bindingCount + 1) ≤
        (env.aliasCount - searched.length) * (env.bindingCount + 1) :=
    Nat.mul_le_mul_right _ (by omega)
  unfold searchNeed
  omega

/-- A definition that has not been searched needs fewer steps, whatever its rank. -/
theorem searchNeed_definition
    {rank : Ty → Nat}
    (bounded : ∀ ty, rank ty ≤ env.bindingCount)
    {searched before : List AliasKey}
    {key : AliasKey}
    {ty definition : Ty}
    (nodup : searched.Nodup)
    (included : searched ⊆ before)
    (keyNodup : (key :: before).Nodup)
    (keyDeclared : key :: before ⊆ env.aliasKeys) :
    env.searchNeed rank (key :: before) definition < env.searchNeed rank searched ty := by
  have longer := (List.subperm_of_subset nodup included).length_le
  have room := (List.subperm_of_subset keyNodup keyDeclared).length_le
  have isBounded := bounded definition
  simp only [aliasKeys, List.length_map, List.length_cons] at room
  obtain ⟨left, isLeft⟩ : ∃ left, env.aliasCount - before.length = left + 1 :=
    ⟨env.aliasCount - before.length - 1, by
      simp only [aliasCount, DeclarationTable.size]
      omega⟩
  have isSmaller : env.aliasCount - (key :: before).length = left := by
    rw [List.length_cons]
    omega
  have fewer :
      (left + 1) * (env.bindingCount + 1) ≤
        (env.aliasCount - searched.length) * (env.bindingCount + 1) :=
    Nat.mul_le_mul_right _ (by omega)
  rw [Nat.succ_mul] at fewer
  rw [searchNeed, searchNeed, isSmaller]
  omega

/-- A search within enough steps explores what it searches. -/
theorem explored_searchWithin
    {target : PlaceholderId}
    {rank : Ty → Nat}
    (bounded : ∀ ty, rank ty ≤ env.bindingCount)
    (falls :
      ∀ {ty scope id bound},
        .placeholder scope id ∈ ty.leaves →
        env.binding? id = some bound →
        rank bound < rank ty)
    {steps : Nat}
    {searched after : List AliasKey}
    {ty : Ty}
    (nodup : searched.Nodup)
    (declared : searched ⊆ env.aliasKeys)
    (enough : env.searchNeed rank searched ty < steps)
    (ended : env.searchWithin target steps searched ty = some after) :
    env.Explored target searched after ty.leaves := by
  induction steps generalizing searched after ty with
  | zero => exact absurd enough (Nat.not_lt_zero _)
  | succ steps inductionHypothesis =>
      rw [searchWithin_succ] at ended
      refine explored_foldlM nodup declared ?_ ended
      intro leaf isLeaf before next included beforeNodup beforeDeclared leafEnded
      refine explored_searchLeaf (Ty.isLeaf_of_mem_leaves isLeaf) beforeNodup beforeDeclared
        ?_ ?_ leafEnded
      · rintro scope id bound rfl found recursion
        have isLess : env.searchNeed rank before bound < env.searchNeed rank searched ty :=
          searchNeed_binding nodup included (falls isLeaf found)
        exact inductionHypothesis beforeNodup beforeDeclared (by omega) recursion
      · rintro scope name key definition rfl found isNew recursion
        have keyNodup : (key :: before).Nodup := List.nodup_cons.mpr ⟨isNew, beforeNodup⟩
        have keyDeclared : key :: before ⊆ env.aliasKeys :=
          List.cons_subset.mpr ⟨mem_aliasKeys found, beforeDeclared⟩
        have isLess :
            env.searchNeed rank (key :: before) definition < env.searchNeed rank searched ty :=
          searchNeed_definition bounded nodup included keyNodup keyDeclared
        exact inductionHypothesis keyNodup keyDeclared (by omega) recursion

/-- The steps granted to the search are more than it needs. -/
theorem searchNeed_lt_walkLimit
    {rank : Ty → Nat}
    (bounded : ∀ ty, rank ty ≤ env.bindingCount)
    (ty : Ty) :
    env.searchNeed rank [] ty < env.walkLimit + 1 := by
  have isBounded := bounded ty
  rw [searchNeed, walkLimit, List.length_nil, Nat.sub_zero, Nat.succ_mul]
  omega

/-- A placeholder that a search within enough steps does not find is not reached. -/
theorem not_reaches_of_searchWithin
    (consistent : env.frames.Consistent)
    {id : PlaceholderId}
    {ty : Ty}
    {steps : Nat}
    (enough : env.walkLimit < steps)
    (notFound : (env.searchWithin id steps [] ty).isNone = false)
    (scope : ScopeId) :
    ¬ env.Reaches ty (.placeholder scope id) := by
  obtain ⟨rank, bounded, falls⟩ := exists_bindingRank consistent
  rw [Option.isNone_eq_false_iff, Option.isSome_iff_exists] at notFound
  obtain ⟨after, ended⟩ := notFound
  have needed : env.searchNeed rank [] ty < steps :=
    (searchNeed_lt_walkLimit bounded ty).trans_le enough
  have explored :=
    explored_searchWithin bounded falls List.nodup_nil (List.nil_subset _) needed ended
  exact explored.not_reaches

/-- A placeholder that the occurs check does not find is not reached. -/
theorem not_reaches_of_occurs_eq_false
    (consistent : env.frames.Consistent)
    {id : PlaceholderId}
    {ty : Ty}
    (notFound : env.occurs id ty = false)
    (scope : ScopeId) :
    ¬ env.Reaches ty (.placeholder scope id) :=
  not_reaches_of_searchWithin consistent (Nat.lt_succ_self _) notFound scope

/-- What the type that a leaf stands for reaches, the leaf reaches. -/
theorem Reaches.of_standsFor?
    {ty leaf next target : Ty}
    (isLeaf : leaf ∈ ty.leaves)
    (stands : env.standsFor? leaf = some next)
    (reaches : env.Reaches next target) :
    env.Reaches ty target := by
  obtain ⟨inside, isInside, path⟩ := reaches
  exact ⟨leaf, isLeaf, .head ⟨next, stands, isInside⟩ path⟩

/-- A placeholder that a search finds is reached, however many steps it was granted. -/
theorem reaches_of_searchWithin
    {id : PlaceholderId}
    {steps : Nat}
    {searched : List AliasKey}
    {ty : Ty}
    (found : env.searchWithin id steps searched ty = none) :
    ∃ scope, env.Reaches ty (.placeholder scope id) := by
  induction steps generalizing searched ty with
  | zero => contradiction
  | succ steps inductionHypothesis =>
      rw [searchWithin_succ] at found
      -- The search ends at one of the leaves.
      obtain ⟨leaf, isLeaf, before, atLeaf⟩ := exists_of_foldlM_eq_none found
      have search :=
        env.searchesLeaf (Ty.isLeaf_of_mem_leaves isLeaf) id (env.searchWithin id steps) before
      rw [atLeaf] at search
      cases search with
      | target scope => exact ⟨scope, _, isLeaf, .refl⟩
      | bound scope different isBound recursion =>
          obtain ⟨targetScope, reaches⟩ := inductionHypothesis recursion
          exact ⟨targetScope, reaches.of_standsFor? isLeaf isBound⟩
      | definition isDefined isNew recursion =>
          obtain ⟨targetScope, reaches⟩ := inductionHypothesis recursion
          refine ⟨targetScope, reaches.of_standsFor? isLeaf ?_⟩
          rw [standsFor?, isDefined, Option.map_some]

/-- A search within enough steps finds exactly the placeholders that are reached. -/
theorem searchWithin_isNone_iff
    (consistent : env.frames.Consistent)
    {steps : Nat}
    (enough : env.walkLimit < steps)
    {id : PlaceholderId}
    {ty : Ty} :
    (env.searchWithin id steps [] ty).isNone = true ↔
      ∃ scope, env.Reaches ty (.placeholder scope id) := by
  constructor
  · exact fun found => reaches_of_searchWithin (Option.isNone_iff_eq_none.mp found)
  · rintro ⟨scope, reaches⟩
    by_contra notFound
    rw [Bool.not_eq_true] at notFound
    exact not_reaches_of_searchWithin consistent enough notFound scope reaches

/-- The occurs check finds exactly the placeholders that are reached. -/
theorem occurs_eq_true_iff
    (consistent : env.frames.Consistent)
    {id : PlaceholderId}
    {ty : Ty} :
    env.occurs id ty = true ↔ ∃ scope, env.Reaches ty (.placeholder scope id) :=
  searchWithin_isNone_iff consistent (Nat.lt_succ_self _)

/-- Steps beyond those that are granted do not change what a search finds. -/
theorem searchWithin_isNone_eq
    (consistent : env.frames.Consistent)
    {steps : Nat}
    (enough : env.walkLimit < steps)
    (id : PlaceholderId)
    (ty : Ty) :
    (env.searchWithin id steps [] ty).isNone = env.occurs id ty := by
  rw [Bool.eq_iff_iff, occurs_eq_true_iff consistent, searchWithin_isNone_iff consistent enough]

/-- What placeholders lead to through their bindings alone, they lead to. -/
theorem leadsTo_of_leads
    {source target : PlaceholderId}
    (path :
      Relation.ReflTransGen
        (Table.Leads env.frames.placeholder? Ty.Mentions) source target)
    (scope : ScopeId) :
    ∃ targetScope,
      Relation.ReflTransGen env.LeadsTo
        (.placeholder scope source) (.placeholder targetScope target) := by
  induction path with
  | refl => exact ⟨scope, .refl⟩
  | tail _ step inductionHypothesis =>
      obtain ⟨middleScope, before⟩ := inductionHypothesis
      obtain ⟨bound, found, isMentioned⟩ := step
      obtain ⟨targetScope, isLeaf⟩ := Ty.mentions_iff_mem_leaves.mp isMentioned
      exact ⟨targetScope, before.tail ⟨bound, found, isLeaf⟩⟩

/-- An unbound placeholder may be bound to a type in which it does not occur. -/
theorem consistent_bindPlaceholder
    (consistent : env.frames.Consistent)
    {id : PlaceholderId}
    {ty : Ty}
    (unbound : env.binding? id = none)
    (notFound : env.occurs id ty = false) :
    (env.frames.bindPlaceholder id ty).Consistent := by
  refine consistent.bindPlaceholder unbound fun isMentioned path => ?_
  obtain ⟨scope, isLeaf⟩ := Ty.mentions_iff_mem_leaves.mp isMentioned
  obtain ⟨targetScope, reached⟩ := leadsTo_of_leads path scope
  exact not_reaches_of_occurs_eq_false consistent notFound targetScope
    ⟨_, isLeaf, reached⟩

end Environment

end ShaderTyping
