import ShaderTyping.Proofs.AliasSearch
import ShaderTyping.Proofs.Expansion

namespace ShaderTyping

/-!
# What a search without problems shows

If the search for bad references finds no problem, every reference that it has met
is declared, and each listed type refers only to types that were listed before it.
So nothing leads back to itself as long as no placeholder is bound.
-/

namespace Environment

/-- A reference stands for a listed type. -/
def PointsInto
    (env : Environment)
    (listed : List AliasKey)
    (reference : ScopeId × String) : Prop :=
  ∃ key definition,
    env.definition? reference.1 reference.2 = some (key, definition) ∧ key ∈ listed

/-- The references in a type stand for listed types. -/
def RefersOnlyTo (env : Environment) (listed : List AliasKey) (ty : Ty) : Prop :=
  ∀ reference ∈ ty.references, env.PointsInto listed reference

/-- Each listed type refers only to types that are listed behind it. -/
def Settled (env : Environment) : List AliasKey → Prop
  | [] => True
  | key :: rest =>
      (∀ definition, env.declared.types.local? key.1 key.2 = some definition →
        env.RefersOnlyTo rest definition) ∧
      env.Settled rest

variable {env : Environment} {listed : List AliasKey}

/-- A reference points into longer lists too. -/
theorem PointsInto.mono
    {more : List AliasKey}
    {reference : ScopeId × String}
    (points : env.PointsInto listed reference)
    (included : listed ⊆ more) :
    env.PointsInto more reference := by
  obtain ⟨key, definition, found, isListed⟩ := points
  exact ⟨key, definition, found, included isListed⟩

/-- A type refers only to longer lists too. -/
theorem RefersOnlyTo.mono
    {more : List AliasKey}
    {ty : Ty}
    (refers : env.RefersOnlyTo listed ty)
    (included : listed ⊆ more) :
    env.RefersOnlyTo more ty :=
  fun reference member => (refers reference member).mono included

/-- What a listed type refers to is listed. -/
theorem Settled.refersOnlyTo
    (settled : env.Settled listed)
    {key : AliasKey}
    {definition : Ty}
    (isListed : key ∈ listed)
    (found : env.declared.types.local? key.1 key.2 = some definition) :
    env.RefersOnlyTo listed definition := by
  induction listed with
  | nil => contradiction
  | cons first rest inductionHypothesis =>
      obtain ⟨firstRefers, restSettled⟩ := settled
      rcases List.mem_cons.mp isListed with rfl | inRest
      · exact (firstRefers definition found).mono (List.subset_cons_self _ _)
      · exact (inductionHypothesis restSettled inRest).mono (List.subset_cons_self _ _)

/-- The ranks of listed types: the number of types from the last listing on. -/
theorem Settled.exists_rank (settled : env.Settled listed) :
    ∃ rank : AliasKey → Nat,
      (∀ key, rank key ≤ listed.length) ∧
        ∀ {key definition},
          key ∈ listed →
          env.declared.types.local? key.1 key.2 = some definition →
          0 < rank key ∧
            ∀ {reference next target},
              reference ∈ definition.references →
              env.definition? reference.1 reference.2 = some (next, target) →
              rank next < rank key := by
  induction listed with
  | nil => exact ⟨fun _ => 0, fun _ => Nat.le_refl _, fun isListed => by contradiction⟩
  | cons first rest inductionHypothesis =>
      obtain ⟨firstRefers, restSettled⟩ := settled
      obtain ⟨rank, bounded, falls⟩ := inductionHypothesis restSettled
      by_cases again : first ∈ rest
      · refine ⟨rank, fun key => (bounded key).trans (Nat.le_succ _), ?_⟩
        intro key definition isListed found
        refine falls ?_ found
        rcases List.mem_cons.mp isListed with rfl | inRest
        · exact again
        · exact inRest
      · refine ⟨fun key => if key = first then rest.length + 1 else rank key, ?_, ?_⟩
        · intro key
          dsimp only
          split
          · exact Nat.le_refl _
          · exact (bounded key).trans (Nat.le_succ _)
        · intro key definition isListed found
          -- What a type refers to is listed behind it, so it is not the first one again.
          have old {reference : ScopeId × String} {next : AliasKey} {target : Ty}
              (refers : env.RefersOnlyTo rest definition)
              (member : reference ∈ definition.references)
              (isNext : env.definition? reference.1 reference.2 = some (next, target)) :
              next ≠ first := by
            obtain ⟨other, _, isOther, isListed⟩ := refers reference member
            cases isNext.symm.trans isOther
            exact fun same => again (same ▸ isListed)
          by_cases isFirst : key = first
          · subst isFirst
            have refers := firstRefers definition found
            simp only [if_true]
            refine ⟨Nat.succ_pos _, fun {reference next target} member isNext => ?_⟩
            rw [if_neg (old refers member isNext)]
            exact Nat.lt_succ_of_le (bounded next)
          · have inRest : key ∈ rest := List.mem_of_ne_of_mem isFirst isListed
            have refers := restSettled.refersOnlyTo inRest found
            obtain ⟨positive, isLess⟩ := falls inRest found
            simp only [if_neg isFirst]
            refine ⟨positive, fun {reference next target} member isNext => ?_⟩
            rw [if_neg (old refers member isNext)]
            exact isLess member isNext

/-- The rank of a leaf is the rank of the declared type that it stands for. -/
def leafRank (env : Environment) (rank : AliasKey → Nat) : Ty → Nat
  | .named scope name => ((env.definition? scope name).map fun found => rank found.1).getD 0
  | _ => 0

/-- Nothing leads back to itself if the declared types are settled and nothing is bound. -/
theorem Settled.acyclic
    (settled : env.Settled listed)
    (all : env.aliasKeys ⊆ listed)
    (unbound : ∀ id, env.binding? id = none) :
    env.Acyclic := by
  obtain ⟨rank, _, falls⟩ := settled.exists_rank
  refine .of_keyRank (env.leafRank rank) fun {source target} step => ?_
  obtain ⟨value, found, isLeaf⟩ := step
  cases source with
  | placeholder scope id => exact absurd ((unbound id).symm.trans found) (by simp)
  | named scope name =>
      obtain ⟨⟨key, definition⟩, isDefined, rfl⟩ := Option.map_eq_some_iff.mp found
      obtain ⟨positive, isLess⟩ := falls (all (mem_aliasKeys isDefined))
        (local?_of_definition? isDefined)
      have sourceRank : env.leafRank rank (.named scope name) = rank key := by
        simp [leafRank, isDefined]
      rw [sourceRank]
      cases target with
      | named targetScope targetName =>
          have isReference : (targetScope, targetName) ∈ definition.references :=
            List.mem_filterMap.mpr ⟨_, isLeaf, rfl⟩
          cases isNext : env.definition? targetScope targetName with
          | none => simpa [leafRank, isNext] using positive
          | some entry => simpa [leafRank, isNext] using isLess isReference isNext
      | _ => exact positive
  | _ => cases found

/-- Without problems, references that are accounted for stand for listed types. -/
theorem Accounts.pointsInto
    {around : Option AliasKey}
    {reference : ScopeId × String}
    (accounts : env.Accounts [] listed around reference) :
    env.PointsInto listed reference := by
  unfold Accounts at accounts
  split at accounts
  · contradiction
  · rename_i key definition found
    rcases accounts with isListed | ⟨_, _, _, _, isCycle, _⟩
    · exact ⟨key, definition, found, isListed⟩
    · contradiction

/-- What was searched without problems is settled. -/
theorem Searched.settled (searched : env.Searched [] listed) : env.Settled listed := by
  induction listed with
  | nil => trivial
  | cons key rest inductionHypothesis =>
      obtain ⟨first, others⟩ := searched
      refine ⟨fun definition found reference member => ?_, inductionHypothesis others⟩
      exact (first definition found reference member).pointsInto

/--
If the search finds no problem, all declared types are settled, and the types
written in declared variables refer to them.
-/
theorem settled_of_aliasProblems (clean : env.aliasProblems = []) :
    ∃ listed,
      env.Settled listed ∧ env.aliasKeys ⊆ listed ∧
        ∀ declaration ∈ env.declared.values.entries, ∀ node ∈ declaration.value.nodes,
          ∀ ty ∈ node.form.ascriptions, env.RefersOnlyTo listed ty := by
  obtain ⟨search, isSearch, valid, all, accounts⟩ := env.exists_valid_search
  rw [clean] at isSearch
  have searched := valid.searched
  rw [isSearch] at searched accounts
  refine ⟨search.done, searched.settled, all, ?_⟩
  intro declaration member node isNode ty isWritten reference isReference
  have written : ty ∈ env.writtenTypes :=
    List.mem_append_right _ (List.mem_flatMap.mpr
      ⟨declaration, member, List.mem_flatMap.mpr ⟨node, isNode, isWritten⟩⟩)
  obtain ⟨around, accounted⟩ := accounts ty written reference isReference
  exact accounted.pointsInto

end Environment

end ShaderTyping
