import Mathlib.Data.List.Chain
import ShaderTyping.Checker
import ShaderTyping.Proofs.Occurs

namespace ShaderTyping

/-!
# The search for bad references

Declared types form a graph: a definition refers to other declared types.  The
search goes through this graph depth first.  What it reports is so
(`AliasProblem.Holds`), and nothing is reported twice.  A type is listed when all
references of its definition are accounted for: they are reported as undeclared,
they stand for types that were listed before, or they close a reported cycle.  On
each cycle of the graph the type that was listed first has a reference of the last
kind, so a cycle of its strongly connected component is reported.
-/

namespace DeclarationTable

/-- A declaration is found under its own scope and name. -/
theorem local?_of_mem
    {table : DeclarationTable α}
    {declaration : Declaration α}
    (member : declaration ∈ table.entries) :
    table.local? declaration.scope declaration.name = some declaration.value := by
  obtain ⟨entries, sorted⟩ := table
  simp only [local?, find?, Option.map_eq_some_iff]
  refine ⟨declaration, ?_, rfl⟩
  induction entries with
  | nil => contradiction
  | cons first rest inductionHypothesis =>
      obtain ⟨firstBefore, restSorted⟩ := List.pairwise_cons.mp sorted
      rcases List.mem_cons.mp member with rfl | inRest
      · simp [Declaration.introduces]
      · have isBefore := firstBefore declaration inRest
        have different : first.introduces declaration.scope declaration.name = false := by
          by_contra same
          simp only [Declaration.introduces, Bool.and_eq_true, beq_iff_eq,
            Bool.not_eq_false] at same
          rcases isBefore with scopeBefore | ⟨_, nameBefore⟩
          · rw [same.1] at scopeBefore
            exact Nat.lt_irrefl _ scopeBefore
          · rw [same.2] at nameBefore
            exact String.lt_irrefl _ nameBefore
        rw [List.find?_cons_of_neg (by simp [different])]
        exact inductionHypothesis restSorted inRest

end DeclarationTable

namespace Environment

/-- The definition of the first declared type refers to the second one. -/
def RefersTo (env : Environment) (key next : AliasKey) : Prop :=
  ∃ definition reference target,
    env.declared.types.local? key.1 key.2 = some definition ∧
      reference ∈ definition.references ∧
        env.definition? reference.1 reference.2 = some (next, target)

/-- The types that stand in type declarations and in declared variables. -/
def writtenTypes (env : Environment) : List Ty :=
  env.declared.types.entries.map Declaration.value ++
    env.declared.values.entries.flatMap fun declaration =>
      declaration.value.nodes.flatMap fun node => node.form.ascriptions

variable {env : Environment}

/-- The definition of a declared type is among the types that are written. -/
theorem mem_writtenTypes_of_local?
    {key : AliasKey}
    {definition : Ty}
    (found : env.declared.types.local? key.1 key.2 = some definition) :
    definition ∈ env.writtenTypes := by
  obtain ⟨declaration, isFound, rfl⟩ := Option.map_eq_some_iff.mp found
  exact List.mem_append_left _
    (List.mem_map_of_mem (List.mem_of_find?_eq_some isFound))

/-- What refers to a declared type is itself declared. -/
theorem mem_aliasKeys_of_refersTo
    {key next : AliasKey}
    (refers : env.RefersTo key next) :
    key ∈ env.aliasKeys := by
  obtain ⟨_, _, _, found, _⟩ := refers
  obtain ⟨declaration, isFound, _⟩ := Option.map_eq_some_iff.mp found
  refine List.mem_map.mpr ⟨declaration, List.mem_of_find?_eq_some isFound, ?_⟩
  have isKey := List.find?_some isFound
  simp only [Declaration.introduces, Bool.and_eq_true, beq_iff_eq] at isKey
  exact Prod.ext isKey.1 isKey.2

end Environment

namespace AliasProblem

variable {env : Environment} {problem other : AliasProblem}

/-- What a problem says is so. -/
def Holds (env : Environment) : AliasProblem → Prop
  | .undeclared scope name =>
      (∃ ty ∈ env.writtenTypes, (scope, name) ∈ ty.references) ∧
        env.definition? scope name = none
  | .cycle first rest => (first :: rest ++ [first]).IsChain env.RefersTo

/-- A reported cycle passes through both declared types. -/
def Join (problems : List AliasProblem) (key next : AliasKey) : Prop :=
  ∃ first rest,
    .cycle first rest ∈ problems ∧ key ∈ first :: rest ∧ next ∈ first :: rest

/-- A problem is the same as itself. -/
theorem sameAs_self (problem : AliasProblem) : problem.sameAs problem = true := by
  cases problem with
  | undeclared scope name => simp [sameAs]
  | cycle first rest => simp only [sameAs, List.all_eq_true, List.contains_iff_mem, imp_self,
      implies_true, Bool.and_self]

/-- Only the same undeclared name is the same problem as an undeclared name. -/
theorem sameAs_undeclared_iff {scope : ScopeId} {name : String} :
    (AliasProblem.undeclared scope name).sameAs other = true ↔
      other = .undeclared scope name := by
  cases other with
  | undeclared scope' name' =>
      simp only [sameAs, Bool.and_eq_true, beq_iff_eq, undeclared.injEq]
      exact and_congr eq_comm eq_comm
  | cycle first rest => simp [sameAs]

/-- Two cycles are the same if they pass through the same declared types. -/
theorem sameAs_cycle_iff {first : AliasKey} {rest : List AliasKey} :
    (AliasProblem.cycle first rest).sameAs other = true ↔
      ∃ first' rest', other = .cycle first' rest' ∧
        ∀ key, key ∈ first :: rest ↔ key ∈ first' :: rest' := by
  cases other with
  | undeclared scope name => simp [sameAs]
  | cycle first' rest' =>
      simp only [sameAs, Bool.and_eq_true, List.all_eq_true, List.contains_iff_mem]
      constructor
      · rintro ⟨forth, back⟩
        exact ⟨first', rest', rfl, fun key => ⟨forth key, back key⟩⟩
      · rintro ⟨_, _, isCycle, same⟩
        cases isCycle
        exact ⟨fun key => (same key).mp, fun key => (same key).mpr⟩

/-- The first type of a cycle leads to all others and back to itself. -/
theorem Holds.transGen
    {first : AliasKey}
    {rest : List AliasKey}
    (holds : (AliasProblem.cycle first rest).Holds env) :
    ∀ key ∈ rest ++ [first], Relation.TransGen env.RefersTo first key := by
  have chain : (first :: (rest ++ [first])).IsChain env.RefersTo := holds
  obtain ⟨fromFirst, others⟩ := List.isChain_cons.mp chain
  refine others.induction _ _ (fun _ _ refers reached => reached.tail refers) fun notEmpty => ?_
  exact .single (fromFirst _ (List.head_mem_head? notEmpty))

/-- All types of a cycle lead to each other. -/
theorem Holds.reaches
    {first : AliasKey}
    {rest : List AliasKey}
    (holds : (AliasProblem.cycle first rest).Holds env)
    {key next : AliasKey}
    (isKey : key ∈ first :: rest)
    (isNext : next ∈ first :: rest) :
    Relation.ReflTransGen env.RefersTo key next := by
  have toFirst : Relation.ReflTransGen env.RefersTo key first :=
    List.IsChain.backwards_concat_induction (Relation.ReflTransGen env.RefersTo · first)
      (first :: rest) holds (fun _ _ refers reached => reached.head refers) .refl key isKey
  have fromFirst : Relation.ReflTransGen env.RefersTo first next := by
    refine (holds.transGen next ?_).to_reflTransGen
    simpa [or_comm] using isNext
  exact toFirst.trans fromFirst

end AliasProblem

/-! ## What was searched -/

namespace Environment

/--
A reference is accounted for: it is reported as undeclared, it stands for a listed
type, or a reported cycle passes through what it stands for and the type around it.
-/
def Accounts
    (env : Environment)
    (problems : List AliasProblem)
    (listed : List AliasKey)
    (around : Option AliasKey)
    (reference : ScopeId × String) : Prop :=
  match env.definition? reference.1 reference.2 with
  | none => .undeclared reference.1 reference.2 ∈ problems
  | some (next, _) => next ∈ listed ∨ ∃ key ∈ around, AliasProblem.Join problems key next

/-- The references of each listed type are accounted for by the types listed behind it. -/
def Searched (env : Environment) (problems : List AliasProblem) : List AliasKey → Prop
  | [] => True
  | key :: rest =>
      (∀ definition, env.declared.types.local? key.1 key.2 = some definition →
        ∀ reference ∈ definition.references, env.Accounts problems rest (some key) reference) ∧
      env.Searched problems rest

variable {env : Environment} {problems : List AliasProblem} {listed : List AliasKey}

/-- A reference stays accounted for when more problems are reported and more types listed. -/
theorem Accounts.mono
    {moreProblems : List AliasProblem}
    {more : List AliasKey}
    {around : Option AliasKey}
    {reference : ScopeId × String}
    (accounts : env.Accounts problems listed around reference)
    (problemsKept : problems ⊆ moreProblems)
    (listedKept : listed ⊆ more) :
    env.Accounts moreProblems more around reference := by
  unfold Accounts at accounts ⊢
  split at accounts
  · exact problemsKept accounts
  · refine accounts.imp (fun isListed => listedKept isListed) ?_
    rintro ⟨key, isKey, first, rest, isCycle, members⟩
    exact ⟨key, isKey, first, rest, problemsKept isCycle, members⟩

/-- Listed types stay searched when more problems are reported. -/
theorem Searched.mono
    {moreProblems : List AliasProblem}
    (searched : env.Searched problems listed)
    (kept : problems ⊆ moreProblems) :
    env.Searched moreProblems listed := by
  induction listed with
  | nil => trivial
  | cons key rest inductionHypothesis =>
      obtain ⟨first, others⟩ := searched
      refine ⟨fun definition found reference member => ?_, inductionHypothesis others⟩
      exact (first definition found reference member).mono kept (List.Subset.refl _)

/-- The references of a listed type are accounted for. -/
theorem Searched.accounts
    (searched : env.Searched problems listed)
    {key : AliasKey}
    {definition : Ty}
    {reference : ScopeId × String}
    (isListed : key ∈ listed)
    (found : env.declared.types.local? key.1 key.2 = some definition)
    (member : reference ∈ definition.references) :
    env.Accounts problems listed (some key) reference := by
  induction listed with
  | nil => contradiction
  | cons first rest inductionHypothesis =>
      have kept : rest ⊆ first :: rest := List.subset_cons_self _ _
      rcases List.mem_cons.mp isListed with rfl | inRest
      · exact (searched.1 definition found reference member).mono (List.Subset.refl _) kept
      · exact (inductionHypothesis searched.2 inRest).mono (List.Subset.refl _) kept

/-- What a listed type refers to is listed behind it or on a reported cycle with it. -/
theorem Searched.of_refersTo
    {key next : AliasKey}
    (searched : env.Searched problems (key :: listed))
    (refers : env.RefersTo key next) :
    next ∈ listed ∨ AliasProblem.Join problems key next := by
  obtain ⟨definition, reference, target, found, member, isNext⟩ := refers
  have accounts := searched.1 definition found reference member
  simpa [Accounts, isNext] using accounts

/--
A type that leads back to itself shares a reported cycle with a type that leads to
it and that it leads to.

Of the types on cycles with the given one, the one that stands last in the list was
listed first; it refers to another one, which does not stand behind it.
-/
theorem Searched.exists_join
    (searched : env.Searched problems listed)
    {key member : AliasKey}
    (isListed : member ∈ listed)
    (forth : Relation.TransGen env.RefersTo key member)
    (back : Relation.TransGen env.RefersTo member key) :
    ∃ other next,
      AliasProblem.Join problems other next ∧
        Relation.ReflTransGen env.RefersTo key other ∧
          Relation.ReflTransGen env.RefersTo other key := by
  induction listed generalizing member with
  | nil => contradiction
  | cons first rest inductionHypothesis =>
      rcases List.mem_cons.mp isListed with rfl | inRest
      · obtain ⟨next, refers, onward⟩ := Relation.TransGen.head'_iff.mp back
        rcases searched.of_refersTo refers with nextListed | joined
        · refine inductionHypothesis searched.2 nextListed (forth.tail refers) ?_
          exact .trans_right onward (forth.trans back)
        · exact ⟨member, next, joined, forth.to_reflTransGen, back.to_reflTransGen⟩
      · exact inductionHypothesis searched.2 inRest forth back

end Environment

namespace AliasSearch

variable {env : Environment} {search searched : AliasSearch}

/-- What was reported is so and was reported once, and what is listed was searched. -/
structure Valid (env : Environment) (search : AliasSearch) : Prop where
  holds : ∀ problem ∈ search.problems, problem.Holds env
  distinct : search.problems.Pairwise fun earlier later => later.sameAs earlier = false
  searched : env.Searched search.problems search.done

/-- A search goes on from another one. -/
structure Continues (env : Environment) (search searched : AliasSearch) : Prop where
  valid : Valid env searched
  problems : search.problems ⊆ searched.problems
  done : search.done ⊆ searched.done

theorem Continues.refl (valid : Valid env search) : Continues env search search :=
  ⟨valid, List.Subset.refl _, List.Subset.refl _⟩

theorem Continues.trans
    {middle : AliasSearch}
    (first : Continues env search middle)
    (second : Continues env middle searched) :
    Continues env search searched :=
  ⟨second.valid, List.Subset.trans first.problems second.problems,
    List.Subset.trans first.done second.done⟩

/-- A reported problem or one like it is among the problems. -/
theorem exists_sameAs_report (problem : AliasProblem) (search : AliasSearch) :
    ∃ known ∈ (search.report problem).problems, problem.sameAs known = true := by
  unfold report
  split
  · rename_i isKnown
    exact List.any_eq_true.mp isKnown
  · exact ⟨problem, List.mem_append_right _ (List.mem_singleton_self _),
      problem.sameAs_self⟩

/-- A search goes on by reporting a problem that holds. -/
theorem Continues.report
    {problem : AliasProblem}
    (valid : Valid env search)
    (holds : problem.Holds env) :
    Continues env search (search.report problem) := by
  unfold AliasSearch.report
  split
  · exact .refl valid
  · rename_i isNew
    have kept : search.problems ⊆ search.problems ++ [problem] := List.subset_append_left _ _
    refine ⟨⟨?_, ?_, valid.searched.mono kept⟩, kept, List.Subset.refl _⟩
    · intro other member
      rcases List.mem_append.mp member with isOld | isNew
      · exact valid.holds other isOld
      · rwa [List.mem_singleton.mp isNew]
    · refine List.pairwise_append.mpr ⟨valid.distinct, List.pairwise_singleton _ _, ?_⟩
      intro earlier isEarlier later isLater
      rw [List.mem_singleton.mp isLater]
      by_contra isSame
      exact isNew (List.any_eq_true.mpr ⟨earlier, isEarlier, by simpa using isSame⟩)

/-- A type is listed when the references of its definition are accounted for. -/
theorem Continues.list
    (continues : Continues env search searched)
    {key : AliasKey}
    {definition : Ty}
    (found : env.declared.types.local? key.1 key.2 = some definition)
    (accounts :
      ∀ reference ∈ definition.references,
        env.Accounts searched.problems searched.done (some key) reference) :
    Continues env search { searched with done := key :: searched.done } := by
  obtain ⟨⟨holds, distinct, isSearched⟩, problems, done⟩ := continues
  refine ⟨⟨holds, distinct, ?_, isSearched⟩, problems, ?_⟩
  · intro other isOther
    cases found.symm.trans isOther
    exact accounts
  · exact List.Subset.trans done (List.subset_cons_self _ _)

/-- Searches one after the other show what each of them shows. -/
theorem Continues.foldl
    {next : AliasSearch → α → AliasSearch}
    (shows : α → AliasSearch → Prop)
    (kept : ∀ {item search searched}, Continues env search searched →
      shows item search → shows item searched)
    {items : List α}
    (each :
      ∀ item ∈ items, ∀ {search},
        Valid env search →
        Continues env search (next search item) ∧ shows item (next search item))
    (valid : Valid env search) :
    Continues env search (items.foldl next search) ∧
      ∀ item ∈ items, shows item (items.foldl next search) := by
  induction items generalizing search with
  | nil => exact ⟨.refl valid, by simp⟩
  | cons item rest inductionHypothesis =>
      obtain ⟨eachItem, eachRest⟩ := List.forall_mem_cons.mp each
      obtain ⟨first, shown⟩ := eachItem valid
      obtain ⟨others, othersShown⟩ := inductionHypothesis eachRest first.valid
      refine ⟨first.trans others, List.forall_mem_cons.mpr ⟨?_, othersShown⟩⟩
      exact kept others shown

/--
The types around a type in the search: each was referred to by the next one, none
comes twice, and the type is the definition of the innermost one.
-/
structure Around (env : Environment) (path : List AliasKey) (ty : Ty) : Prop where
  chain : path.IsChain fun inner outer => env.RefersTo outer inner
  nodup : path.Nodup
  declared : path ⊆ env.aliasKeys
  written : ty ∈ env.writtenTypes
  defines : ∀ key ∈ path.head?, env.declared.types.local? key.1 key.2 = some ty

namespace Around

variable {path : List AliasKey} {ty target : Ty} {reference : ScopeId × String} {key : AliasKey}

/-- Around a written type that is searched for itself there is nothing. -/
theorem outermost (written : ty ∈ env.writtenTypes) : Around env [] ty where
  chain := .nil
  nodup := List.nodup_nil
  declared := List.nil_subset _
  written := written
  defines := by simp

/-- Around the definition of a declared type there is this type alone. -/
theorem singleton
    (found : env.declared.types.local? key.1 key.2 = some ty)
    (isKey : key ∈ env.aliasKeys) :
    Around env [key] ty where
  chain := .singleton _
  nodup := List.nodup_singleton _
  declared := List.cons_subset.mpr ⟨isKey, List.nil_subset _⟩
  written := Environment.mem_writtenTypes_of_local? found
  defines := by simpa using found

/-- A reference leads from the innermost type to the one that it stands for. -/
theorem chain_cons
    (around : Around env path ty)
    (member : reference ∈ ty.references)
    (found : env.definition? reference.1 reference.2 = some (key, target)) :
    (key :: path).IsChain fun inner outer => env.RefersTo outer inner :=
  List.isChain_cons.mpr
    ⟨fun inner isInner => ⟨ty, reference, target, around.defines inner isInner, member, found⟩,
      around.chain⟩

/-- A reference to a type that is not around yet puts this type around its definition. -/
theorem cons
    (around : Around env path ty)
    (member : reference ∈ ty.references)
    (found : env.definition? reference.1 reference.2 = some (key, target))
    (isNew : key ∉ path) :
    Around env (key :: path) target where
  chain := around.chain_cons member found
  nodup := List.nodup_cons.mpr ⟨isNew, around.nodup⟩
  declared := List.cons_subset.mpr ⟨Environment.mem_aliasKeys found, around.declared⟩
  written :=
    Environment.mem_writtenTypes_of_local? (Environment.local?_of_definition? found)
  defines := by simpa using Environment.local?_of_definition? found

/-- A path splits at the first type that is a given one. -/
theorem eq_takeWhile_append (isAround : key ∈ path) :
    ∃ outer, path = path.takeWhile (fun other => other != key) ++ key :: outer := by
  induction path with
  | nil => contradiction
  | cons inner outer inductionHypothesis =>
      by_cases same : inner = key
      · exact ⟨outer, by simp [same]⟩
      · obtain ⟨outer', split⟩ :=
          inductionHypothesis (List.mem_of_ne_of_mem (Ne.symm same) isAround)
        refine ⟨outer', ?_⟩
        rw [List.takeWhile_cons_of_pos (by simpa using same), List.cons_append, ← split]

/-- A reference to a type around closes a cycle. -/
theorem cycleFrom_holds
    (around : Around env path ty)
    (member : reference ∈ ty.references)
    (found : env.definition? reference.1 reference.2 = some (key, target))
    (isAround : key ∈ path) :
    (cycleFrom path key).Holds env := by
  obtain ⟨outer, split⟩ := eq_takeWhile_append isAround
  have chain := around.chain_cons member found
  rw [split] at chain
  have closed : (key :: path.takeWhile (fun other => other != key) ++ [key]).IsChain
      fun inner outer => env.RefersTo outer inner :=
    chain.prefix ⟨outer, by simp⟩
  have reversed := List.isChain_reverse.mpr closed
  simpa [cycleFrom, AliasProblem.Holds] using reversed

end Around

/-- The innermost type is on the cycle that closes, and so is the one referred to. -/
theorem mem_cycleFrom
    {path : List AliasKey}
    {key inner : AliasKey}
    (isInner : inner ∈ path.head?) :
    inner ∈ key :: (path.takeWhile fun other => other != key).reverse := by
  obtain ⟨outer, rfl⟩ : ∃ outer, path = inner :: outer :=
    List.head?_eq_some_iff.mp isInner
  by_cases same : inner = key
  · simp [same]
  · refine List.mem_cons_of_mem _ (List.mem_reverse.mpr ?_)
    rw [List.takeWhile_cons_of_pos (by simpa using same)]
    exact List.mem_cons_self

/-- A reference to a type around it is accounted for when the cycle is reported. -/
theorem accounts_report_cycleFrom
    {path : List AliasKey}
    {reference : ScopeId × String}
    {key : AliasKey}
    {target : Ty}
    (found : env.definition? reference.1 reference.2 = some (key, target))
    (isAround : key ∈ path) :
    env.Accounts (search.report (cycleFrom path key)).problems
      (search.report (cycleFrom path key)).done path.head? reference := by
  obtain ⟨known, isKnown, same⟩ := exists_sameAs_report (cycleFrom path key) search
  obtain ⟨first, rest, rfl, members⟩ := AliasProblem.sameAs_cycle_iff.mp same
  obtain ⟨inner, isInner⟩ : ∃ inner, inner ∈ path.head? := by
    cases path with
    | nil => contradiction
    | cons inner outer => exact ⟨inner, rfl⟩
  simp only [Environment.Accounts, found]
  exact .inr ⟨inner, isInner, first, rest, isKnown, (members inner).mp (mem_cycleFrom isInner),
    (members key).mp List.mem_cons_self⟩

/-- Search what one reference stands for. -/
def followReference
    (env : Environment)
    (steps : Nat)
    (path : List AliasKey)
    (search : AliasSearch)
    (reference : ScopeId × String) : AliasSearch :=
  match env.definition? reference.1 reference.2 with
  | none => search.report (.undeclared reference.1 reference.2)
  | some (key, definition) =>
      if path.contains key then
        search.report (cycleFrom path key)
      else if search.done.contains key then
        search
      else
        let searched := followWithin env steps (key :: path) definition search
        { searched with done := key :: searched.done }

/-- With steps left the search follows the references of a type one after the other. -/
theorem followWithin_succ
    (steps : Nat)
    (path : List AliasKey)
    (ty : Ty)
    (search : AliasSearch) :
    followWithin env (steps + 1) path ty search =
      ty.references.foldl (followReference env steps path) search :=
  rfl

/--
A search accounts for all references of a type.

The path has no type twice, so it is never longer than the number of declared
types, and the steps do not run out.
-/
theorem Continues.followWithin
    {steps : Nat}
    {path : List AliasKey}
    {ty : Ty}
    (room : env.aliasCount < steps + path.length)
    (around : Around env path ty)
    (valid : Valid env search) :
    Continues env search (followWithin env steps path ty search) ∧
      ∀ reference ∈ ty.references,
        env.Accounts (followWithin env steps path ty search).problems
          (followWithin env steps path ty search).done path.head? reference := by
  induction steps generalizing path ty search with
  | zero =>
      have short := Environment.length_le_aliasCount around.nodup around.declared
      omega
  | succ steps inductionHypothesis =>
      rw [followWithin_succ]
      refine Continues.foldl
        (fun reference search => env.Accounts search.problems search.done path.head? reference)
        (fun continues accounts => accounts.mono continues.problems continues.done)
        (fun reference member search valid => ?_) valid
      unfold followReference
      split
      · rename_i notFound
        refine ⟨.report valid ⟨⟨ty, around.written, member⟩, notFound⟩, ?_⟩
        obtain ⟨known, isKnown, same⟩ :=
          exists_sameAs_report (.undeclared reference.1 reference.2) search
        simpa only [Environment.Accounts, notFound,
          ← AliasProblem.sameAs_undeclared_iff.mp same] using isKnown
      · rename_i key definition found
        split
        · rename_i isAround
          have inPath := List.contains_iff_mem.mp isAround
          exact ⟨.report valid (around.cycleFrom_holds member found inPath),
            accounts_report_cycleFrom found inPath⟩
        · rename_i notAround
          have isNew : key ∉ path := fun inPath =>
            notAround (List.contains_iff_mem.mpr inPath)
          simp only [Environment.Accounts, found]
          split
          · rename_i isDone
            exact ⟨.refl valid, .inl (List.contains_iff_mem.mp isDone)⟩
          · obtain ⟨continues, accounts⟩ := inductionHypothesis
              (by rw [List.length_cons]; omega) (around.cons member found isNew) valid
            exact ⟨continues.list (Environment.local?_of_definition? found) accounts,
              .inl List.mem_cons_self⟩

/-- Following a written type accounts for all its references. -/
theorem Continues.follow
    {ty : Ty}
    (written : ty ∈ env.writtenTypes)
    (valid : Valid env search) :
    Continues env search (search.follow env ty) ∧
      ∀ reference ∈ ty.references,
        env.Accounts (search.follow env ty).problems (search.follow env ty).done none
          reference :=
  Continues.followWithin (by rw [List.length_nil]; omega) (.outermost written) valid

/-- Visiting a declared type lists it. -/
theorem Continues.visit
    {declaration : Declaration Ty}
    (member : declaration ∈ env.declared.types.entries)
    (valid : Valid env search) :
    Continues env search (search.visit env declaration) ∧
      (declaration.scope, declaration.name) ∈ (search.visit env declaration).done := by
  unfold AliasSearch.visit
  dsimp only
  split
  · rename_i isDone
    exact ⟨.refl valid, List.contains_iff_mem.mp isDone⟩
  · have found := DeclarationTable.local?_of_mem member
    have around : Around env [(declaration.scope, declaration.name)] declaration.value :=
      .singleton found (List.mem_map_of_mem member)
    have room : env.aliasCount < env.aliasCount + [(declaration.scope, declaration.name)].length :=
      Nat.lt_succ_self _
    obtain ⟨continues, accounts⟩ := Continues.followWithin room around valid
    exact ⟨continues.list found accounts, List.mem_cons_self⟩

end AliasSearch

namespace Environment

variable {env : Environment}

/-- The whole search is valid, lists all declared types and accounts for written references. -/
theorem exists_valid_search (env : Environment) :
    ∃ search : AliasSearch,
      search.problems = env.aliasProblems ∧
        search.Valid env ∧
          env.aliasKeys ⊆ search.done ∧
            ∀ ty ∈ env.writtenTypes, ∀ reference ∈ ty.references,
              ∃ around, env.Accounts search.problems search.done around reference := by
  have started : AliasSearch.start.Valid env :=
    ⟨by simp [AliasSearch.start], List.Pairwise.nil, trivial⟩
  obtain ⟨types, typesListed⟩ :=
    AliasSearch.Continues.foldl
      (fun (declaration : Declaration Ty) search =>
        (declaration.scope, declaration.name) ∈ search.done)
      (fun continues isDone => continues.done isDone)
      (fun _ member _ => AliasSearch.Continues.visit member) started
  obtain ⟨written, writtenAccounts⟩ :=
    AliasSearch.Continues.foldl
      (fun ty search => ∀ reference ∈ ty.references,
        env.Accounts search.problems search.done none reference)
      (fun continues accounts reference member =>
        (accounts reference member).mono continues.problems continues.done)
      (fun _ member _ => AliasSearch.Continues.follow (List.mem_append_right _ member))
      types.valid
  have all (declaration : Declaration Ty) (member : declaration ∈ env.declared.types.entries) :=
    written.done (typesListed declaration member)
  refine ⟨_, rfl, written.valid, ?_, ?_⟩
  · intro key isKey
    obtain ⟨declaration, member, rfl⟩ := List.mem_map.mp isKey
    exact all declaration member
  · intro ty isWritten reference member
    rcases List.mem_append.mp isWritten with inTypes | inValues
    · obtain ⟨declaration, isDeclaration, rfl⟩ := List.mem_map.mp inTypes
      exact ⟨_, written.valid.searched.accounts (all declaration isDeclaration)
        (DeclarationTable.local?_of_mem isDeclaration) member⟩
    · exact ⟨none, writtenAccounts ty inValues reference member⟩

/-- A type that leads back to itself is in the strongly connected component of a reported cycle. -/
theorem exists_cycle_of_transGen
    {key : AliasKey}
    (leads : Relation.TransGen env.RefersTo key key) :
    ∃ first rest,
      .cycle first rest ∈ env.aliasProblems ∧
        ∀ member ∈ first :: rest,
          Relation.ReflTransGen env.RefersTo key member ∧
            Relation.ReflTransGen env.RefersTo member key := by
  obtain ⟨search, isSearch, valid, all, _⟩ := env.exists_valid_search
  have isKey : key ∈ env.aliasKeys := by
    obtain ⟨_, refers, _⟩ := Relation.TransGen.head'_iff.mp leads
    exact mem_aliasKeys_of_refersTo refers
  obtain ⟨other, _, ⟨first, rest, isCycle, isOther, _⟩, forth, back⟩ :=
    valid.searched.exists_join (all isKey) leads leads
  have holds := valid.holds _ isCycle
  refine ⟨first, rest, isSearch ▸ isCycle, fun member isMember => ?_⟩
  exact ⟨forth.trans (holds.reaches isOther isMember), (holds.reaches isMember isOther).trans back⟩

/-- The search finds nothing exactly if no type leads back to itself and references are declared. -/
theorem aliasProblems_eq_nil_iff :
    env.aliasProblems = [] ↔
      (∀ key, ¬ Relation.TransGen env.RefersTo key key) ∧
        ∀ ty ∈ env.writtenTypes, ∀ reference ∈ ty.references,
          (env.definition? reference.1 reference.2).isSome := by
  obtain ⟨search, isSearch, valid, _, accounts⟩ := env.exists_valid_search
  rw [isSearch] at accounts
  constructor
  · intro clean
    refine ⟨fun key leads => ?_, fun ty isWritten reference member => ?_⟩
    · obtain ⟨first, rest, isCycle, _⟩ := exists_cycle_of_transGen leads
      rw [clean] at isCycle
      contradiction
    · obtain ⟨around, accounted⟩ := accounts ty isWritten reference member
      rw [clean] at accounted
      by_contra notFound
      rw [Option.not_isSome_iff_eq_none] at notFound
      simp [Accounts, notFound] at accounted
  · rintro ⟨acyclic, declared⟩
    refine List.eq_nil_iff_forall_not_mem.mpr fun problem isProblem => ?_
    have holds := valid.holds problem (isSearch ▸ isProblem)
    cases problem with
    | undeclared scope name =>
        obtain ⟨⟨ty, isWritten, member⟩, notFound⟩ := holds
        simpa [notFound] using declared ty isWritten (scope, name) member
    | cycle first rest =>
        exact acyclic first (holds.transGen first (by simp))

end Environment

namespace AliasProblem

end AliasProblem

end ShaderTyping
