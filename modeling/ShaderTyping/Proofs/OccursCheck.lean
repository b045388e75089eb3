import ShaderTyping.Proofs.Reachable

namespace ShaderTyping

/-!
# The occurs check without its bound

`Searches` is the search of the occurs check as the recursion that it is, with no
bound on its steps: the types that are still to be searched stand in a list, and
the declared types that have been searched are shared by all of them.  The search
comes to exactly one answer, the one that is computed within the bound, and it
finds a placeholder exactly if the type contains it.
-/

namespace Environment

/-- A type contains a placeholder: in its structure, its bindings and its definitions. -/
inductive Contains (env : Environment) (target : PlaceholderId) : Ty → Prop where
  | target (scope : ScopeId) :
      Contains env target (.placeholder scope target)
  | bound {scope : ScopeId} {id : PlaceholderId} {bound : Ty} :
      env.binding? id = some bound →
      Contains env target bound →
      Contains env target (.placeholder scope id)
  | definition {scope : ScopeId} {name : String} {key : AliasKey} {definition : Ty} :
      env.definition? scope name = some (key, definition) →
      Contains env target definition →
      Contains env target (.named scope name)
  | component {component : Ty} {length : Length} :
      Contains env target component →
      Contains env target (.array component length)
  | field {fields : List (String × Ty)} {field : String × Ty} :
      field ∈ fields →
      Contains env target field.2 →
      Contains env target (.struct fields)
  | param {param result : Ty} :
      Contains env target param →
      Contains env target (.function param result)
  | result {param result : Ty} :
      Contains env target result →
      Contains env target (.function param result)
  | member {members : List Ty} {member : Ty} :
      member ∈ members →
      Contains env target member →
      Contains env target (.union members)

/--
A search of some types, one after the other, comes to an answer.

The answer is `none` if the placeholder is found, and otherwise lists the declared
types that have been searched by then.
-/
inductive Searches (env : Environment) (target : PlaceholderId) :
    List AliasKey → List Ty → Option (List AliasKey) → Prop where
  | done {searched : List AliasKey} :
      Searches env target searched [] (some searched)
  | target {searched : List AliasKey} {scope : ScopeId} {rest : List Ty} :
      Searches env target searched (.placeholder scope target :: rest) none
  | bound {searched answer scope id bound rest} :
      id ≠ target →
      env.binding? id = some bound →
      Searches env target searched (bound :: rest) answer →
      Searches env target searched (.placeholder scope id :: rest) answer
  | unbound {searched answer scope id rest} :
      id ≠ target →
      env.binding? id = none →
      Searches env target searched rest answer →
      Searches env target searched (.placeholder scope id :: rest) answer
  | definition {searched answer scope name key definition rest} :
      env.definition? scope name = some (key, definition) →
      key ∉ searched →
      Searches env target (key :: searched) (definition :: rest) answer →
      Searches env target searched (.named scope name :: rest) answer
  | again {searched answer scope name key definition rest} :
      env.definition? scope name = some (key, definition) →
      key ∈ searched →
      Searches env target searched rest answer →
      Searches env target searched (.named scope name :: rest) answer
  | undeclared {searched answer scope name rest} :
      env.definition? scope name = none →
      Searches env target searched rest answer →
      Searches env target searched (.named scope name :: rest) answer
  | array {searched answer component length rest} :
      Searches env target searched (component :: rest) answer →
      Searches env target searched (.array component length :: rest) answer
  | struct {searched answer fields rest} :
      Searches env target searched (fields.map Prod.snd ++ rest) answer →
      Searches env target searched (.struct fields :: rest) answer
  | function {searched answer param result rest} :
      Searches env target searched (param :: result :: rest) answer →
      Searches env target searched (.function param result :: rest) answer
  | union {searched answer members rest} :
      Searches env target searched (members ++ rest) answer →
      Searches env target searched (.union members :: rest) answer
  | primitive {searched answer kind rest} :
      Searches env target searched rest answer →
      Searches env target searched (.primitive kind :: rest) answer
  | parametric {searched answer scope label rest} :
      Searches env target searched rest answer →
      Searches env target searched (.parametric scope label :: rest) answer

variable {env : Environment} {target : PlaceholderId}

/-! ## What a type contains -/

/-- A type contains what one of its leaves contains. -/
theorem Contains.of_mem_leaves
    {ty leaf : Ty}
    (isLeaf : leaf ∈ ty.leaves)
    (contains : env.Contains target leaf) :
    env.Contains target ty := by
  induction ty using Ty.induction with
  | array component length inductionHypothesis =>
      rw [Ty.leaves_array] at isLeaf
      exact .component (inductionHypothesis isLeaf)
  | struct fields inductionHypothesis =>
      rw [Ty.leaves_struct, List.mem_flatMap] at isLeaf
      obtain ⟨field, isField, inField⟩ := isLeaf
      exact .field isField (inductionHypothesis field isField inField)
  | function param result paramHypothesis resultHypothesis =>
      rw [Ty.leaves_function, List.mem_append] at isLeaf
      rcases isLeaf with inParam | inResult
      · exact .param (paramHypothesis inParam)
      · exact .result (resultHypothesis inResult)
  | union members inductionHypothesis =>
      rw [Ty.leaves_union, List.mem_flatMap] at isLeaf
      obtain ⟨member, isMember, inMember⟩ := isLeaf
      exact .member isMember (inductionHypothesis member isMember inMember)
  | primitive kind =>
      rw [Ty.leaves_primitive, List.mem_singleton] at isLeaf
      exact isLeaf ▸ contains
  | named scope name =>
      rw [Ty.leaves_named, List.mem_singleton] at isLeaf
      exact isLeaf ▸ contains
  | placeholder scope id =>
      rw [Ty.leaves_placeholder, List.mem_singleton] at isLeaf
      exact isLeaf ▸ contains
  | parametric scope label =>
      rw [Ty.leaves_parametric, List.mem_singleton] at isLeaf
      exact isLeaf ▸ contains

/-- A leaf contains what the type that it stands for contains. -/
theorem Contains.of_standsFor?
    {leaf next : Ty}
    (stands : env.standsFor? leaf = some next)
    (contains : env.Contains target next) :
    env.Contains target leaf := by
  cases leaf with
  | placeholder scope id => exact .bound stands contains
  | named scope name =>
      obtain ⟨⟨key, definition⟩, found, same⟩ := Option.map_eq_some_iff.mp stands
      cases same
      exact .definition found contains
  | primitive | array | struct | function | union | parametric => contradiction

/-- A reached placeholder is one that the type contains. -/
theorem contains_iff_reaches {ty : Ty} :
    env.Contains target ty ↔ ∃ scope, env.Reaches ty (.placeholder scope target) := by
  constructor
  · intro contains
    induction contains with
    | target scope => exact ⟨scope, _, List.mem_singleton_self _, .refl⟩
    | bound found _ inductionHypothesis =>
        obtain ⟨scope, reaches⟩ := inductionHypothesis
        exact ⟨scope, Reaches.of_standsFor? (List.mem_singleton_self _) found reaches⟩
    | definition found _ inductionHypothesis =>
        obtain ⟨scope, reaches⟩ := inductionHypothesis
        refine ⟨scope, reaches.of_standsFor? (List.mem_singleton_self _) ?_⟩
        rw [standsFor?, found, Option.map_some]
    | component _ inductionHypothesis =>
        obtain ⟨scope, leaf, isLeaf, path⟩ := inductionHypothesis
        exact ⟨scope, leaf, by rwa [Ty.leaves_array], path⟩
    | @field _ field isField _ inductionHypothesis =>
        obtain ⟨scope, leaf, isLeaf, path⟩ := inductionHypothesis
        refine ⟨scope, leaf, ?_, path⟩
        rw [Ty.leaves_struct]
        exact List.mem_flatMap.mpr ⟨field, isField, isLeaf⟩
    | param _ inductionHypothesis =>
        obtain ⟨scope, leaf, isLeaf, path⟩ := inductionHypothesis
        refine ⟨scope, leaf, ?_, path⟩
        rw [Ty.leaves_function]
        exact List.mem_append_left _ isLeaf
    | result _ inductionHypothesis =>
        obtain ⟨scope, leaf, isLeaf, path⟩ := inductionHypothesis
        refine ⟨scope, leaf, ?_, path⟩
        rw [Ty.leaves_function]
        exact List.mem_append_right _ isLeaf
    | @member _ member isMember _ inductionHypothesis =>
        obtain ⟨scope, leaf, isLeaf, path⟩ := inductionHypothesis
        refine ⟨scope, leaf, ?_, path⟩
        rw [Ty.leaves_union]
        exact List.mem_flatMap.mpr ⟨member, isMember, isLeaf⟩
  · rintro ⟨scope, leaf, isLeaf, path⟩
    refine .of_mem_leaves isLeaf ?_
    clear isLeaf
    induction path using Relation.ReflTransGen.head_induction_on with
    | refl => exact .target scope
    | head step _ inductionHypothesis =>
        obtain ⟨next, stands, isNext⟩ := step
        exact .of_standsFor? stands (.of_mem_leaves isNext inductionHypothesis)

/-! ## The answer of a search -/

namespace Searches

/-- A search comes to one answer only. -/
theorem unique
    {searched : List AliasKey}
    {tys : List Ty}
    {answer other : Option (List AliasKey)}
    (search : env.Searches target searched tys answer)
    (search' : env.Searches target searched tys other) :
    other = answer := by
  induction search with
  | done =>
      cases search'
      rfl
  | target =>
      cases search' with
      | target => rfl
      | bound different => exact absurd rfl different
      | unbound different => exact absurd rfl different
  | bound different found _ inductionHypothesis =>
      cases search' with
      | target => exact absurd rfl different
      | bound _ found' rest =>
          cases found.symm.trans found'
          exact inductionHypothesis rest
      | unbound _ isUnbound => cases found.symm.trans isUnbound
  | unbound different isUnbound _ inductionHypothesis =>
      cases search' with
      | target => exact absurd rfl different
      | bound _ found => cases isUnbound.symm.trans found
      | unbound _ _ rest => exact inductionHypothesis rest
  | definition found isNew _ inductionHypothesis =>
      cases search' with
      | definition found' _ rest =>
          cases found.symm.trans found'
          exact inductionHypothesis rest
      | again found' isListed =>
          cases found.symm.trans found'
          exact absurd isListed isNew
      | undeclared isUndeclared => cases found.symm.trans isUndeclared
  | again found isListed _ inductionHypothesis =>
      cases search' with
      | definition found' isNew =>
          cases found.symm.trans found'
          exact absurd isListed isNew
      | again _ _ rest => exact inductionHypothesis rest
      | undeclared isUndeclared => cases found.symm.trans isUndeclared
  | undeclared isUndeclared _ inductionHypothesis =>
      cases search' with
      | definition found => cases isUndeclared.symm.trans found
      | again found => cases isUndeclared.symm.trans found
      | undeclared _ rest => exact inductionHypothesis rest
  | array _ inductionHypothesis =>
      cases search' with
      | array rest => exact inductionHypothesis rest
  | struct _ inductionHypothesis =>
      cases search' with
      | struct rest => exact inductionHypothesis rest
  | function _ inductionHypothesis =>
      cases search' with
      | function rest => exact inductionHypothesis rest
  | union _ inductionHypothesis =>
      cases search' with
      | union rest => exact inductionHypothesis rest
  | primitive _ inductionHypothesis =>
      cases search' with
      | primitive rest => exact inductionHypothesis rest
  | parametric _ inductionHypothesis =>
      cases search' with
      | parametric rest => exact inductionHypothesis rest

end Searches

/-! ## The search within its bound comes to the answer -/

/--
A search of some types comes to an outcome, whatever is searched after them, and
the declared types that have been searched by then are as they should be.
-/
structure Settles
    (env : Environment)
    (target : PlaceholderId)
    (invariant : List AliasKey → Prop)
    (searched : List AliasKey)
    (tys : List Ty)
    (outcome : Option (List AliasKey)) : Prop where
  searches :
    ∀ (rest : List Ty) (next : List AliasKey → Option (List AliasKey)),
      (∀ after, outcome = some after → env.Searches target after rest (next after)) →
      env.Searches target searched (tys ++ rest) (outcome.bind next)
  kept : ∀ after, outcome = some after → invariant after

namespace Settles

variable {invariant : List AliasKey → Prop}

/-- Types settle one after the other. -/
theorem flatMap_leaves
    {step : List AliasKey → Ty → Option (List AliasKey)}
    {searched : List AliasKey}
    {tys : List Ty}
    (holds : invariant searched)
    (each :
      ∀ ty ∈ tys, ∀ {before},
        invariant before →
        env.Settles target invariant before [ty] (ty.leaves.foldlM step before)) :
    env.Settles target invariant searched tys
      ((tys.flatMap Ty.leaves).foldlM step searched) := by
  induction tys generalizing searched with
  | nil =>
      refine ⟨fun _ _ after => after searched rfl, fun after isAfter => ?_⟩
      cases isAfter
      exact holds
  | cons ty others inductionHypothesis =>
      have first := each ty List.mem_cons_self holds
      rw [List.flatMap_cons, List.foldlM_append]
      cases outcome : ty.leaves.foldlM step searched with
      | none =>
          rw [outcome] at first
          refine ⟨fun rest next _ => ?_, fun _ ended => by cases ended⟩
          exact first.searches (others ++ rest) next fun _ ended => by cases ended
      | some middle =>
          rw [outcome] at first
          have later :=
            inductionHypothesis (first.kept middle rfl)
              fun other isOther => each other (List.mem_cons_of_mem _ isOther)
          refine ⟨fun rest next after => ?_, later.kept⟩
          have atRest := later.searches rest next after
          refine first.searches (others ++ rest) (fun _ => _) fun middle' isMiddle => ?_
          cases isMiddle
          exact atRest

/-- A type settles if its leaves do. -/
theorem of_leaves
    {step : List AliasKey → Ty → Option (List AliasKey)}
    {searched : List AliasKey}
    {ty : Ty}
    (holds : invariant searched)
    (each :
      ∀ leaf ∈ ty.leaves, ∀ {before},
        invariant before →
        env.Settles target invariant before [leaf] (step before leaf)) :
    env.Settles target invariant searched [ty] (ty.leaves.foldlM step searched) := by
  induction ty using Ty.induction generalizing searched with
  | array component length inductionHypothesis =>
      rw [Ty.leaves_array] at each ⊢
      have settles := inductionHypothesis holds each
      exact ⟨fun rest next after => .array (settles.searches rest next after), settles.kept⟩
  | struct fields inductionHypothesis =>
      rw [Ty.leaves_struct, ← List.flatMap_map] at each ⊢
      have settles :=
        flatMap_leaves holds fun ty isTy before isBefore => by
          obtain ⟨field, isField, rfl⟩ := List.mem_map.mp isTy
          exact inductionHypothesis field isField isBefore fun leaf isLeaf =>
            each leaf (List.mem_flatMap.mpr ⟨_, isTy, isLeaf⟩)
      exact ⟨fun rest next after => .struct (settles.searches rest next after), settles.kept⟩
  | function param result paramHypothesis resultHypothesis =>
      have parts : (Ty.function param result).leaves = [param, result].flatMap Ty.leaves := by
        rw [Ty.leaves_function, List.flatMap_cons, List.flatMap_singleton]
      rw [parts] at each ⊢
      have settles :=
        flatMap_leaves holds fun ty isTy before isBefore => by
          have inside : ∀ leaf ∈ ty.leaves, leaf ∈ [param, result].flatMap Ty.leaves :=
            fun leaf isLeaf => List.mem_flatMap.mpr ⟨ty, isTy, isLeaf⟩
          rcases List.mem_pair.mp isTy with rfl | rfl
          · exact paramHypothesis isBefore fun leaf isLeaf => each leaf (inside leaf isLeaf)
          · exact resultHypothesis isBefore fun leaf isLeaf => each leaf (inside leaf isLeaf)
      exact ⟨fun rest next after => .function (settles.searches rest next after), settles.kept⟩
  | union members inductionHypothesis =>
      rw [Ty.leaves_union] at each ⊢
      have settles :=
        flatMap_leaves holds fun ty isTy before isBefore =>
          inductionHypothesis ty isTy isBefore fun leaf isLeaf =>
            each leaf (List.mem_flatMap.mpr ⟨_, isTy, isLeaf⟩)
      exact ⟨fun rest next after => .union (settles.searches rest next after), settles.kept⟩
  | primitive | named | placeholder | parametric =>
      -- A leaf is its own only leaf.
      have settles := each _ (List.mem_singleton_self _) holds
      rwa [← bind_pure (step searched _)] at settles

/-- A type with nothing to search inside it settles at once. -/
theorem unchanged
    {searched : List AliasKey}
    {ty : Ty}
    (holds : invariant searched)
    (skips :
      ∀ {rest answer},
        env.Searches target searched rest answer →
        env.Searches target searched (ty :: rest) answer) :
    env.Settles target invariant searched [ty] (some searched) where
  searches := fun _ _ after => skips (after searched rfl)
  kept := by
    intro after isAfter
    cases isAfter
    exact holds

end Settles

/-- More declared types have been searched than before, each of them once. -/
structure Lists (env : Environment) (before after : List AliasKey) : Prop where
  kept : before ⊆ after
  nodup : after.Nodup
  declared : after ⊆ env.aliasKeys

theorem Lists.trans
    {before middle after : List AliasKey}
    (earlier : env.Lists before middle)
    (later : env.Lists middle after) :
    env.Lists before after :=
  { later with kept := List.Subset.trans earlier.kept later.kept }

/-- A search within enough steps is the search without a bound. -/
theorem settles_searchWithin
    {rank : Ty → Nat}
    (bounded : ∀ ty, rank ty ≤ env.bindingCount)
    (falls :
      ∀ {ty scope id bound},
        .placeholder scope id ∈ ty.leaves →
        env.binding? id = some bound →
        rank bound < rank ty)
    {steps : Nat}
    {searched : List AliasKey}
    {ty : Ty}
    (nodup : searched.Nodup)
    (declared : searched ⊆ env.aliasKeys)
    (enough : env.searchNeed rank searched ty < steps) :
    env.Settles target (env.Lists searched) searched [ty]
      (env.searchWithin target steps searched ty) := by
  induction steps generalizing searched ty with
  | zero => exact absurd enough (Nat.not_lt_zero _)
  | succ steps inductionHypothesis =>
      rw [searchWithin_succ]
      refine .of_leaves ⟨List.Subset.refl _, nodup, declared⟩ ?_
      intro leaf isLeaf before lists
      have search :=
        env.searchesLeaf (Ty.isLeaf_of_mem_leaves isLeaf) target (env.searchWithin target steps)
          before
      generalize env.searchLeaf target (env.searchWithin target steps) before leaf = outcome at *
      cases search with
      | primitive => exact .unchanged lists .primitive
      | parametric => exact .unchanged lists .parametric
      | target => exact ⟨fun _ _ _ => .target, fun _ ended => by cases ended⟩
      | unbound scope different isUnbound => exact .unchanged lists (.unbound different isUnbound)
      | undeclared isUndeclared => exact .unchanged lists (.undeclared isUndeclared)
      | again found isListed => exact .unchanged lists (.again found isListed)
      | @bound _ bound _ scope different found recursion =>
          subst recursion
          have isLess : env.searchNeed rank before bound < env.searchNeed rank searched ty :=
            searchNeed_binding nodup lists.kept (falls isLeaf found)
          have inside :
              env.Settles target (env.Lists before) before [bound]
                (env.searchWithin target steps before bound) :=
            inductionHypothesis lists.nodup lists.declared (by omega)
          refine ⟨fun rest next after => ?_, fun after ended => ?_⟩
          · exact .bound different found (inside.searches rest next after)
          · exact lists.trans (inside.kept after ended)
      | @definition _ _ key definition _ found isNew recursion =>
          subst recursion
          have more : env.Lists before (key :: before) :=
            { kept := List.subset_cons_self key before
              nodup := List.nodup_cons.mpr ⟨isNew, lists.nodup⟩
              declared := List.cons_subset.mpr ⟨mem_aliasKeys found, lists.declared⟩ }
          have isLess :
              env.searchNeed rank (key :: before) definition < env.searchNeed rank searched ty :=
            searchNeed_definition bounded nodup lists.kept more.nodup more.declared
          have inside :
              env.Settles target (env.Lists (key :: before)) (key :: before) [definition]
                (env.searchWithin target steps (key :: before) definition) :=
            inductionHypothesis more.nodup more.declared (by omega)
          refine ⟨fun rest next after => ?_, fun after ended => ?_⟩
          · exact .definition found isNew (inside.searches rest next after)
          · exact (lists.trans more).trans (inside.kept after ended)

/-- The search that the occurs check makes comes to its answer. -/
theorem searches_searchWithin
    (consistent : env.frames.Consistent)
    (target : PlaceholderId)
    (ty : Ty) :
    env.Searches target [] [ty] (env.searchWithin target (env.walkLimit + 1) [] ty) := by
  obtain ⟨rank, bounded, falls⟩ := exists_bindingRank consistent
  have settles :
      env.Settles target (env.Lists []) [] [ty]
        (env.searchWithin target (env.walkLimit + 1) [] ty) :=
    settles_searchWithin bounded falls List.nodup_nil (List.nil_subset _)
      (searchNeed_lt_walkLimit bounded ty)
  have search := settles.searches [] some fun _ _ => .done
  rwa [Option.bind_fun_some] at search

/--
The occurs check is exact.

Its search comes to exactly one answer, also where definitions lead back to
themselves, and the placeholder is found exactly if the type contains it.
-/
theorem occurs_exact
    (reachable : env.Reachable)
    (target : PlaceholderId)
    (ty : Ty) :
    (∃ answer,
      env.Searches target [] [ty] answer ∧
        (∀ other, env.Searches target [] [ty] other → other = answer) ∧
        env.occurs target ty = answer.isNone) ∧
    (env.occurs target ty = true ↔ env.Contains target ty) := by
  have consistent := reachable.consistent
  have search := searches_searchWithin consistent target ty
  refine ⟨⟨_, search, fun other => search.unique, rfl⟩, ?_⟩
  rw [contains_iff_reaches]
  exact occurs_eq_true_iff consistent

/--
A placeholder is found behind a binding, a definition that leads back to itself and
shadows another one, and that other one, which also has an undeclared part.
-/
theorem occurs_exact_behind_shadowing :
    ∃ env : Environment,
      (env.Reachable ∧
        env.binding? ⟨1⟩ = some (.named ⟨1⟩ "Node") ∧
        env.definition? ⟨1⟩ "Node" =
          some ((⟨1⟩, "Node"), .function (.named ⟨1⟩ "Node") (.named .native "Node")) ∧
        env.definition? .native "Node" =
          some ((.native, "Node"),
            .struct [("next", .named .native "Node"), ("tail", .named .native "Missing"),
              ("value", .placeholder .native ⟨0⟩)])) ∧
      env.occurs ⟨0⟩ (.placeholder .native ⟨1⟩) = true ∧
      env.Contains ⟨0⟩ (.placeholder .native ⟨1⟩) := by
  let outer : Ty :=
    .struct [("next", .named .native "Node"), ("tail", .named .native "Missing"),
      ("value", .placeholder .native ⟨0⟩)]
  let inner : Ty := .function (.named ⟨1⟩ "Node") (.named .native "Node")
  let operations : List Operation :=
    [.newScope .native, .declareType .native "Node" outer, .declareType ⟨1⟩ "Node" inner,
      .unify (.placeholder .native ⟨1⟩) (.named ⟨1⟩ "Node")]
  have computed :
      (Operation.performAll operations (Environment.empty Options.standard)).map
        (fun env => decide (
          env.binding? ⟨1⟩ = some (.named ⟨1⟩ "Node") ∧
            env.definition? ⟨1⟩ "Node" = some ((⟨1⟩, "Node"), inner) ∧
            env.definition? .native "Node" = some ((.native, "Node"), outer) ∧
            env.occurs ⟨0⟩ (.placeholder .native ⟨1⟩) = true)) = some true := by
    decide +kernel
  obtain ⟨env, performed, isComputed⟩ := Option.map_eq_some_iff.mp computed
  obtain ⟨isBound, isInner, isOuter, occurs⟩ := of_decide_eq_true isComputed
  have reachable : env.Reachable := ⟨Options.standard, operations, performed⟩
  have exact := occurs_exact reachable ⟨0⟩ (.placeholder .native ⟨1⟩)
  exact ⟨env, ⟨reachable, isBound, isInner, isOuter⟩, occurs, exact.2.mp occurs⟩

end Environment

end ShaderTyping
