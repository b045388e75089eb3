import ShaderTyping.Proofs.CheckedInference
import ShaderTyping.Proofs.Closing

namespace ShaderTyping

/-!
# Programs with types

If `checkProgram` succeeds, it types the whole program: it lists the variables
outside the native scope in order, their types are closed, and the type of each
expression inside them is recorded.
-/

open Environment (Restored)
open ShaderTyping.Action (Accords)

variable {declared : Declarations} {known : List ExprId} {env after : Environment}

/-! ## Declarations -/

/-- The scope, the name and the expression of a declared variable. -/
def Declaration.subject (declaration : Declaration Expr) : ScopeId × String × ExprId :=
  (declaration.scope, declaration.name, declaration.value.id)

/-- What a typed declaration gives a type to. -/
def TypedDeclaration.subject (declaration : TypedDeclaration) : ScopeId × String × ExprId :=
  (declaration.scope, declaration.name, declaration.expr)

/-- While no declaration is in progress, inferring one records the type of its expression. -/
theorem inferDeclaration_records
    (checked : env.Checked declared known)
    (idle : env.context.inProgress = [])
    {declaration : Declaration Expr}
    (member : declaration ∈ declared.values.entries) :
    (inferDeclaration declaration.scope declaration.name env).Stays declared InferError.Resolved
      (declaration.value.id :: known) fun found => ∃ ty, found = some ty ∧ declared.Covers ty := by
  have accords :
      Accords declared InferError.Resolved known
        (inferDeclaration declaration.scope declaration.name)
        (inferDeclaration declaration.scope declaration.name) (declaration.value.id :: known)
        (fun found => ∃ ty, found = some ty ∧ declared.Covers ty) env := by
    refine .bind_environment ?_
    rw [checked.sameDeclared, DeclarationTable.local?_of_mem member]
    refine .map (.imp (Inference.inferDeclared_records infer_accords _ _
      (Declarations.value_mem_nodes member) ?_) fun covers => ⟨_, rfl, covers⟩)
    rw [idle]
    rfl
  exact (accords checked).2

namespace Program

/-- A step of inference that lists no error has given a declaration its type. -/
theorem inferNext_typed
    {progress next : Progress}
    {declaration : Declaration Expr}
    (stepped : (inferNext progress declaration : Action ε Progress) env = .ok next after)
    (noErrors : next.errors = []) :
    progress.errors = [] ∧
      ∃ found,
        inferDeclaration declaration.scope declaration.name env = .ok found after ∧
          next.typed =
            progress.typed ++
              (found.map fun ty =>
                ⟨declaration.scope, declaration.name, declaration.value.id, ty⟩).toList := by
  obtain ⟨result, middle, attempted, classified⟩ := Action.bind_eq_ok.mp stepped
  unfold Action.attempt at attempted
  cases outcome : inferDeclaration declaration.scope declaration.name env with
  | ok found left =>
      rw [outcome] at attempted
      cases attempted
      cases found with
      | none =>
          cases classified
          exact ⟨noErrors, none, rfl, by simp⟩
      | some ty =>
          cases classified
          exact ⟨noErrors, some ty, rfl, rfl⟩
  | error cause left =>
      rw [outcome] at attempted
      cases attempted
      dsimp only at classified
      split at classified
      · rename_i isListed
        cases classified
        rw [noErrors] at isListed
        contradiction
      · cases classified
        simp at noErrors
  | exhausted =>
      rw [outcome] at attempted
      contradiction

/-- Errors of earlier declarations stay listed. -/
theorem foldlM_inferNext_errors
    {declarations : List (Declaration Expr)}
    {progress result : Progress}
    (folded : (declarations.foldlM inferNext progress : Action ε Progress) env = .ok result after)
    (noErrors : result.errors = []) :
    progress.errors = [] := by
  induction declarations generalizing env progress with
  | nil =>
      cases folded
      exact noErrors
  | cons declaration rest inductionHypothesis =>
      rw [List.foldlM_cons] at folded
      obtain ⟨next, middle, stepped, remaining⟩ := Action.bind_eq_ok.mp folded
      exact (inferNext_typed stepped (inductionHypothesis remaining)).1

/-- Declarations that are inferred without an error are typed in order, with all their parts. -/
theorem foldlM_inferNext_typed
    {declarations : List (Declaration Expr)}
    {progress result : Progress}
    (checked : env.Checked declared known)
    (idle : env.context.inProgress = [])
    (members : ∀ declaration ∈ declarations, declaration ∈ declared.values.entries)
    (folded : (declarations.foldlM inferNext progress : Action ε Progress) env = .ok result after)
    (noErrors : result.errors = []) :
    after.Checked declared (declarations.map (fun declaration => declaration.value.id) ++ known) ∧
      ∃ typed,
        result.typed = progress.typed ++ typed ∧
          typed.map TypedDeclaration.subject = declarations.map Declaration.subject ∧
          ∀ declaration ∈ typed, declared.Covers declaration.ty := by
  induction declarations generalizing env progress known with
  | nil =>
      cases folded
      exact ⟨checked, [], by simp⟩
  | cons declaration rest inductionHypothesis =>
      obtain ⟨member, restMembers⟩ := List.forall_mem_cons.mp members
      rw [List.foldlM_cons] at folded
      obtain ⟨next, middle, stepped, remaining⟩ := Action.bind_eq_ok.mp folded
      obtain ⟨_, found, inferred, extended⟩ :=
        inferNext_typed stepped (foldlM_inferNext_errors remaining noErrors)
      have stays := inferDeclaration_records checked idle member
      rw [inferred] at stays
      obtain ⟨middleChecked, ty, rfl, covers⟩ := stays
      have restored := Restored.of_run ((inferDeclaration_run _ _ env).of_eq_ok inferred)
      obtain ⟨afterChecked, typed, isTyped, subjects, othersCover⟩ :=
        inductionHypothesis middleChecked (restored.inProgress.trans idle) restMembers remaining
      let first : TypedDeclaration :=
        ⟨declaration.scope, declaration.name, declaration.value.id, ty⟩
      refine ⟨afterChecked.mono (by grind), first :: typed, ?_, congrArg _ subjects, ?_⟩
      · rw [isTyped, extended, List.append_assoc]
        rfl
      · exact List.forall_mem_cons.mpr ⟨covers, othersCover⟩

end Program

/-- Typed declarations of the variables of a program are listed by scope and name. -/
theorem TypedDeclaration.pairwise_of_subjects
    {typed : List TypedDeclaration}
    (subjects : typed.map subject = (Program.userVariables env).map Declaration.subject) :
    typed.Pairwise fun first second =>
      first.scope.number < second.scope.number ∨
        first.scope = second.scope ∧ first.name < second.name := by
  have sorted : (Program.userVariables env).Pairwise Declaration.Precedes :=
    env.declared.values.sorted.filter _
  have ordered :
      ((Program.userVariables env).map Declaration.subject).Pairwise fun first second =>
        first.1.number < second.1.number ∨ first.1 = second.1 ∧ first.2.1 < second.2.1 :=
    List.pairwise_map.mpr sorted
  rw [← subjects] at ordered
  exact List.pairwise_map.mp ordered

/-! ## Checks -/

namespace Environment

/-- Asking whether a declaration fails accords. -/
theorem fails_accords {allowed : ε → Prop} (declaration : Declaration Expr) :
    Accords declared allowed [] (fails declaration) (fails declaration) [] (fun _ => True)
      env := by
  refine .bind (.attempt (inferDeclaration_accords .refused _ _)) fun {result _} _ => ?_
  cases result with
  | ok found => exact .pure trivial
  | error cause => exact .pure trivial

/-- Asking which declarations can be inferred accords. -/
theorem inferable_accords
    {allowed : ε → Prop}
    (declarations : List (Declaration Expr)) :
    Accords declared allowed [] (inferable declarations) (inferable declarations) []
      (fun _ => True) env := by
  induction declarations generalizing env with
  | nil => exact .pure trivial
  | cons declaration rest inductionHypothesis =>
      have others (failed : Bool) (env : Environment) :
          Accords declared allowed []
            (do
              let others ← inferable rest
              pure (if failed then others else declaration :: others))
            (do
              let others ← inferable rest
              pure (if failed then others else declaration :: others))
            [] (fun _ => True) env :=
        .bind inductionHypothesis fun _ => .pure trivial
      unfold inferable
      cases declaration.scope.isNative with
      | true => exact others false env
      | false =>
          exact .bind (fails_accords declaration) fun {failed env} _ => others failed env

end Environment

namespace Checker

/-- A check of a program accords. -/
theorem problems_accords {allowed : ε → Prop} (checker : Checker) :
    Accords declared allowed [] checker.problems checker.problems [] (fun _ => True) env := by
  cases checker with
  | cyclicAliases => exact .bind_environment (.pure trivial)
  | unresolvedVariables => exact .bind_environment (.pure trivial)
  | externalConsistency kind =>
      refine .bind_environment (.bind (Environment.inferable_accords _) fun _ => ?_)
      exact .bind_environment (.pure trivial)

/-- The checks of a pipeline accord. -/
theorem runAfter_accords (found : List Diagnostic) (pipeline : List Checker) :
    Accords declared (fun _ => True) [] (runAfter found pipeline) (runAfter found pipeline) []
      (fun _ => True) env := by
  induction pipeline generalizing found env with
  | nil =>
      unfold runAfter
      split
      · exact .pure trivial
      · exact .fail trivial
  | cons checker rest inductionHypothesis =>
      refine .bind (problems_accords checker) fun _ => ?_
      split
      · exact inductionHypothesis _
      · exact .fail trivial

/-- A pipeline passes only if nothing was found before. -/
theorem found_of_runAfter_eq_ok
    {found : List Diagnostic}
    {pipeline : List Checker}
    (passed : runAfter found pipeline env = .ok () after) :
    found = [] := by
  induction pipeline generalizing found env with
  | nil =>
      unfold runAfter at passed
      split at passed
      · exact List.isEmpty_iff.mp ‹_›
      · cases passed
  | cons checker rest inductionHypothesis =>
      obtain ⟨problems, middle, _, remaining⟩ := runAfter_cons_eq_ok passed
      exact (List.append_eq_nil_iff.mp (inductionHypothesis remaining)).1

/-- The checks leave a program that passes them checked. -/
theorem checked_of_run_standard
    (isDeclared : env.Declared)
    (natives : ∀ ty ∈ env.declared.nativeTypes, ty.references = [])
    (passed : run standard env = .ok () after) :
    after.Checked env.declared [] := by
  obtain ⟨problems, _, aliases, afterAliases⟩ := runAfter_cons_eq_ok passed
  cases aliases
  obtain ⟨undefined, _, references, afterVariables⟩ := runAfter_cons_eq_ok afterAliases
  cases references
  have nothingFound := found_of_runAfter_eq_ok afterVariables
  obtain ⟨noProblems, noUndefined⟩ := List.append_eq_nil_iff.mp nothingFound
  have noAliasProblems : env.aliasProblems = [] := List.map_eq_nil_iff.mp noProblems
  have checked := isDeclared.checked natives noAliasProblems noUndefined
  have stays := (runAfter_accords [] standard checked).2
  rw [show runAfter [] standard env = .ok () after from passed] at stays
  exact stays.1

end Checker

/-! ## Programs -/

/-- Closing a covered type gives a closed one. -/
theorem Environment.close_accords
    {allowed : ε → Prop}
    {ty : Ty}
    (covers : declared.Covers ty) :
    Accords declared allowed known (liftM (close ty) : Action ε Ty) (liftM (close ty)) known
      Ty.Closed env := by
  intro checked
  obtain ⟨_, closes⟩ :=
    @Accords.ofState ε Ty declared allowed known declared.Covers env _ (close_keeps covers)
      (close_run ty env) checked
  have sameDeclared := checked.sameDeclared
  subst sameDeclared
  exact ⟨rfl, closes.1, close_closed checked.acyclic checked.satisfied covers⟩

namespace Program

/-- Closing the types of declarations changes nothing else about them. -/
theorem closeDeclarations_accords
    {declarations : List TypedDeclaration}
    (cover : ∀ declaration ∈ declarations, declared.Covers declaration.ty) :
    Accords declared (fun _ : Report => True) known
      (declarations.mapM fun declaration => do
        let ty ← Environment.close declaration.ty
        pure { declaration with ty := ty })
      (declarations.mapM fun declaration => do
        let ty ← Environment.close declaration.ty
        pure { declaration with ty := ty })
      known
      (fun closed =>
        closed.map TypedDeclaration.subject = declarations.map TypedDeclaration.subject ∧
          ∀ declaration ∈ closed, declaration.ty.Closed)
      env := by
  refine .mono (.imp (.mapM (fun _ => [])
    (fun original closed => closed.subject = original.subject ∧ closed.ty.Closed)
    fun declaration member => ?_) fun related => ?_) (List.subset_append_right _ _)
  · refine .bind (Environment.close_accords (cover declaration member)) fun isClosed => ?_
    exact .pure ⟨rfl, isClosed⟩
  · constructor
    · have same := related.imp fun _ _ closes => closes.1.symm
      rw [← List.forall₂_map_right_iff, ← List.forall₂_map_left_iff, List.forall₂_eq_eq_eq] at same
      exact same.symm
    · intro declaration member
      obtain ⟨_, _, closes⟩ := exists_of_forall₂ related member
      exact closes.2

end Program

/-- Inferring a checked program without an error types its variables with all their parts. -/
theorem inferProgram_types_variables
    (checked : env.Checked declared [])
    (idle : env.context.inProgress = [])
    {program : TypedProgram}
    (ended : inferProgram env = .ok program after) :
    after.Checked declared
        ((Program.userVariables env).map fun declaration => declaration.value.id) ∧
      program.declarations.map TypedDeclaration.subject =
        (Program.userVariables env).map Declaration.subject ∧
      ∀ declaration ∈ program.declarations, declared.Covers declaration.ty := by
  obtain ⟨_, _, isRead, inferring⟩ := Action.bind_eq_ok.mp ended
  cases isRead
  obtain ⟨progress, middle, folded, classified⟩ := Action.bind_eq_ok.mp inferring
  split at classified
  · rename_i noErrors
    cases classified
    have members :
        ∀ declaration ∈ Program.userVariables env, declaration ∈ declared.values.entries := by
      intro declaration isVariable
      rw [← checked.sameDeclared]
      exact (List.mem_filter.mp isVariable).1
    obtain ⟨afterChecked, typed, isTyped, subjects, cover⟩ :=
      Program.foldlM_inferNext_typed checked idle members folded (List.isEmpty_iff.mp noErrors)
    rw [List.append_nil] at afterChecked
    rw [List.nil_append] at isTyped
    rw [isTyped]
    refine ⟨afterChecked, ?_, fun declaration isDeclaration => ?_⟩
    · rw [List.map_map, ← subjects]
      rfl
    · obtain ⟨original, isOriginal, rfl⟩ := List.mem_map.mp isDeclaration
      exact afterChecked.satisfied.resolve (cover original isOriginal)
  · cases classified

/--
A program that passes `checkProgram` is typed completely.

The result lists the variables outside the native scope, each once, by scope number
and name.  Their types contain neither placeholders nor references, and every
expression inside them has a type.
-/
theorem checkProgram_types_everything
    {options : Options}
    {operations : List Operation}
    (declares : ∀ operation ∈ operations, operation.isDeclaration = true)
    {env : Environment}
    (performed : Operation.performAll operations (.empty options) = some env)
    (distinct : env.exprIds.Nodup)
    (natives : ∀ ty ∈ env.declared.nativeTypes, ty.references = [])
    {program : TypedProgram}
    {final : Environment}
    (passed : checkProgram env = .ok program final) :
    program.declarations.map TypedDeclaration.subject =
        (Program.userVariables env).map Declaration.subject ∧
      program.declarations.Pairwise (fun first second =>
        first.scope.number < second.scope.number ∨
          first.scope = second.scope ∧ first.name < second.name) ∧
      (∀ declaration ∈ program.declarations, declaration.ty.Closed) ∧
      ∀ declaration ∈ Program.userVariables env, ∀ node ∈ declaration.value.nodes,
        (final.typeOf? node.id).isSome := by
  obtain ⟨_, middle, checks, inferring⟩ := Action.bind_eq_ok.mp passed
  obtain ⟨inferred, later, inferredProgram, closing⟩ := Action.bind_eq_ok.mp inferring
  obtain ⟨declarations, _, closed, isProgram⟩ := Action.bind_eq_ok.mp closing
  cases isProgram
  have isDeclared := Environment.declared_of_operations declares performed
  have middleChecked := Checker.checked_of_run_standard isDeclared natives checks
  have restored := Restored.of_run ((Checker.runAfter_run [] _ env).of_eq_ok checks)
  have idle : middle.context.inProgress = [] := by
    rw [restored.inProgress, isDeclared.context]
    rfl
  obtain ⟨laterChecked, inferredSubjects, cover⟩ :=
    inferProgram_types_variables middleChecked idle inferredProgram
  -- The checks declare nothing, so the variables that were inferred are those of the program.
  have sameVariables : Program.userVariables middle = Program.userVariables env := by
    rw [Program.userVariables, restored.declared]
    rfl
  rw [sameVariables] at laterChecked inferredSubjects
  have stays := (Program.closeDeclarations_accords cover laterChecked).2
  rw [closed] at stays
  obtain ⟨finalChecked, closedSubjects, allClosed⟩ := stays
  have subjects := closedSubjects.trans inferredSubjects
  refine ⟨subjects, ?_, allClosed, fun declaration member node inside => ?_⟩
  · exact TypedDeclaration.pairwise_of_subjects subjects
  · have isVariable := (List.mem_filter.mp member).1
    have isKnown := finalChecked.recorded _ (List.mem_map_of_mem member)
    have distinctNodes : (env.declared.nodes.map Expr.id).Nodup := by
      rw [Declarations.nodes, List.map_flatMap]
      exact distinct
    have known := finalChecked.knows_nodes distinctNodes
      (Declarations.value_mem_nodes isVariable) isKnown node inside
    rw [Environment.typeOf?, Option.isSome_map]
    exact known

namespace Identity

open MutualCalls (node)

/--
A type `Count` for `int`, a built-in `next`, the functions `same = fn x -> x` and
`after = fn n : Count -> next(n)`, and the call `one = same(after(0))`.
-/
def operations : List Operation :=
  [.declareVariable .native "next" (node 0 0 (.native (.function Ty.int Ty.int))),
    .newScope .native, .declareType ⟨1⟩ "Count" Ty.int,
    .newScope ⟨1⟩, .declareVariable ⟨2⟩ "x" (node 1 2 (.parameter ⟨2⟩ 0)),
    .declareVariable ⟨1⟩ "same"
      (node 2 1 (.function [⟨"x", none⟩] (node 3 2 (.reference "x")))),
    .newScope ⟨1⟩, .declareVariable ⟨3⟩ "n" (node 4 3 (.parameter ⟨5⟩ 0)),
    .declareVariable ⟨1⟩ "after"
      (node 5 1 (.function [⟨"n", some (.named ⟨1⟩ "Count")⟩]
        (node 6 3 (.call (node 7 3 (.reference "next")) [node 8 3 (.reference "n")])))),
    .declareVariable ⟨1⟩ "one"
      (node 9 1 (.call (node 10 1 (.reference "same"))
        [node 11 1 (.call (node 12 1 (.reference "after"))
          [node 13 1 (.literal (.int 0))])]))]

/-- The variables of the program outside the native scope. -/
def subjects : List (ScopeId × String × ExprId) :=
  [(⟨1⟩, "after", ⟨5⟩), (⟨1⟩, "one", ⟨9⟩), (⟨1⟩, "same", ⟨2⟩), (⟨2⟩, "x", ⟨1⟩), (⟨3⟩, "n", ⟨4⟩)]

/-- The program passes the checks. -/
theorem computed :
    (Operation.performAll operations (.empty Options.standard)).map
        (fun env =>
          (decide (env.exprIds.Nodup ∧ (∀ ty ∈ env.declared.nativeTypes, ty.references = []) ∧
              (Program.userVariables env).map Declaration.subject = subjects),
            (checkProgram env).value?.isSome)) =
      some (true, true) := by
  decide +kernel

end Identity

/-- A program with a reference and a polymorphic function is typed completely. -/
theorem checkProgram_types_everything_identity :
    ∃ env program final,
      Operation.performAll Identity.operations (.empty Options.standard) = some env ∧
        checkProgram env = .ok program final ∧
        program.declarations.map TypedDeclaration.subject = Identity.subjects ∧
        (∀ declaration ∈ program.declarations, declaration.ty.Closed) ∧
        ∀ declaration ∈ Program.userVariables env, ∀ node ∈ declaration.value.nodes,
          (final.typeOf? node.id).isSome := by
  obtain ⟨env, performed, shown⟩ := Option.map_eq_some_iff.mp Identity.computed
  simp only [Prod.mk.injEq, decide_eq_true_eq] at shown
  obtain ⟨⟨distinct, natives, isSubjects⟩, hasValue⟩ := shown
  obtain ⟨program, isProgram⟩ := Option.isSome_iff_exists.mp hasValue
  obtain ⟨final, passed⟩ := Outcome.eq_ok_of_value? isProgram
  obtain ⟨listed, _, closed, typed⟩ :=
    checkProgram_types_everything (by decide) performed distinct natives passed
  exact ⟨env, program, final, performed, passed, listed.trans isSubjects, closed, typed⟩

end ShaderTyping
