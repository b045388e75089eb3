import ShaderTyping.Proofs.Reachable

namespace ShaderTyping

/-!
# Declarations that the checks skip

The checks of outside values infer the program and skip the declarations that
have no type.  What they find out stays recorded, so a declaration that was
skipped may have a type when the program is inferred once more.  Inferring a
fresh program therefore succeeds exactly if the checks skip nothing.
-/

namespace Program

open Environment (fails inferable)

variable {env after : Environment}

/-- The errors that are listed after a declaration was inferred. -/
theorem inferNext_eq_ok
    {declaration : Declaration Expr}
    {failed : Bool}
    (ended : (fails declaration : Action ε Bool) env = .ok failed after)
    (progress : Progress) :
    ∃ result,
      (inferNext progress declaration : Action ε Progress) env = .ok result after ∧
        (result.errors = [] ↔ progress.errors = [] ∧ failed = false) := by
  obtain ⟨outcome, middle, attempted, classified⟩ := Action.bind_eq_ok.mp ended
  cases outcome with
  | ok found =>
      cases classified
      cases found with
      | none =>
          exact ⟨progress, Action.bind_eq_ok.mpr ⟨_, _, attempted, rfl⟩, by simp⟩
      | some ty =>
          exact ⟨_, Action.bind_eq_ok.mpr ⟨_, _, attempted, rfl⟩, by simp⟩
  | error cause =>
      cases classified
      by_cases isListed : progress.errors.contains cause
      · refine ⟨progress, Action.bind_eq_ok.mpr ⟨_, _, attempted, ?_⟩, ?_⟩
        · simp only [isListed, if_true]
          rfl
        · have notEmpty := List.ne_nil_of_mem (List.contains_iff_mem.mp isListed)
          simp [notEmpty]
      · refine ⟨{ progress with errors := progress.errors ++ [cause] },
          Action.bind_eq_ok.mpr ⟨_, _, attempted, ?_⟩, by simp⟩
        simp only [isListed]
        rfl

/--
Inferring declarations to list their errors and inferring them to skip those that
fail go through the same environments.
-/
theorem foldlM_inferNext_eq_ok
    {declarations kept : List (Declaration Expr)}
    (ended :
      (inferable declarations : Action ε (List (Declaration Expr))) env = .ok kept after)
    (progress : Progress) :
    ∃ result,
      ((declarations.filter fun declaration => !declaration.scope.isNative).foldlM inferNext
          progress : Action ε Progress) env = .ok result after ∧
        kept.Sublist declarations ∧
        (result.errors = [] ↔ progress.errors = [] ∧ kept = declarations) := by
  induction declarations generalizing env kept progress with
  | nil =>
      cases ended
      refine ⟨progress, rfl, .slnil, ?_⟩
      simp
  | cons declaration rest inductionHypothesis =>
      cases isNative : declaration.scope.isNative with
      | true =>
          have skipped :
              (declaration :: rest).filter (fun declaration => !declaration.scope.isNative) =
                rest.filter fun declaration => !declaration.scope.isNative := by
            simp [isNative]
          rw [inferable, isNative] at ended
          obtain ⟨_, _, notInferred, remaining⟩ := Action.bind_eq_ok.mp ended
          cases notInferred
          obtain ⟨others, _, restEnded, isKept⟩ := Action.bind_eq_ok.mp remaining
          cases isKept
          obtain ⟨result, folded, isSublist, listed⟩ := inductionHypothesis restEnded progress
          rw [skipped]
          refine ⟨result, folded, isSublist.cons_cons _, ?_⟩
          rw [listed]
          simp
      | false =>
          have inferred :
              (declaration :: rest).filter (fun declaration => !declaration.scope.isNative) =
                declaration ::
                  rest.filter fun declaration => !declaration.scope.isNative := by
            simp [isNative]
          rw [inferable, isNative] at ended
          obtain ⟨failed, middle, firstEnded, remaining⟩ := Action.bind_eq_ok.mp ended
          obtain ⟨others, _, restEnded, isKept⟩ := Action.bind_eq_ok.mp remaining
          cases isKept
          obtain ⟨next, stepped, firstListed⟩ := inferNext_eq_ok firstEnded progress
          obtain ⟨result, folded, isSublist, listed⟩ := inductionHypothesis restEnded next
          rw [inferred, List.foldlM_cons]
          refine ⟨result, Action.bind_eq_ok.mpr ⟨next, middle, stepped, folded⟩, ?_⟩
          rw [listed, firstListed]
          cases failed with
          | true =>
              refine ⟨isSublist.cons _, ?_⟩
              have shorter : others ≠ declaration :: rest := by
                rintro rfl
                exact absurd isSublist.length_le (by simp)
              simp [shorter]
          | false =>
              refine ⟨isSublist.cons_cons _, ?_⟩
              simp

/-- Inferring a program succeeds if no error is listed and fails otherwise. -/
theorem inferProgram_of_progress
    {progress : Progress}
    (folded :
      ((userVariables env).foldlM inferNext ⟨[], []⟩ : Action Report Progress) env =
        .ok progress after) :
    (progress.errors = [] → ∃ typed left, inferProgram env = .ok typed left) ∧
      (progress.errors ≠ [] → ∃ report left, inferProgram env = .error report left) := by
  constructor
  · intro noErrors
    refine ⟨⟨progress.typed.map fun declaration =>
      { declaration with ty := after.resolve declaration.ty }⟩, after, ?_⟩
    refine Action.bind_eq_ok.mpr ⟨env, env, rfl, ?_⟩
    refine Action.bind_eq_ok.mpr ⟨progress, after, folded, ?_⟩
    rw [noErrors]
    rfl
  · intro errors
    refine ⟨⟨progress.errors.map InferError.toDiagnostic⟩, after, ?_⟩
    refine Action.bind_eq_error.mpr (Or.inr ⟨env, env, rfl, ?_⟩)
    refine Action.bind_eq_error.mpr (Or.inr ⟨progress, after, folded, ?_⟩)
    rw [List.isEmpty_eq_false_iff.mpr errors]
    rfl

end Program

namespace Checker

/-- A pipeline that finds no problem has run its first checker and then the others. -/
theorem runAfter_cons_eq_ok
    {found : List Diagnostic}
    {checker : Checker}
    {rest : List Checker}
    {env final : Environment}
    (ended : runAfter found (checker :: rest) env = .ok () final) :
    ∃ problems middle,
      (checker.problems : Action Report (List Diagnostic)) env = .ok problems middle ∧
        runAfter (found ++ problems) rest middle = .ok () final := by
  obtain ⟨problems, middle, validated, remaining⟩ := Action.bind_eq_ok.mp ended
  refine ⟨problems, middle, validated, ?_⟩
  split at remaining
  · exact remaining
  · cases remaining

end Checker

/-- A program without problems has been inferred by the check of attributes. -/
theorem exists_inferable_of_checkProgram
    {env final : Environment}
    {program : TypedProgram}
    (checked : checkProgram env = .ok program final) :
    ∃ kept after,
      (Environment.inferable env.declared.values.entries :
        Action Report (List (Declaration Expr))) env = .ok kept after := by
  obtain ⟨_, middle, passed, _⟩ := Action.bind_eq_ok.mp checked
  obtain ⟨_, _, aliases, afterAliases⟩ := Checker.runAfter_cons_eq_ok passed
  cases aliases
  obtain ⟨_, _, references, afterVariables⟩ := Checker.runAfter_cons_eq_ok afterAliases
  cases references
  obtain ⟨_, _, attributes, _⟩ := Checker.runAfter_cons_eq_ok afterVariables
  obtain ⟨_, _, isRead, inferring⟩ := Action.bind_eq_ok.mp attributes
  cases isRead
  obtain ⟨kept, after, inferred, _⟩ := Action.bind_eq_ok.mp inferring
  exact ⟨kept, after, inferred⟩

/--
If a program passes all checks, inferring it from the start succeeds exactly if
the check of attributes skips no declaration, and fails otherwise.
-/
theorem inferProgram_eq_ok_iff_nothing_skipped
    {env final : Environment}
    {program : TypedProgram}
    (checked : checkProgram env = .ok program final) :
    ∃ kept after,
      (Environment.inferable env.declared.values.entries :
          Action Report (List (Declaration Expr))) env = .ok kept after ∧
        ((∃ typed left, inferProgram env = .ok typed left) ↔
          kept = env.declared.values.entries) ∧
        ((∃ report left, inferProgram env = .error report left) ↔
          kept ≠ env.declared.values.entries) := by
  obtain ⟨kept, after, inferred⟩ := exists_inferable_of_checkProgram checked
  obtain ⟨progress, folded, _, listed⟩ := Program.foldlM_inferNext_eq_ok inferred ⟨[], []⟩
  obtain ⟨succeeds, fails⟩ := Program.inferProgram_of_progress folded
  refine ⟨kept, after, inferred, ?_⟩
  by_cases nothingSkipped : kept = env.declared.values.entries
  · obtain ⟨typed, left, ended⟩ := succeeds (listed.mpr ⟨rfl, nothingSkipped⟩)
    simp [ended, nothingSkipped]
  · obtain ⟨report, left, ended⟩ := fails fun noErrors => nothingSkipped (listed.mp noErrors).2
    simp [ended, nothingSkipped]

/-! ## A program with a skipped declaration -/

/-- Whether an operation only adds a scope or a declaration. -/
def Operation.isDeclaration : Operation → Bool
  | .newScope _ | .declareType _ _ _ | .declareVariable _ _ _ => true
  | _ => false

/-- The identities of all expressions inside declared variables. -/
def Environment.exprIds (env : Environment) : List ExprId :=
  env.declared.values.entries.flatMap fun declaration => declaration.value.nodes.map Expr.id

namespace MutualCalls

/-- An expression without source text. -/
def node (id scope : Nat) (form : Form Expr) : Expr :=
  .node ⟨⟨id⟩, ⟨scope⟩, Span.synthetic⟩ form

/-- `fn x -> [x][b(0)]`, where `x` is declared in scope 2. -/
def first : Expr :=
  node 0 1 (.function [⟨"x", none⟩]
    (node 7 2 (.index
      (node 3 2 (.array [node 2 2 (.reference "x")]))
      (node 6 2 (.call (node 4 2 (.reference "b")) [node 5 2 (.literal (.int 0))])))))

/-- `fn y -> if a(true) then a(1) else 2`, where `y` is declared in scope 3. -/
def second : Expr :=
  node 8 1 (.function [⟨"y", none⟩]
    (node 17 3 (.conditional
      (node 12 3 (.call (node 10 3 (.reference "a")) [node 11 3 (.literal (.bool true))]))
      (node 15 3 (.call (node 13 3 (.reference "a")) [node 14 3 (.literal (.int 1))]))
      (node 16 3 (.literal (.int 2))))))

/--
The program `a = fn x -> [x][b(0)]` and `b = fn y -> if a(true) then a(1) else 2`.

Inferring `a` first fails, because inside `b` it is called with a `bool` and an
`int`.  Inferring `b` then succeeds, and the type of `a` that it records is
polymorphic.
-/
def operations : List Operation :=
  [.newScope .native,
    .newScope ⟨1⟩, .declareVariable ⟨2⟩ "x" (node 1 2 (.parameter ⟨0⟩ 0)),
    .declareVariable ⟨1⟩ "a" first,
    .newScope ⟨1⟩, .declareVariable ⟨3⟩ "y" (node 9 3 (.parameter ⟨8⟩ 0)),
    .declareVariable ⟨1⟩ "b" second]

end MutualCalls

namespace MutualCalls

/-- The program passes the checks, and inferring it from the start fails. -/
theorem computed :
    (Operation.performAll operations (Environment.empty Options.standard)).map
        (fun env => (decide env.exprIds.Nodup, (checkProgram env).value?.isSome,
          (inferProgram env).value?.isSome, (inferProgram env).final?.isSome)) =
      some (true, true, false, true) := by
  decide +kernel

/-- The environment in which the program is declared. -/
theorem exists_env :
    ∃ env,
      Operation.performAll operations (Environment.empty Options.standard) = some env ∧
        env.exprIds.Nodup ∧
        (∃ program final, checkProgram env = .ok program final) ∧
        ∃ report left, inferProgram env = .error report left := by
  obtain ⟨env, performed, shown⟩ := Option.map_eq_some_iff.mp computed
  simp only [Prod.mk.injEq, decide_eq_true_eq] at shown
  obtain ⟨distinct, isChecked, notInferred, isEnded⟩ := shown
  refine ⟨env, performed, distinct, ?_, ?_⟩
  · obtain ⟨program, hasValue⟩ := Option.isSome_iff_exists.mp isChecked
    exact ⟨program, Outcome.eq_ok_of_value? hasValue⟩
  · cases ended : inferProgram env with
    | ok typed left =>
        rw [ended] at notInferred
        contradiction
    | error report left => exact ⟨report, left, rfl⟩
    | exhausted =>
        rw [ended] at isEnded
        contradiction

end MutualCalls

/-- A program can pass all checks although inferring it from the start fails. -/
theorem checkProgram_hides_error :
    ∃ operations env,
      ((∀ operation ∈ operations, operation.isDeclaration = true) ∧
        Operation.performAll operations (Environment.empty Options.standard) = some env ∧
        env.exprIds.Nodup) ∧
      (∃ program final, checkProgram env = .ok program final) ∧
      ¬ ∃ typed left, inferProgram env = .ok typed left := by
  obtain ⟨env, performed, distinct, checked, report, left, failed⟩ := MutualCalls.exists_env
  refine ⟨MutualCalls.operations, env, ⟨by decide, performed, distinct⟩, checked, ?_⟩
  rintro ⟨typed, other, ended⟩
  rw [failed] at ended
  contradiction

/-- In that program a declaration is skipped. -/
theorem inferProgram_eq_ok_iff_nothing_skipped_mutualCalls :
    ∃ env,
      Operation.performAll MutualCalls.operations (Environment.empty Options.standard) =
          some env ∧
        (∃ program final, checkProgram env = .ok program final) ∧
        ∃ kept after,
          (Environment.inferable env.declared.values.entries :
              Action Report (List (Declaration Expr))) env = .ok kept after ∧
            kept ≠ env.declared.values.entries := by
  obtain ⟨env, performed, _, ⟨program, final, checked⟩, report, left, failed⟩ :=
    MutualCalls.exists_env
  obtain ⟨kept, after, inferred, _, skips⟩ := inferProgram_eq_ok_iff_nothing_skipped checked
  exact ⟨env, performed, ⟨program, final, checked⟩, kept, after, inferred,
    skips.mp ⟨report, left, failed⟩⟩

end ShaderTyping
