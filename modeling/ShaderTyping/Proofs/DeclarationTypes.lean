import ShaderTyping.Proofs.Agreement
import ShaderTyping.Proofs.KnownTypes
import ShaderTyping.Proofs.TypedPrograms

namespace ShaderTyping

/-!
# Types of declarations and of their expressions

When a declaration has its turn, the type of its expression is recorded, unified with
the provisional type that the name had meanwhile, and generalized.  So the declared
type is what the provisional type and the type of the expression agree on; the two
differ if the declaration was used in its own expression.  Bindings that are made
later refine both, and the record stays if the type was known.
-/

open Environment (Run KeepsKnown)

namespace Inference

variable {env final : Environment} {expr : Expr} {ty : Ty}

/-- The type of an attempt is recorded when the transaction is over. -/
theorem attempted_records
    {rule : Expr → Action InferError (InferRule × Ty)}
    {previous : Option Ty}
    (ended : attempted rule expr previous env = .ok ty final) :
    final.frames.inferred? expr.id = some ty := by
  obtain ⟨⟨name, found⟩, closed, transacted, traced⟩ := Action.bind_eq_ok.mp ended
  obtain ⟨_, _, isTraced, isValue⟩ := Action.bind_eq_ok.mp traced
  cases isTraced
  cases isValue
  obtain ⟨inner, inside, rfl⟩ := Action.transaction_eq_ok.mp transacted
  obtain ⟨⟨_, _⟩, left, _, recording⟩ := Action.bind_eq_ok.mp inside
  obtain ⟨_, _, isRecorded, isValue⟩ := Action.bind_eq_ok.mp recording
  cases isRecorded
  cases isValue
  rw [Environment.frames_traceInfer, Environment.inferred?_commit]
  exact (FrameStack.inferred?_recordInferred expr.id ty left.frames expr.id).trans (if_pos rfl)

/-- What inference with a memory returns is recorded. -/
theorem memoized_records
    {rule : Expr → Action InferError (InferRule × Ty)}
    (ended : memoized rule expr env = .ok ty final) :
    final.frames.inferred? expr.id = some ty := by
  rcases memoized_eq_ok ended with ⟨recorded, _, rfl⟩ | attempted
  · exact recorded
  · exact attempted_records attempted

/-- What inference in any number of levels returns is recorded. -/
theorem within_records
    {levels : Nat}
    (ended : within levels expr env = .ok ty final) :
    final.frames.inferred? expr.id = some ty := by
  cases levels with
  | zero => exact memoized_records ended
  | succ levels => exact memoized_records ended

end Inference

/-- The type that inference gives to an expression is recorded. -/
theorem infer_records
    {env final : Environment}
    {expr : Expr}
    {ty : Ty}
    (ended : infer expr env = .ok ty final) :
    final.frames.inferred? expr.id = some ty := by
  obtain ⟨_, _, isRead, remaining⟩ := Action.bind_eq_ok.mp ended
  cases isRead
  exact Inference.within_records remaining

/-! ## Unification with an unbound placeholder -/

namespace Unification

variable {env final : Environment} {scope : ScopeId} {id : PlaceholderId} {ty result : Ty}

/-- A placeholder is bound to where a known type is followed to. -/
theorem binding?_of_bind
    (isKnown : env.isUnbound ty = false)
    (ended : bind scope id ty env = .ok result final) :
    final.binding? id = some (env.follow ty) := by
  obtain ⟨_, _, isRead, remaining⟩ := Action.bind_eq_ok.mp ended
  cases isRead
  split at remaining
  · rename_i isPlaceholder
    rw [Environment.isUnbound, isPlaceholder] at isKnown
    contradiction
  · split at remaining
    · obtain ⟨_, _, _, failing⟩ := Action.bind_eq_ok.mp remaining
      cases failing
    · obtain ⟨_, noted, _, updating⟩ := Action.bind_eq_ok.mp remaining
      obtain ⟨_, _, isBound, isValue⟩ := Action.bind_eq_ok.mp updating
      cases isBound
      cases isValue
      exact Environment.binding?_bindPlaceholder noted id _

/-- Unifying an unbound placeholder with a known type binds it to where the type is followed to. -/
theorem binding?_of_within
    (consistent : env.frames.Consistent)
    (unbound : env.binding? id = none)
    (isKnown : env.isUnbound ty = false)
    {steps : Nat}
    (ended : within steps (.placeholder scope id) ty env = .ok result final) :
    final.binding? id = some (env.follow ty) := by
  cases steps with
  | zero => cases ended
  | succ steps =>
      have isOther : Ty.placeholder scope id ≠ ty := by
        rintro rfl
        rw [Environment.isUnbound, Environment.follow_placeholder consistent, unbound] at isKnown
        contradiction
      rw [within, step, if_neg isOther] at ended
      obtain ⟨_, _, isRead, binding⟩ := Action.bind_eq_ok.mp ended
      cases isRead
      rw [unbound] at binding
      exact binding?_of_bind isKnown binding

end Unification

/-- Unifying an unbound placeholder with a type that is known binds it to that type. -/
theorem binding?_of_unify
    {env final : Environment}
    {scope : ScopeId}
    {id : PlaceholderId}
    {ty result : Ty}
    (consistent : env.frames.Consistent)
    (unbound : env.binding? id = none)
    (isKnown : env.isUnbound ty = false)
    (unified : unify (.placeholder scope id) ty env = .ok result final) :
    final.binding? id = some (env.follow ty) := by
  unfold unify Action.orElse at unified
  split at unified
  · rename_i isOk
    cases unified
    exact Unification.binding?_of_within consistent unbound isKnown isOk
  · cases unified
  · exact Unification.binding?_of_within consistent unbound isKnown unified

/-! ## The turn of a declaration -/

namespace Environment

/-- The provisional type of a declaration that is inferred next. -/
def provisional (env : Environment) (scope : ScopeId) : Ty :=
  .placeholder scope ⟨env.fresh.placeholder⟩

/-- The environment in which the expression of a declared variable is inferred. -/
def begun (env : Environment) (scope : ScopeId) (name : String) : Environment :=
  { env with
    fresh.placeholder := env.fresh.placeholder + 1
    context.inProgress := ((scope, name), env.provisional scope) :: env.context.inProgress }

/-- The environment in which a declared variable is no longer in progress. -/
def ended (env : Environment) (scope : ScopeId) (name : String) : Environment :=
  { env with
    context.inProgress := env.context.inProgress.filter fun entry => entry.1 != (scope, name) }

/--
A declared variable has its turn: its expression gets a type, and what that type and
the provisional one agree on is generalized.
-/
structure Turn
    (start : Environment)
    (declaration : Declaration Expr)
    (ty : Ty)
    (after : Environment)
    (result : Ty)
    (final : Environment) : Prop where
  inferred :
    infer declaration.value (start.begun declaration.scope declaration.name) = .ok ty after
  generalized :
    ∃ agreed unified,
      unify (start.provisional declaration.scope) ty after = .ok agreed unified ∧
        generalize agreed (unified.ended declaration.scope declaration.name) = (result, final)

end Environment

section

variable {start after final : Environment} {declaration : Declaration Expr} {ty result : Ty}

/-- A declaration has its turn when it is inferred while no other one is in progress. -/
theorem exists_turn_of_inferDeclaration
    (idle : start.context.inProgress = [])
    (member : declaration ∈ start.declared.values.entries)
    (ended :
      inferDeclaration declaration.scope declaration.name start = .ok (some result) final) :
    ∃ ty after, start.Turn declaration ty after result final := by
  obtain ⟨_, _, isRead, remaining⟩ := Action.bind_eq_ok.mp ended
  cases isRead
  rw [DeclarationTable.local?_of_mem member] at remaining
  obtain ⟨_, _, inferring, isResult⟩ := Action.bind_eq_ok.mp remaining
  cases isResult
  obtain ⟨_, _, isRead, remaining⟩ := Action.bind_eq_ok.mp inferring
  cases isRead
  rw [idle] at remaining
  obtain ⟨_, _, isFresh, remaining⟩ := Action.bind_eq_ok.mp remaining
  cases isFresh
  obtain ⟨agreed, _, inside, isGeneralized⟩ := Action.bind_eq_ok.mp remaining
  obtain ⟨unified, inferringValue, rfl⟩ := Action.between_eq_ok.mp inside
  obtain ⟨ty, after, inferred, unifying⟩ := Action.bind_eq_ok.mp inferringValue
  obtain ⟨sameResult, sameFinal⟩ := Outcome.ok.inj isGeneralized
  exact ⟨ty, after, inferred, agreed, unified, Action.mapError_eq_ok.mp unifying,
    Prod.ext sameResult sameFinal⟩

namespace Environment.Turn

/--
After the expression of a declaration the environment is proper, and the type is in label order.
-/
theorem proper_after
    (proper : start.Proper)
    (member : declaration ∈ start.declared.values.entries)
    (turn : start.Turn declaration ty after result final) :
    after.Proper ∧ ty.Ordered := by
  have satisfied :
      (start.begun declaration.scope declaration.name).Satisfies .ordered :=
    ⟨proper.ordered.declared, proper.ordered.frames,
      List.forall_mem_cons.mpr ⟨.placeholder _ _, proper.ordered.inProgress⟩⟩
  have keeps := infer_keeps (proper.ordered.declared.values declaration member) _ satisfied
  rw [turn.inferred] at keeps
  have run := (infer_run declaration.value _).of_eq_ok turn.inferred
  exact ⟨⟨run.consistent proper.consistent, keeps.1⟩, keeps.2⟩

/-- Generalizing after the turn keeps all bindings. -/
theorem grows_generalize
    (consistent : after.frames.Consistent)
    (ty : Ty)
    (scope : ScopeId)
    (name : String) :
    after.Grows (generalize ty (after.ended scope name)).2 := by
  have unchanged : after.Grows (after.ended scope name) := .of_frames rfl rfl
  exact unchanged.trans ((generalize_run ty (after.ended scope name)).run.grows consistent)

/-- After the turn, the provisional type and the type of the expression agree on the result. -/
theorem agrees
    (proper : start.Proper)
    (member : declaration ∈ start.declared.values.entries)
    (turn : start.Turn declaration ty after result final) :
    final.Agrees (start.provisional declaration.scope) ty result := by
  obtain ⟨agreed, unified, isUnified, isGeneralized⟩ := turn.generalized
  obtain ⟨afterProper, ordered⟩ := turn.proper_after proper member
  have unifies := unify_sound afterProper (.placeholder _ _) ordered _ _ isUnified
  have consistent := unifies.advances.proper.consistent
  obtain ⟨rfl, rfl⟩ := Prod.ext_iff.mp isGeneralized
  intro later grows laterConsistent acyclic
  have atEnd : (unified.ended declaration.scope declaration.name).frames.Consistent := consistent
  rw [expand_generalize atEnd grows laterConsistent acyclic]
  exact unifies.agrees later ((grows_generalize consistent agreed _ _).trans grows)
    laterConsistent acyclic

/-- After the turn, the type of the expression is still known if it was. -/
theorem known
    (consistent : after.frames.Consistent)
    (turn : start.Turn declaration ty after result final)
    (isKnown : after.isUnbound ty = false) :
    final.KnownType declaration.value.id ty := by
  obtain ⟨agreed, unified, isUnified, isGeneralized⟩ := turn.generalized
  obtain ⟨rfl, rfl⟩ := Prod.ext_iff.mp isGeneralized
  have unifies : KeepsKnown declaration.value.id ty after unified :=
    .of_quiet (.of_binds ((unify_binds _ _ _).of_eq_ok isUnified))
  have consistentThen := unifies.run.consistent consistent
  have knownThen := unifies.known consistent ⟨infer_records turn.inferred, isKnown⟩
  have knownAtEnd :
      (unified.ended declaration.scope declaration.name).KnownType declaration.value.id ty :=
    knownThen.of_frames consistentThen rfl rfl
  exact (KeepsKnown.of_quiet (generalize_run _ _)).known consistentThen knownAtEnd

/--
If the provisional type is open when the expression has its type, the two expand to
the same from then on.
-/
theorem expand_provisional
    (consistent : after.frames.Consistent)
    (turn : start.Turn declaration ty after result final)
    (isKnown : after.isUnbound ty = false)
    (isOpen : after.binding? ⟨start.fresh.placeholder⟩ = none)
    {later : Environment}
    (grows : final.Grows later)
    (acyclic : later.Acyclic) :
    later.expand (start.provisional declaration.scope) = later.expand ty := by
  obtain ⟨agreed, unified, isUnified, isGeneralized⟩ := turn.generalized
  obtain ⟨rfl, rfl⟩ := Prod.ext_iff.mp isGeneralized
  have run := (unify_run _ _ _).of_eq_ok isUnified
  have fromUnified : unified.Grows later :=
    (grows_generalize (run.consistent consistent) agreed _ _).trans grows
  have stands :
      later.standsFor? (start.provisional declaration.scope) = some (after.follow ty) :=
    fromUnified.bindings (binding?_of_unify consistent isOpen isKnown isUnified)
  rw [expand_of_standsFor? acyclic stands]
  exact ((run.grows consistent).trans fromUnified).expand_follow acyclic ty

/-- What the turn has made of the types of a declaration lasts. -/
theorem lasts
    (proper : start.Proper)
    (acyclic : start.Acyclic)
    (member : declaration ∈ start.declared.values.entries)
    (turn : start.Turn declaration ty after result final)
    (isKnown : after.isUnbound ty = false)
    {later : Environment}
    (run : Run start final)
    (keeps : KeepsKnown declaration.value.id ty final later) :
    later.expandedType? declaration.value.id = some (later.expand ty) ∧
      (later.expand (start.provisional declaration.scope)).meet? (later.expand ty) =
        some (later.expand result) ∧
      (after.binding? ⟨start.fresh.placeholder⟩ = none →
        later.expand result = later.expand ty) := by
  have consistent := run.consistent proper.consistent
  have laterConsistent := keeps.run.consistent consistent
  have laterAcyclic :=
    keeps.run.acyclic consistent (run.acyclic proper.consistent acyclic)
  have grows := keeps.run.grows consistent
  have afterConsistent := (turn.proper_after proper member).1.consistent
  have agreed := (turn.agrees proper member later grows laterConsistent laterAcyclic).1
  refine ⟨?_, agreed, fun isOpen => ?_⟩
  · have known := keeps.known consistent (turn.known afterConsistent isKnown)
    exact known.expandedType?_eq laterConsistent laterAcyclic
  · rw [turn.expand_provisional afterConsistent isKnown isOpen grows laterAcyclic,
      Ty.meet?_self, Option.some.injEq] at agreed
    exact agreed.symm

end Environment.Turn

end

/-! ## Programs -/

namespace Program

/-- An entry of the result was inferred when its declaration had its turn. -/
theorem foldlM_inferNext_split
    {declarations : List (Declaration Expr)}
    {progress result : Progress}
    {env after : Environment}
    (folded : (declarations.foldlM inferNext progress : Action ε Progress) env = .ok result after)
    (noErrors : result.errors = [])
    {entry : TypedDeclaration}
    (isTyped : entry ∈ result.typed)
    (isNew : entry ∉ progress.typed) :
    ∃ earlier declaration later before next start middle,
      declarations = earlier ++ declaration :: later ∧
        (earlier.foldlM inferNext progress : Action ε Progress) env = .ok before start ∧
        inferDeclaration declaration.scope declaration.name start = .ok (some entry.ty) middle ∧
        (later.foldlM inferNext next : Action ε Progress) middle = .ok result after ∧
        entry.subject = declaration.subject := by
  induction declarations generalizing env progress with
  | nil =>
      cases folded
      contradiction
  | cons declaration rest inductionHypothesis =>
      rw [List.foldlM_cons] at folded
      obtain ⟨next, middle, stepped, remaining⟩ := Action.bind_eq_ok.mp folded
      obtain ⟨_, found, inferred, extended⟩ :=
        inferNext_typed stepped (foldlM_inferNext_errors remaining noErrors)
      by_cases isTypedNow : entry ∈ next.typed
      · rw [extended, List.mem_append, Option.mem_toList, Option.map_eq_some_iff] at isTypedNow
        obtain ⟨ty, rfl, rfl⟩ := isTypedNow.resolve_left isNew
        exact ⟨[], declaration, rest, progress, next, env, middle, rfl, rfl, inferred, remaining,
          rfl⟩
      · obtain ⟨earlier, other, later, before, following, start, left, isSplit, folds, hasTurn,
          continues, sameSubject⟩ := inductionHypothesis remaining isTypedNow
        refine ⟨declaration :: earlier, other, later, before, following, start, left, ?_, ?_,
          hasTurn, continues, sameSubject⟩
        · rw [isSplit, List.cons_append]
        · rw [List.foldlM_cons]
          exact Action.bind_eq_ok.mpr ⟨next, middle, stepped, folds⟩

end Program

/-- A program that is inferred without an error has gone through its variables in order. -/
theorem exists_foldlM_of_inferProgram
    {env final : Environment}
    {program : TypedProgram}
    (ended : inferProgram env = .ok program final) :
    ∃ progress,
      ((Program.userVariables env).foldlM Program.inferNext ⟨[], []⟩ :
          Action Report Program.Progress) env = .ok progress final ∧
        progress.errors = [] ∧
        program.declarations = progress.typed.map fun entry =>
          { entry with ty := final.resolve entry.ty } := by
  obtain ⟨_, _, isRead, remaining⟩ := Action.bind_eq_ok.mp ended
  cases isRead
  obtain ⟨progress, after, folded, classified⟩ := Action.bind_eq_ok.mp remaining
  split at classified
  · rename_i noErrors
    cases classified
    exact ⟨progress, folded, List.isEmpty_iff.mp noErrors, rfl⟩
  · cases classified

/--
In an inferred program, the type of a declared variable and the type of its expression
expand to what the turn of the variable has made of them.

If anything is known about the type of the expression then, the declared type is what
it and the provisional type agree on; it is the type of the expression if the
provisional type is still open.
-/
theorem declared_types_agree_with_expressions
    {options : Options}
    {operations : List Operation}
    (declares : ∀ operation ∈ operations, operation.isDeclaration = true)
    (ordered : Operation.TakeAll .ordered operations)
    {env : Environment}
    (performed : Operation.performAll operations (.empty options) = some env)
    (acyclic : env.Acyclic)
    {program : TypedProgram}
    {final : Environment}
    (inferred : inferProgram env = .ok program final)
    {entry : TypedDeclaration}
    (isEntry : entry ∈ program.declarations) :
    ∃ earlier declaration later before start ty after,
      (Program.userVariables env = earlier ++ declaration :: later ∧
        entry.subject = declaration.subject) ∧
      (earlier.foldlM Program.inferNext ⟨[], []⟩ : Action Report Program.Progress) env =
        .ok before start ∧
      infer declaration.value (start.begun declaration.scope declaration.name) = .ok ty after ∧
      (after.isUnbound ty = false →
        ∃ typed,
          final.expandedType? entry.expr = some typed ∧
            (final.expand (start.provisional entry.scope)).meet? typed =
              some (final.expand entry.ty) ∧
            (after.binding? ⟨start.fresh.placeholder⟩ = none →
              final.expand entry.ty = typed)) := by
  have isDeclared := Environment.declared_of_operations declares performed
  have satisfied := Operation.performAll_satisfies operations ordered performed (.empty _ options)
  obtain ⟨progress, folded, noErrors, isProgram⟩ := exists_foldlM_of_inferProgram inferred
  rw [isProgram] at isEntry
  obtain ⟨typed, isTyped, rfl⟩ := List.mem_map.mp isEntry
  obtain ⟨earlier, declaration, later, before, next, start, middle, isSplit, folds, hasTurn,
    continues, sameSubject⟩ :=
    Program.foldlM_inferNext_split folded noErrors isTyped List.not_mem_nil
  have startRun : Run env start :=
    (Program.foldlM_inferNext_obeys inferDeclaration_run _ _ _).of_eq_ok folds
  have restored := Environment.Restored.of_run startRun
  have member : declaration ∈ start.declared.values.entries := by
    rw [restored.declared]
    refine (List.mem_filter.mp (?_ : declaration ∈ Program.userVariables env)).1
    simp [isSplit]
  have idle : start.context.inProgress = [] := by
    rw [restored.inProgress, isDeclared.context]
    rfl
  have proper : start.Proper := by
    have keeps := Program.foldlM_inferNext_keeps (ε := Report) earlier env satisfied
    rw [folds] at keeps
    exact ⟨startRun.consistent isDeclared.consistent, keeps.1⟩
  have startAcyclic := startRun.acyclic isDeclared.consistent acyclic
  obtain ⟨ty, after, turn⟩ := exists_turn_of_inferDeclaration idle member hasTurn
  have turnRun := (inferDeclaration_run _ _ start).of_eq_ok hasTurn
  have keeps : KeepsKnown declaration.value.id ty middle final :=
    (Program.foldlM_inferNext_obeys inferDeclaration_keepsKnown _ _ _).of_eq_ok continues
  have middleConsistent := turnRun.consistent proper.consistent
  have finalConsistent := keeps.run.consistent middleConsistent
  have finalAcyclic :=
    keeps.run.acyclic middleConsistent (turnRun.acyclic proper.consistent startAcyclic)
  obtain ⟨sameScope, -, sameExpr⟩ :
      typed.scope = declaration.scope ∧ typed.name = declaration.name ∧
        typed.expr = declaration.value.id := by
    simpa [TypedDeclaration.subject, Declaration.subject] using sameSubject
  refine ⟨earlier, declaration, later, before, start, ty, after, ⟨isSplit, sameSubject⟩, folds,
    turn.inferred, fun isKnown => ⟨final.expand ty, ?_⟩⟩
  dsimp only
  rw [sameScope, sameExpr,
    (Environment.Grows.refl final).expand_resolve finalConsistent finalConsistent finalAcyclic]
  exact turn.lasts proper startAcyclic member isKnown turnRun keeps

/-! ## A declaration that is used in its own expression -/

namespace SelfReference

open MutualCalls (node)

/-- A struct with a field of its own. -/
def struct : Expr :=
  node 0 1 (.struct
    [("a", node 1 1 (.literal (.int 1))),
      ("b", node 2 1 (.field (node 3 1 (.reference "s")) "a"))])

/-- A use of an attribute with a type that is written by its name. -/
def outside : Expr :=
  node 4 1 (.external .attribute "p" (some (.named ⟨1⟩ "V")))

/--
The program `V = float[2]`, `s = {a: 1, b: s.a}` and `v = attribute p : V`.

Inside its expression `s` has a field `a`, and that is all that the provisional type and
the type of the expression share.
-/
def operations : List Operation :=
  [.newScope .native, .declareType ⟨1⟩ "V" (.array Ty.float (.known 2)),
    .declareVariable ⟨1⟩ "s" struct, .declareVariable ⟨1⟩ "v" outside]

/-- All types in the program list their fields in label order. -/
theorem ordered : Operation.TakeAll .ordered operations := by
  have structOrdered : Ty.Invariant.ordered.holdsExpr struct := by
    simp [Ty.Invariant.holdsExpr, struct, node, Expr.nodes_eq, Form.children, Expr.form,
      Ty.Invariant.holdsForm]
  have outsideOrdered : Ty.Invariant.ordered.holdsExpr outside := by
    have named : Ty.Invariant.ordered.holds (.named ⟨1⟩ "V") := Ty.Ordered.named _ _
    simpa [Ty.Invariant.holdsExpr, outside, node, Expr.nodes_eq, Form.children, Expr.form,
      Ty.Invariant.holdsForm] using named
  exact ⟨trivial, .array _ (.primitive _), structOrdered, outsideOrdered, trivial⟩

/-- The variables of the program. -/
theorem userVariables :
    (Operation.performAll operations (.empty Options.standard)).map Program.userVariables =
      some [⟨⟨1⟩, "s", struct⟩, ⟨⟨1⟩, "v", outside⟩] :=
  rfl

/-- The entries of the inferred program and the types of their expressions. -/
theorem computed :
    ((Operation.performAll operations (.empty Options.standard)).map fun env =>
        (decide (env.exprIds.Nodup ∧ env.aliasProblems = []),
          (inferProgram env).value?.map TypedProgram.declarations,
          (inferProgram env).final?.map fun final =>
            [struct, outside].map fun expr => final.expandedType? expr.id)) =
      some (true,
        some
          [⟨⟨1⟩, "s", ⟨0⟩, .struct [("a", Ty.int)]⟩,
            ⟨⟨1⟩, "v", ⟨4⟩, .array Ty.float (.known 2)⟩],
        some
          [some (.struct [("a", Ty.int), ("b", Ty.int)]),
            some (.array Ty.float (.known 2))]) := by
  decide +kernel

/-- What is known of the type of `v` and of its provisional type when `v` has its turn. -/
theorem turn :
    ((Operation.performAll operations (.empty Options.standard)).map fun env =>
        match (Program.inferNext ⟨[], []⟩ ⟨⟨1⟩, "s", struct⟩ :
          Action Report Program.Progress) env with
        | .ok _ start =>
            match infer outside (start.begun ⟨1⟩ "v") with
            | .ok ty after =>
                decide (after.isUnbound ty = false ∧
                  after.binding? ⟨start.fresh.placeholder⟩ = none)
            | _ => false
        | _ => false) =
      some true := by
  decide +kernel

end SelfReference

/-- The type of a declared variable can differ from the expanded type of its expression. -/
theorem declared_type_differs_from_expression :
    ∃ operations env program final entry,
      ((∀ operation ∈ operations, operation.isDeclaration = true) ∧
        Operation.performAll operations (.empty Options.standard) = some env ∧
        env.exprIds.Nodup) ∧
      inferProgram env = .ok program final ∧
      entry ∈ program.declarations ∧
      final.expandedType? entry.expr ≠ some entry.ty := by
  obtain ⟨env, performed, shown⟩ := Option.map_eq_some_iff.mp SelfReference.computed
  simp only [Prod.mk.injEq, decide_eq_true_eq] at shown
  obtain ⟨⟨distinct, _⟩, entries, types⟩ := shown
  obtain ⟨program, isProgram, isEntries⟩ := Option.map_eq_some_iff.mp entries
  obtain ⟨final, inferred⟩ := Outcome.eq_ok_of_value? isProgram
  rw [inferred] at types
  simp only [Outcome.final?, Option.map_some, List.map_cons, Option.some.injEq,
    List.cons.injEq] at types
  refine ⟨SelfReference.operations, env, program, final,
    ⟨⟨1⟩, "s", ⟨0⟩, .struct [("a", Ty.int)]⟩, ⟨by decide, performed, distinct⟩, inferred, ?_, ?_⟩
  · rw [isEntries]
    exact List.mem_cons_self
  · change final.expandedType? SelfReference.struct.id ≠ _
    rw [types.1]
    decide

/-- In that program the other declared type is the expanded type of its expression. -/
theorem declared_types_agree_with_expressions_attribute :
    ∃ env program final entry,
      Operation.performAll SelfReference.operations (.empty Options.standard) = some env ∧
        env.Acyclic ∧
        inferProgram env = .ok program final ∧
        entry ∈ program.declarations ∧
        entry.expr = SelfReference.outside.id ∧
        final.expandedType? entry.expr = some (final.expand entry.ty) := by
  obtain ⟨env, performed, shown⟩ := Option.map_eq_some_iff.mp SelfReference.computed
  simp only [Prod.mk.injEq, decide_eq_true_eq] at shown
  obtain ⟨⟨_, aliases⟩, entries, _⟩ := shown
  obtain ⟨program, isProgram, isEntries⟩ := Option.map_eq_some_iff.mp entries
  obtain ⟨final, inferred⟩ := Outcome.eq_ok_of_value? isProgram
  have declares : ∀ operation ∈ SelfReference.operations, operation.isDeclaration = true := by
    decide
  have acyclic := (Environment.declared_of_operations declares performed).acyclic aliases
  have isEntry :
      ⟨⟨1⟩, "v", ⟨4⟩, .array Ty.float (.known 2)⟩ ∈ program.declarations := by
    simp [isEntries]
  obtain ⟨earlier, declaration, later, before, start, ty, after, ⟨isSplit, subject⟩, folds,
    typed, known⟩ :=
    declared_types_agree_with_expressions declares SelfReference.ordered performed acyclic
      inferred isEntry
  have isVariables := SelfReference.userVariables
  rw [performed, Option.map_some, Option.some.injEq] at isVariables
  rw [isVariables] at isSplit
  -- The variable is the second one, so `s` has its turn before.
  obtain ⟨rfl, rfl⟩ :
      earlier = [⟨⟨1⟩, "s", SelfReference.struct⟩] ∧
        declaration = ⟨⟨1⟩, "v", SelfReference.outside⟩ := by
    rcases earlier with _ | ⟨first, _ | ⟨second, rest⟩⟩
    · simp only [List.nil_append, List.cons.injEq] at isSplit
      rw [← isSplit.1] at subject
      exact absurd subject (by decide)
    · simp only [List.cons_append, List.nil_append, List.cons.injEq] at isSplit
      exact ⟨by rw [isSplit.1], isSplit.2.1.symm⟩
    · simp at isSplit
  obtain ⟨_, _, stepped, isDone⟩ := Action.bind_eq_ok.mp folds
  cases isDone
  have turn := SelfReference.turn
  rw [performed, Option.map_some, stepped] at turn
  dsimp only at turn typed
  rw [typed] at turn
  simp only [Option.some.injEq, decide_eq_true_eq] at turn
  obtain ⟨expanded, isType, _, same⟩ := known turn.1
  refine ⟨env, program, final, _, performed, acyclic, inferred, isEntry, rfl, ?_⟩
  rw [isType, same turn.2]

end ShaderTyping
