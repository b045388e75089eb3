import ShaderTyping.Proofs.Restoration
import ShaderTyping.Proofs.Reachable
import ShaderTyping.Proofs.UntracedRuns

namespace ShaderTyping

/-!
# Tracing only observes

`Operation.respond` is what an operation answers, together with the environment that it leaves.
Two environments that differ only in their traces give the same answers to any sequence of
operations and questions, and differ only in their traces afterwards.  The steps of unification
that are kept are numbered from one on, whatever is aborted or committed meanwhile.
-/

/-! ## Answers -/

/-- What an operation or a question answers. -/
inductive Answer where
  | nothing
  | flag (value : Bool)
  | count (value : Nat)
  | scope (result : Except DeclarationError ScopeId)
  | declaration (result : Except DeclarationError Unit)
  | type (ty : Ty)
  | type? (ty : Option Ty)
  | definition? (found : Option (AliasKey × Ty))
  | expr? (found : Option Expr)
  | length (length : Length)
  | unified (result : Except UnifyError Ty)
  | unifiedLength (result : Except UnifyError Length)
  | inferred (result : Except InferError Ty)
  | inferredDeclaration (result : Except InferError (Option Ty))
  | problems (result : Except Report (List Diagnostic))
  | checked (result : Except Report Unit)
  | program (result : Except Report TypedProgram)
  | all (answers : List Answer)

/-- What a computation answers and leaves, if it comes to an end. -/
def Outcome.respond (answer : Except ε α → Answer) : Outcome ε α → Option (Answer × Environment)
  | .ok value env => some (answer (.ok value), env)
  | .error cause env => some (answer (.error cause), env)
  | .exhausted => none

namespace Operation

mutual

/-- What an operation answers and the environment that it leaves, if it returns. -/
def respond : Operation → Environment → Option (Answer × Environment)
  | .newScope parent, env =>
      some (.scope ((env.declared.newScope parent).map Prod.fst),
        declare env fun declared => (declared.newScope parent).map Prod.snd)
  | .declareType scope name ty, env =>
      some (.declaration ((env.declared.declareType scope name ty).map fun _ => ()),
        declare env fun declared => declared.declareType scope name ty)
  | .declareVariable scope name expr, env =>
      some (.declaration ((env.declared.declareVariable scope name expr).map fun _ => ()),
        declare env fun declared => declared.declareVariable scope name expr)
  | .enableTrace, env => some (.nothing, env.enableTrace)
  | .push, env => some (.nothing, env.push)
  | .commit, env => some (.flag env.commit?.isSome, env.finish true)
  | .abort, env => some (.flag env.abort?.isSome, env.finish false)
  | .transaction body succeeds, env =>
      (respondAll body env.push).map fun response =>
        (.all response.1, response.2.finish succeeds)
  | .freshPlaceholder scope, env =>
      let (ty, final) := Environment.freshPlaceholder scope env
      some (.type ty, final)
  | .freshLength, env =>
      let (length, final) := Environment.freshLength env
      some (.length length, final)
  | .unify left right, env => (ShaderTyping.unify left right env).respond .unified
  | .unifyLength left right, env =>
      (ShaderTyping.unifyLength left right env).respond .unifiedLength
  | .call callee args, env => (ShaderTyping.call callee args env).respond .unified
  | .generalize ty, env =>
      let (ty, final) := Environment.generalize ty env
      some (.type ty, final)
  | .close ty, env =>
      let (ty, final) := Environment.close ty env
      some (.type ty, final)
  | .instantiate ty, env =>
      let (ty, final) := Environment.instantiate ty env
      some (.type ty, final)
  | .infer expr, env => (ShaderTyping.infer expr env).respond .inferred
  | .inferDeclaration scope name, env =>
      (ShaderTyping.inferDeclaration scope name env).respond .inferredDeclaration
  | .validate checker, env =>
      (checker.problems env : Outcome Report (List Diagnostic)).respond .problems
  | .runCheckers pipeline, env => (Checker.run pipeline env).respond .checked
  | .inferProgram, env => (ShaderTyping.inferProgram env).respond .program
  | .checkProgram, env => (ShaderTyping.checkProgram env).respond .program

/-- What operations answer one after the other and the environment that they leave. -/
def respondAll : List Operation → Environment → Option (List Answer × Environment)
  | [], env => some ([], env)
  | operation :: rest, env =>
      (operation.respond env).bind fun response =>
        (respondAll rest response.2).map fun others => (response.1 :: others.1, others.2)

end

end Operation

/-- An answer leaves the environment in which the computation ends. -/
theorem Outcome.map_respond
    (answer : Except ε α → Answer)
    (outcome : Outcome ε α) :
    (outcome.respond answer).map Prod.snd = outcome.final? := by
  cases outcome <;> rfl

namespace Operation

mutual

/-- An operation that responds leaves the environment that performing it leaves. -/
theorem map_respond (operation : Operation) (env : Environment) :
    (operation.respond env).map Prod.snd = operation.perform env := by
  cases operation with
  | transaction body succeeds =>
      rw [respond, perform, ← map_respondAll body, Option.map_map, Option.map_map]
      rfl
  | unify | unifyLength | call | infer | inferDeclaration | validate | runCheckers
  | inferProgram | checkProgram =>
      exact Outcome.map_respond _ _
  | _ => rfl

/-- Answering operations performs them. -/
theorem map_respondAll (operations : List Operation) (env : Environment) :
    (respondAll operations env).map Prod.snd = performAll operations env := by
  cases operations with
  | nil => rfl
  | cons operation rest =>
      rw [respondAll, performAll, ← map_respond operation, Option.map_bind, Option.bind_map]
      congr 1
      funext response
      rw [Function.comp_apply, Option.map_map, Function.comp_apply, ← map_respondAll rest]
      rfl

end

end Operation

/-- A question about an environment, which it leaves as it is. -/
inductive Question where
  | resolve (ty : Ty)
  | expand (ty : Ty)
  | resolveLength (length : Length)
  | occurs (id : PlaceholderId) (ty : Ty)
  | typeOf (id : ExprId)
  | declaredType (scope : ScopeId) (name : String)
  | declaredVariable (scope : ScopeId) (name : String)
  | function (id : ExprId)
  | transactions

/-- What a question is answered. -/
def Question.answer : Question → Environment → Answer
  | .resolve ty, env => .type (env.resolve ty)
  | .expand ty, env => .type (env.expand ty)
  | .resolveLength length, env => .length (env.resolveLength length)
  | .occurs id ty, env => .flag (env.occurs id ty)
  | .typeOf id, env => .type? (env.typeOf? id)
  | .declaredType scope name, env => .definition? (env.definition? scope name)
  | .declaredVariable scope name, env =>
      .expr? ((env.declared.findVariable? scope name).map Prod.snd)
  | .function id, env => .expr? (env.declared.function? id)
  | .transactions, env => .count env.frames.depth

/-! ## Answers do not depend on the trace -/

/-- What was answered and what was left, apart from the trace. -/
def Environment.observed (response : α × Environment) : α × Environment :=
  (response.1, response.2.untraced)

/-- Questions are answered alike without the trace. -/
theorem Question.answer_untraced (question : Question) (env : Environment) :
    question.answer env.untraced = question.answer env := by
  cases question <;> simp [answer]

/-- An outcome is answered alike without the trace. -/
theorem Outcome.respond_untraced
    (answer : Except ε α → Answer)
    (outcome : Outcome ε α) :
    outcome.untraced.respond answer = (outcome.respond answer).map Environment.observed := by
  cases outcome <;> rfl

/-- What ignores the trace is answered alike without it. -/
theorem Action.IgnoresTrace.respond
    {action : Action ε α}
    (ignores : action.IgnoresTrace)
    (answer : Except ε α → Answer)
    (env : Environment) :
    ((action env.untraced).respond answer).map Environment.observed =
      ((action env).respond answer).map Environment.observed := by
  rw [ignores env, Outcome.respond_untraced, Option.map_map]
  rfl

/-- What is observed determines what is observed after going on in a way that ignores the trace. -/
theorem Environment.bind_observed
    {responses others : Option (α × Environment)}
    {next : α × Environment → Option (β × Environment)}
    (ignores :
      ∀ value env,
        (next (value, env)).map observed = (next (value, Environment.untraced env)).map observed)
    (same : responses.map observed = others.map observed) :
    (responses.bind next).map observed = (others.bind next).map observed := by
  have throughObserved (responses : Option (α × Environment)) :
      (responses.bind next).map observed =
        ((responses.map observed).bind next).map observed := by
    cases responses with
    | none => rfl
    | some response => exact ignores response.1 response.2
  rw [throughObserved responses, same, ← throughObserved others]

/-- Answers that are added to equal ones are equal, the traces apart. -/
theorem Environment.map_observed
    {responses others : Option (α × Environment)}
    {change : α × Environment → β × Environment}
    (ignores :
      ∀ value env,
        observed (change (value, env)) = observed (change (value, Environment.untraced env)))
    (same : responses.map observed = others.map observed) :
    (responses.map change).map observed = (others.map change).map observed := by
  have asBind (responses : Option (α × Environment)) :
      responses.map change = responses.bind fun response => some (change response) :=
    Option.map_eq_bind
  rw [asBind, asBind]
  refine bind_observed (fun value env => ?_) same
  exact congrArg some (ignores value env)

namespace Operation

/-- Declaring writes to no trace. -/
theorem untraced_declare
    (env : Environment)
    (change : Declarations → Except DeclarationError Declarations) :
    (declare env.untraced change).untraced = (declare env change).untraced := by
  unfold declare
  rw [env.declared_untraced]
  split <;> rfl

mutual

/-- An operation answers the same without the trace. -/
theorem respond_untraced (operation : Operation) (env : Environment) :
    (operation.respond env.untraced).map Environment.observed =
      (operation.respond env).map Environment.observed := by
  cases operation with
  | newScope | declareType | declareVariable =>
      exact congrArg (fun env => some (_, env)) (untraced_declare env _)
  | enableTrace | push | freshPlaceholder | freshLength => rfl
  | commit =>
      have flag : env.untraced.commit?.isSome = env.commit?.isSome := by
        simp only [Environment.commit?, Environment.frames_untraced, Option.isSome_map]
      rw [respond, respond, flag, env.finish_untraced]
      rfl
  | abort =>
      have flag : env.untraced.abort?.isSome = env.abort?.isSome := by
        simp only [Environment.abort?, Environment.frames_untraced, Option.isSome_map]
      rw [respond, respond, flag, env.finish_untraced]
      rfl
  | transaction body succeeds =>
      refine Environment.map_observed (fun answers inner => ?_) ?_
      · rw [Environment.observed, Environment.observed, inner.finish_untraced]
        rfl
      · exact respondAll_untraced body env.push
  | generalize ty =>
      rw [respond, Environment.generalize_ignoresTrace ty env]
      rfl
  | close ty =>
      rw [respond, Environment.close_ignoresTrace ty env]
      rfl
  | instantiate ty =>
      rw [respond, Environment.instantiate_ignoresTrace ty env]
      rfl
  | unify left right => exact (unify_ignoresTrace left right).respond _ env
  | unifyLength left right => exact (unifyLength_ignoresTrace left right).respond _ env
  | call callee args => exact (call_ignoresTrace callee args).respond _ env
  | infer expr => exact (infer_ignoresTrace expr).respond _ env
  | inferDeclaration scope name =>
      exact (inferDeclaration_ignoresTrace scope name).respond _ env
  | validate checker => exact (Checker.problems_ignoresTrace checker).respond _ env
  | runCheckers pipeline => exact (Checker.runAfter_ignoresTrace [] pipeline).respond _ env
  | inferProgram => exact inferProgram_ignoresTrace.respond _ env
  | checkProgram => exact checkProgram_ignoresTrace.respond _ env

/-- Operations are answered alike without the trace. -/
theorem respondAll_untraced (operations : List Operation) (env : Environment) :
    (respondAll operations env.untraced).map Environment.observed =
      (respondAll operations env).map Environment.observed := by
  cases operations with
  | nil => rfl
  | cons operation rest =>
      rw [respondAll, respondAll]
      refine Environment.bind_observed (fun answer middle => ?_) (respond_untraced operation env)
      exact Environment.map_observed
        (fun _ _ => rfl)
        (respondAll_untraced rest middle).symm

end

end Operation

/-! ## The numbers of the steps -/

/-- The steps of unification are numbered one after the other, starting with one. -/
def Trace.Numbered (trace : Trace) : Prop :=
  trace.unifications.toList.map UnifyStep.number = List.range' 1 trace.unifications.size

namespace Trace

/-- The empty trace is numbered. -/
theorem Numbered.empty : Trace.empty.Numbered :=
  rfl

/-- The next step gets the next number. -/
theorem Numbered.addUnification
    {trace : Trace}
    (numbered : trace.Numbered)
    (event : UnifyEvent)
    (left right : Operand) :
    (trace.addUnification event left right).Numbered := by
  unfold Numbered at numbered ⊢
  simp only [Trace.addUnification, Array.toList_push, Array.size_push, List.map_append, numbered,
    List.range'_1_concat, List.map_cons, List.map_nil, Nat.add_comm]

/-- The steps of one trace are the first ones of a later one, and numbering goes on. -/
structure Continues (trace later : Trace) : Prop where
  steps : trace.unifications.toList <+: later.unifications.toList
  numbered : trace.Numbered → later.Numbered

theorem Continues.refl (trace : Trace) : trace.Continues trace :=
  ⟨List.prefix_rfl, id⟩

theorem Continues.trans
    {trace middle later : Trace}
    (first : trace.Continues middle)
    (second : middle.Continues later) :
    trace.Continues later :=
  ⟨first.steps.trans second.steps, fun numbered => second.numbered (first.numbered numbered)⟩

end Trace

namespace Environment

variable {env final : Environment}

/-- A step of unification continues the trace. -/
theorem continues_traceUnify
    (event : UnifyEvent)
    (left right : Operand)
    (env : Environment) :
    env.trace.Continues (env.traceUnify event left right).trace := by
  refine ⟨(Restored.traceUnify event left right env).unifications, fun numbered => ?_⟩
  unfold traceUnify
  split
  · exact numbered.addUnification event left right
  · exact numbered

/-- A step of inference leaves the steps of unification alone. -/
theorem continues_traceInfer (expr : Expr) (rule : InferRule) (ty : Ty) (env : Environment) :
    env.trace.Continues (env.traceInfer expr rule ty).trace := by
  refine ⟨(Restored.traceInfer expr rule ty env).unifications, fun numbered => ?_⟩
  unfold traceInfer
  split <;> exact numbered

/-- What unification does continues the trace. -/
theorem Binds.continues (step : Binds env final) : env.trace.Continues final.trace := by
  cases step with
  | note event left right => exact continues_traceUnify event left right env
  | placeholder event left right => exact continues_traceUnify event left right env
  | length event left right => exact continues_traceUnify event left right env

/-- A run only adds steps, whatever it commits or aborts, and numbers them on. -/
theorem Run.continues (run : Run env final) : env.trace.Continues final.trace := by
  induction run with
  | refl env => exact .refl env.trace
  | trans _ _ first second => exact first.trans second
  | binds step => exact step.continues
  | fresh => exact .refl _
  | quantify => exact .refl _
  | markGeneric => exact .refl _
  | recordInferred => exact .refl _
  | recordParameter => exact .refl _
  | traceInfer expr rule ty => exact continues_traceInfer expr rule ty _
  | external => exact .refl _
  | transaction keep _ inductionHypothesis =>
      rw [trace_finish]
      exact inductionHypothesis
  | insideFunction _ _ inductionHypothesis => exact inductionHypothesis
  | insideDeclaration _ _ _ inductionHypothesis => exact inductionHypothesis
  | deeper _ inductionHypothesis => exact inductionHypothesis

end Environment

namespace Operation

/-- Declaring leaves the trace as it is. -/
theorem trace_declare
    (env : Environment)
    (change : Declarations → Except DeclarationError Declarations) :
    (declare env change).trace = env.trace := by
  unfold declare
  split <;> rfl

/-- Every operation only adds steps to the trace and numbers them on. -/
theorem Changes.continues
    {env final : Environment}
    (changes : Changes env final) :
    env.trace.Continues final.trace := by
  induction changes with
  | refl env => exact .refl env.trace
  | trans _ _ first second => exact first.trans second
  | newScope | declareType | declareVariable =>
      rw [trace_declare]
      exact .refl _
  | enableTrace | push => exact .refl _
  | finish =>
      rw [Environment.trace_finish]
      exact .refl _
  | run run => exact run.continues

end Operation

/-- In every reachable environment the steps of unification are numbered from one on. -/
theorem Environment.Reachable.numbered
    {env : Environment}
    (reachable : env.Reachable) :
    env.trace.Numbered := by
  obtain ⟨options, operations, performed⟩ := reachable
  exact (Operation.performAll_changes operations performed).continues.numbered .empty

/--
Operations on two environments that are the same up to the trace come to an end in both or in
neither, give the same answers, leave environments that are the same up to the trace, and these
give the same answers to every question.  The trace only grows, and its steps of unification are
numbered from one on without gaps.
-/
theorem tracing_only_observes
    (operations : List Operation)
    {env other : Environment}
    (same : env.untraced = other.untraced) :
    (Operation.respondAll operations env).map Environment.observed =
        (Operation.respondAll operations other).map Environment.observed ∧
      ∀ answers final, Operation.respondAll operations env = some (answers, final) →
        (∃ otherFinal,
          Operation.respondAll operations other = some (answers, otherFinal) ∧
            final.untraced = otherFinal.untraced ∧
            ∀ question : Question, question.answer final = question.answer otherFinal) ∧
          env.trace.unifications.toList <+: final.trace.unifications.toList ∧
          (env.Reachable → final.trace.Numbered) := by
  have observed :
      (Operation.respondAll operations env).map Environment.observed =
        (Operation.respondAll operations other).map Environment.observed := by
    rw [← Operation.respondAll_untraced operations env, same,
      Operation.respondAll_untraced operations other]
  refine ⟨observed, fun answers final responded => ⟨?_, ?_⟩⟩
  · rw [responded, Option.map_some, eq_comm, Option.map_eq_some_iff] at observed
    obtain ⟨⟨otherAnswers, otherFinal⟩, otherResponded, sameResponse⟩ := observed
    simp only [Environment.observed, Prod.mk.injEq] at sameResponse
    obtain ⟨sameAnswers, sameFinal⟩ := sameResponse
    refine ⟨otherFinal, ?_, sameFinal.symm, fun question => ?_⟩
    · rw [otherResponded, sameAnswers]
    · rw [← question.answer_untraced final, ← sameFinal, question.answer_untraced otherFinal]
  · have performed : Operation.performAll operations env = some final := by
      rw [← Operation.map_respondAll, responded, Option.map_some]
    have continues := (Operation.performAll_changes operations performed).continues
    exact ⟨continues.steps, fun reachable => continues.numbered reachable.numbered⟩

/--
Two unifications, the first of which is undone, are steps one and two of a trace, and are answered
as they are without a trace.
-/
theorem tracing_only_observes_aborted :
    ∃ answers final otherFinal,
      Operation.respondAll
          [.push, .unify (.placeholder .native ⟨0⟩) Ty.int, .abort,
            .transaction [.unify (.placeholder .native ⟨0⟩) Ty.float] true]
          (Environment.empty ⟨512, true⟩) = some (answers, final) ∧
        Operation.respondAll
          [.push, .unify (.placeholder .native ⟨0⟩) Ty.int, .abort,
            .transaction [.unify (.placeholder .native ⟨0⟩) Ty.float] true]
          (Environment.empty ⟨512, false⟩) = some (answers, otherFinal) ∧
        final.trace.unifications.toList.map UnifyStep.number = [1, 2] ∧
        final.trace.Numbered ∧
        final.binding? ⟨0⟩ = some Ty.float ∧
        otherFinal.trace.unifications.size = 0 ∧
        final.untraced = otherFinal.untraced := by
  have computed :
      (Operation.respondAll
          [.push, .unify (.placeholder .native ⟨0⟩) Ty.int, .abort,
            .transaction [.unify (.placeholder .native ⟨0⟩) Ty.float] true]
          (Environment.empty ⟨512, true⟩)).map
          (fun response =>
            (response.2.trace.unifications.toList.map UnifyStep.number,
              response.2.binding? ⟨0⟩)) =
        some ([1, 2], some Ty.float) := by
    decide +kernel
  have otherComputed :
      (Operation.respondAll
          [.push, .unify (.placeholder .native ⟨0⟩) Ty.int, .abort,
            .transaction [.unify (.placeholder .native ⟨0⟩) Ty.float] true]
          (Environment.empty ⟨512, false⟩)).map
          (fun response => response.2.trace.unifications.size) =
        some 0 := by
    decide +kernel
  obtain ⟨⟨answers, final⟩, responded, shown⟩ := Option.map_eq_some_iff.mp computed
  simp only [Prod.mk.injEq] at shown
  obtain ⟨numbers, bound⟩ := shown
  have same : (Environment.empty ⟨512, true⟩).untraced = (Environment.empty ⟨512, false⟩).untraced :=
    rfl
  obtain ⟨⟨otherFinal, otherResponded, sameFinal, _⟩, _, numbered⟩ :=
    (tracing_only_observes _ same).2 answers final responded
  rw [otherResponded, Option.map_some, Option.some.injEq] at otherComputed
  exact
    ⟨answers, final, otherFinal, responded, otherResponded, numbers,
      numbered ⟨⟨512, true⟩, [], rfl⟩, bound, otherComputed, sameFinal⟩

end ShaderTyping
