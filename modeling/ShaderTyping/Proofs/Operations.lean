import ShaderTyping.Proofs.Run

namespace ShaderTyping

/-!
# Every operation is a run

Unification makes only the changes of `Environment.Binds`, one after the other;
calls, generalization, instantiation, inference and the checks of a program make
only the changes of `Environment.Run`.  This holds whether an operation succeeds
or fails, from any environment and for any types and expressions.
-/

open ShaderTyping.Action (Obeys)
open Environment (Binds Run)
open Relation (ReflTransGen)

/-! ## Unification -/

namespace Unification

variable {env : Environment}

/-- Writing down a step of unification only adds to the trace. -/
theorem note_binds (event : UnifyEvent) (left right : Ty) :
    Obeys (ReflTransGen Binds) (note event left right : Action ε Unit) env :=
  .update (.single (.note event _ _))

/-- Reporting a mismatch only adds to the trace. -/
theorem mismatch_binds (left right : Ty) :
    Obeys (ReflTransGen Binds) (mismatch left right : Action UnifyError α) env :=
  .bind (note_binds _ _ _) fun _ => .bind_environment (.fail _)

/-- Looking up what a reference stands for binds nothing. -/
theorem definition_binds (reference other : Ty) :
    Obeys (ReflTransGen Binds) (definition reference other) env := by
  refine .bind_environment ?_
  split
  · split
    · exact .fail _
    · exact mismatch_binds _ _
  · exact .pure _

/-- An unbound placeholder is bound only after the occurs check. -/
theorem bind_binds
    {id : PlaceholderId}
    (unbound : env.binding? id = none)
    (scope : ScopeId)
    (other : Ty) :
    Obeys (ReflTransGen Binds) (bind scope id other) env := by
  refine .bind_environment ?_
  dsimp only
  split
  · exact .pure _
  · cases notFound : env.occurs id (env.follow other) with
    | true =>
        rw [if_pos rfl]
        exact .bind (note_binds _ _ _) fun _ => .fail _
    | false =>
        rw [if_neg Bool.false_ne_true]
        intro final ended
        cases ended
        exact .single (.placeholder _ _ _ unbound notFound)

end Unification

/-- Unification of lengths binds at most one unbound length variable. -/
theorem unifyLength_binds (left right : Length) (env : Environment) :
    Obeys (ReflTransGen Binds) (unifyLength left right) env := by
  refine .bind_environment ?_
  dsimp only
  split
  · exact .pure _
  · rename_i different
    split
    · rename_i id isVar
      intro final ended
      cases ended
      rw [isVar] at different
      exact .single (.length _ _ _ isVar (Ne.symm different))
    · rename_i id isVar _
      intro final ended
      cases ended
      rw [isVar] at different
      exact .single (.length _ _ _ isVar different)
    · exact .fail _

namespace Unification

variable {recur : Ty → Ty → Action UnifyError Ty} {env : Environment}

/-- The common fields of two structs are unified one after the other, which makes only binds. -/
theorem meet_binds
    (recurBinds : ∀ left right env, Obeys (ReflTransGen Binds) (recur left right) env)
    (left right : List (String × Ty)) :
    Obeys (ReflTransGen Binds) (meet recur left right) env := by
  unfold meet
  split
  · exact .bind (note_binds _ _ _) fun _ => .bind_environment (.fail _)
  · refine .bind (note_binds _ _ _) fun _ => ?_
    refine .bind (.mapM fun field _ env => ?_) fun _ => .pure _
    exact .bind (recurBinds _ _ _) fun _ => .pure _

/-- One step of unification makes only binds if unification of the parts does. -/
theorem step_binds
    (recurBinds : ∀ left right env, Obeys (ReflTransGen Binds) (recur left right) env)
    (left right : Ty) :
    Obeys (ReflTransGen Binds) (step recur left right) env := by
  unfold step
  split
  · exact .bind (note_binds _ _ _) fun _ => .pure _
  split
  · rename_i scope id _ _
    refine .bind_environment ?_
    split
    · exact recurBinds _ _ _
    · rename_i unbound
      exact bind_binds unbound _ _
  · exact recurBinds _ _ _
  · refine .bind (definition_binds _ _) fun _ => ?_
    exact .bind (note_binds _ _ _) fun _ => recurBinds _ _ _
  · refine .bind (definition_binds _ _) fun _ => ?_
    exact .bind (note_binds _ _ _) fun _ => recurBinds _ _ _
  · refine .bind (note_binds _ _ _) fun _ => ?_
    refine .bind (recurBinds _ _ _) fun _ => ?_
    exact .bind (unifyLength_binds _ _ _) fun _ => .pure _
  · exact meet_binds recurBinds _ _
  · refine .bind (note_binds _ _ _) fun _ => ?_
    refine .bind (recurBinds _ _ _) fun _ => ?_
    exact .bind (recurBinds _ _ _) fun _ => .pure _
  · exact .bind (note_binds _ _ _) fun _ => .pure _
  · exact .bind (note_binds _ _ _) fun _ => .pure _
  · exact mismatch_binds _ _

/-- Unification in any number of steps makes only binds. -/
theorem within_binds (steps : Nat) (left right : Ty) (env : Environment) :
    Obeys (ReflTransGen Binds) (within steps left right) env := by
  induction steps generalizing left right env with
  | zero => exact .exhausted
  | succ steps inductionHypothesis => exact step_binds inductionHypothesis left right

end Unification

/-- Unification only binds unbound variables and keeps steps in the trace. -/
theorem unify_binds (left right : Ty) (env : Environment) :
    Obeys (ReflTransGen Binds) (unify left right) env :=
  .orElse (Unification.within_binds _ _ _ _)
    (.bind_environment (Unification.within_binds _ _ _ _))

/-- Unification is a run. -/
theorem unify_run (left right : Ty) (env : Environment) :
    Obeys Run (unify left right) env :=
  fun final ended => .of_binds (unify_binds left right env final ended)

/-- Unification of lengths is a run. -/
theorem unifyLength_run (left right : Length) (env : Environment) :
    Obeys Run (unifyLength left right) env :=
  fun final ended => .of_binds (unifyLength_binds left right env final ended)

/-! ## Operations that cannot fail -/

namespace Environment

/-- What the computation leaves of an environment is a quiet run from there. -/
def RunsOn (computation : StateM Environment α) (env : Environment) : Prop :=
  QuietRun env (computation env).2

namespace RunsOn

variable {env : Environment}

theorem pure (value : α) (env : Environment) :
    RunsOn (Pure.pure value : StateM Environment α) env :=
  .refl env

/-- Two computations that cannot fail are a run if both are. -/
theorem bind
    {first : StateM Environment α}
    {next : α → StateM Environment β}
    (firstRuns : RunsOn first env)
    (nextRuns : ∀ value env, RunsOn (next value) env) :
    RunsOn (first >>= next) env :=
  .trans firstRuns (nextRuns _ _)

/-- After reading the environment a computation goes on with the same environment. -/
theorem bind_get
    {next : Environment → StateM Environment α}
    (nextRuns : RunsOn (next env) env) :
    RunsOn (get >>= next) env :=
  nextRuns

end RunsOn

end Environment

/-- A traversal has every property that its visits have and that sequencing keeps. -/
theorem Ty.traverse_induction
    {m : Type → Type}
    [Monad m]
    {motive : ∀ {α : Type}, m α → Prop}
    (pure : ∀ {α : Type} (value : α), motive (pure value : m α))
    (bind :
      ∀ {α β : Type} {first : m α} {next : α → m β},
        motive first → (∀ value, motive (next value)) → motive (first >>= next))
    {visitor : Visitor m}
    (named : ∀ scope name, motive (visitor.named scope name))
    (placeholder : ∀ scope id, motive (visitor.placeholder scope id))
    (parametric : ∀ scope label, motive (visitor.parametric scope label))
    (length : ∀ length, motive (visitor.length length))
    (ty : Ty) :
    motive (ty.traverse visitor) := by
  induction ty using Ty.induction with
  | primitive kind => exact pure _
  | array component bound inductionHypothesis =>
      exact bind inductionHypothesis fun _ => bind (length bound) fun _ => pure _
  | function param result paramHypothesis resultHypothesis =>
      exact bind paramHypothesis fun _ => bind resultHypothesis fun _ => pure _
  | struct fields inductionHypothesis =>
      refine bind ?_ fun _ => pure _
      induction fields with
      | nil => exact pure _
      | cons field rest restHypothesis =>
          refine bind (inductionHypothesis field List.mem_cons_self) fun _ => ?_
          refine bind (restHypothesis fun other member => ?_) fun _ => pure _
          exact inductionHypothesis other (List.mem_cons_of_mem _ member)
  | union members inductionHypothesis =>
      refine bind ?_ fun _ => pure _
      induction members with
      | nil => exact pure _
      | cons member rest restHypothesis =>
          refine bind (inductionHypothesis member List.mem_cons_self) fun _ => ?_
          refine bind (restHypothesis fun other isMember => ?_) fun _ => pure _
          exact inductionHypothesis other (List.mem_cons_of_mem _ isMember)
  | named scope name => exact named scope name
  | placeholder scope id => exact placeholder scope id
  | parametric scope label => exact parametric scope label

namespace Environment

/-- Only an unbound placeholder is quantified. -/
theorem quantifyPlaceholder_run
    {env : Environment}
    {id : PlaceholderId}
    (unbound : env.binding? id = none)
    (kept : VarSet)
    (scope : ScopeId) :
    RunsOn (quantifyPlaceholder kept scope id) env := by
  unfold quantifyPlaceholder
  split
  · exact .refl env
  · exact .trans (.fresh 0 0 1) (.quantify scope _ unbound)

/-- Quantifying a length at most marks its variable. -/
theorem quantifyLength_run (kept : VarSet) (length : Length) (env : Environment) :
    RunsOn (quantifyLength kept length) env := by
  refine .bind_get ?_
  split
  · rename_i id _
    dsimp only
    split
    · exact .pure _ _
    · exact .markGeneric id
  · exact .pure _ _

/-- Quantifying a type in any number of steps is a run. -/
theorem quantifyWithin_run
    (kept : VarSet)
    (steps : Nat)
    (expanding : List AliasKey)
    (ty : Ty)
    (env : Environment) :
    RunsOn (quantifyWithin kept steps expanding ty) env := by
  induction steps generalizing expanding ty env with
  | zero => exact .pure ty env
  | succ steps inductionHypothesis =>
      refine Ty.traverse_induction
        (motive := fun computation => ∀ env, RunsOn computation env)
        .pure
        (fun first next env => .bind (first env) next)
        ?_ ?_ (fun _ _ => .pure _) (quantifyLength_run kept) ty env
      · intro scope name env
        refine .bind_get ?_
        split
        · split
          · exact .pure _ env
          · exact inductionHypothesis _ _ env
        · exact .pure _ env
      · intro scope id env
        refine .bind_get ?_
        split
        · exact inductionHypothesis _ _ env
        · rename_i unbound
          exact quantifyPlaceholder_run unbound kept scope

/-- Quantifying a type is a run. -/
theorem quantify_run (kept : VarSet) (ty : Ty) (env : Environment) :
    RunsOn (quantify kept ty) env :=
  .bind_get (quantifyWithin_run kept _ [] ty env)

/-- Generalizing a type is a run. -/
theorem generalize_run (ty : Ty) (env : Environment) : RunsOn (generalize ty) env :=
  .bind_get (quantify_run _ ty env)

/-- Closing a type is a run. -/
theorem close_run (ty : Ty) (env : Environment) : RunsOn (close ty) env :=
  quantify_run VarSet.empty ty env

/-- Instantiating a quantified type draws at most one fresh placeholder. -/
theorem instantiateParametric_run
    (scope : ScopeId)
    (label : LabelId)
    (made : Instance)
    (env : Environment) :
    RunsOn (instantiateParametric scope label made) env := by
  change RunsOn ((instantiateParametric scope label).run made) env
  unfold instantiateParametric
  rw [StateT.run_bind, StateT.run_get, pure_bind]
  cases made.types.lookup (scope, label) with
  | some ty => exact .refl env
  | none => exact .fresh 1 0 0

/-- Instantiating a length draws at most one fresh length variable. -/
theorem instantiateLength_run (length : Length) (made : Instance) (env : Environment) :
    RunsOn (instantiateLength length made) env := by
  cases length with
  | known count => exact .refl env
  | var id =>
      change RunsOn ((instantiateLength (.var id)).run made) env
      unfold instantiateLength
      rw [StateT.run_bind, StateT.run_monadLift, bind_assoc]
      refine .bind_get ?_
      rw [pure_bind]
      cases env.frames.isGeneric id with
      | false => exact .refl env
      | true =>
          rw [if_pos rfl, StateT.run_bind, StateT.run_get, pure_bind]
          cases made.lengths.lookup id with
          | some fresh => exact .refl env
          | none => exact .fresh 0 1 0

/-- Instantiating a type is a run. -/
theorem instantiate_run (ty : Ty) (env : Environment) : RunsOn (instantiate ty) env := by
  refine .bind_get ?_
  dsimp only
  split
  · refine .bind ?_ fun _ _ => .pure _ _
    exact Ty.traverse_induction
      (motive := fun {α} (computation : StateT Instance (StateM Environment) α) =>
        ∀ made env, RunsOn (computation made) env)
      (fun value made => .pure (value, made))
      (fun first next made env =>
        .bind (first made env) fun result => next result.1 result.2)
      (fun _ _ _ => .pure _) (fun _ _ _ => .pure _)
      instantiateParametric_run instantiateLength_run (env.resolve ty) ⟨[], []⟩ env
  · exact .pure _ env

end Environment

/-! ## Calls -/

namespace Call

variable {relation : Environment → Environment → Prop} {env : Environment}
  {recur : Ty → List Ty → Action UnifyError Ty}

/-- A relation that contains what a call does: bindings, fresh results and trials. -/
structure Admits (relation : Environment → Environment → Prop) : Prop where
  binds : ∀ {env final}, ReflTransGen Binds env final → relation env final
  fresh :
    ∀ {env : Environment},
      relation env { env with fresh.placeholder := env.fresh.placeholder + 1 }
  transaction :
    ∀ {env inner : Environment} (keep : Bool),
      relation env.push inner → relation env (inner.finish keep)

/-- What calls may rely on holds of unification too. -/
theorem Admits.unify
    (admits : Admits relation)
    (left right : Ty)
    (env : Environment) :
    Obeys relation (unify left right) env :=
  fun final ended => admits.binds (unify_binds left right env final ended)

variable [IsPreorder Environment relation]

/-- Trying the members of an overload set obeys what unification and the rest of the call do. -/
theorem firstAccepting_obeys
    (admits : Admits relation)
    (recurObeys : ∀ callee args env, Obeys relation (recur callee args) env)
    (arg : Ty)
    (rest members : List Ty) :
    Obeys relation (firstAccepting recur arg rest members) env := by
  induction members generalizing env with
  | nil => exact .pure _
  | cons member others inductionHypothesis =>
      refine .bind (fun final ended => admits.binds (Unification.note_binds _ _ _ final ended))
        fun _ => ?_
      refine .bind (.attempt (.transaction (recurObeys _ _ _) admits.transaction)) fun _ => ?_
      split
      · exact .pure _
      · exact inductionHypothesis

/-- One argument of a call obeys what unification and the rest of the call do. -/
theorem step_obeys
    (admits : Admits relation)
    (recurObeys : ∀ callee args env, Obeys relation (recur callee args) env)
    (callee : Ty)
    (args : List Ty) :
    Obeys relation (step recur callee args) env := by
  unfold step
  split
  · exact .pure _
  · refine .bind_environment ?_
    split
    · exact .bind (admits.unify _ _ _) fun _ => recurObeys _ _ _
    · refine .bind (.ofState admits.fresh) fun _ => ?_
      exact .bind (admits.unify _ _ _) fun _ => recurObeys _ _ _
    · refine .bind (firstAccepting_obeys admits recurObeys _ _ _) fun _ => ?_
      split
      · exact .pure _
      · exact .bind_environment (.fail _)
    · exact .fail _

/-- A call in any number of steps obeys what allows binds, transactions and fresh variables. -/
theorem within_obeys
    (admits : Admits relation)
    (steps : Nat)
    (callee : Ty)
    (args : List Ty)
    (env : Environment) :
    Obeys relation (within steps callee args) env := by
  induction steps generalizing callee args env with
  | zero => exact .exhausted
  | succ steps inductionHypothesis => exact step_obeys admits inductionHypothesis callee args

/-- Runs are enough for calls. -/
theorem admits_run : Admits Run :=
  ⟨.of_binds, .fresh 1 0 0, .transaction⟩

/-- A call in any number of steps is a run. -/
theorem within_run (steps : Nat) (callee : Ty) (args : List Ty) (env : Environment) :
    Obeys Run (within steps callee args) env :=
  within_obeys admits_run steps callee args env

end Call

/-- A call makes only the changes that unifications, fresh results and trials make. -/
theorem call_obeys
    {relation : Environment → Environment → Prop}
    [IsPreorder Environment relation]
    (admits : Call.Admits relation)
    (callee : Ty)
    (args : List Ty)
    (env : Environment) :
    Obeys relation (call callee args) env :=
  .orElse (Call.within_obeys admits _ _ _ _)
    (.bind_environment (Call.within_obeys admits _ _ _ _))

/-- A call is a run. -/
theorem call_run (callee : Ty) (args : List Ty) (env : Environment) :
    Obeys Run (call callee args) env :=
  call_obeys Call.admits_run callee args env

/-! ## Rules -/

namespace Inference

variable {infer : Infer} {env : Environment}

/-- Inference of an expression with a fresh instance of its type is a run. -/
theorem inferInstance_run
    (inferRuns : ∀ expr env, Obeys Run (infer expr) env)
    (expr : Expr) :
    Obeys Run (inferInstance infer expr) env :=
  .bind (inferRuns expr env) fun _ => .ofState (Environment.instantiate_run _ _).run

/-- Blaming an expression for an error does not change what a computation does. -/
theorem blame_run
    {action : Action UnifyError α}
    (expr : Expr)
    (runs : Obeys Run action env) :
    Obeys Run (blame expr action) env :=
  .mapError runs

/-- Trying two types in transactions obeys what allows binds and transactions. -/
theorem unifyEither_obeys
    {relation : Environment → Environment → Prop}
    [IsPreorder Environment relation]
    (admits : Call.Admits relation)
    (first second ty : Ty) :
    Obeys relation (unifyEither first second ty) env := by
  refine .bind (.attempt (.transaction (admits.unify _ _ _) admits.transaction)) fun _ => ?_
  split
  · exact .pure _
  · exact .mapError (.transaction (admits.unify _ _ _) admits.transaction)

/-- Trying two types in transactions is a run. -/
theorem unifyEither_run (first second ty : Ty) :
    Obeys Run (unifyEither first second ty) env :=
  unifyEither_obeys Call.admits_run first second ty

/-- Recording the types of parameters is a run. -/
theorem openParameters_run
    (function : ExprId)
    (scope : ScopeId)
    (position : Nat)
    (params : List Parameter)
    (env : Environment) :
    Environment.RunsOn (openParameters function scope position params) env := by
  induction params generalizing position env with
  | nil => exact .pure _ env
  | cons param rest inductionHypothesis =>
      have recorded (ty : Ty) (env : Environment) :
          Environment.RunsOn
            (do
              modify (Environment.recordParameter function position ty)
              let others ← openParameters function scope (position + 1) rest
              pure (ty :: others))
            env := by
        refine .bind (.recordParameter function position ty) fun _ env => ?_
        exact .bind (inductionHypothesis _ env) fun _ env => .pure _ env
      unfold openParameters
      cases param.ascription with
      | some ascription => exact recorded ascription env
      | none => exact .bind (.fresh 1 0 0) fun ty env => recorded ty env

/-- The type of an outside value is written or is a fresh placeholder, which is a run. -/
theorem inferExternal_run (expr : Expr) (ascription : Option Ty) :
    Environment.RunsOn (inferExternal expr ascription) env := by
  cases ascription with
  | some ascription => exact Environment.generalize_run ascription env
  | none => exact .trans (.fresh 1 0 0) (.external _)

section Rules

variable (inferRuns : ∀ expr env, Obeys Run (infer expr) env)
include inferRuns

/-- Inference of an array is a run if inference of its elements is. -/
theorem inferArray_run (expr : Expr) (elements : List Expr) :
    Obeys Run (inferArray infer expr elements) env := by
  cases elements with
  | nil => exact .fail _
  | cons first rest =>
      refine .bind (inferInstance_run inferRuns _) fun _ => ?_
      refine .bind (.foldlM (fun element _ component env => ?_) _) fun _ => ?_
      · refine .bind (inferInstance_run inferRuns _) fun _ => ?_
        exact blame_run _ (unify_run _ _ _)
      · exact .bind (.ofState (Environment.generalize_run _ _).run) fun _ => .pure _

/-- Inference of an array access is a run if inference of the array and the position is. -/
theorem inferIndex_run (expr base position : Expr) :
    Obeys Run (inferIndex infer expr base position) env := by
  refine .bind (inferInstance_run inferRuns _) fun _ => ?_
  refine .bind (blame_run _ (unify_run _ _ _)) fun _ => ?_
  refine .bind (inferInstance_run inferRuns _) fun _ => ?_
  refine .bind (.ofState (.fresh 1 0 0)) fun _ => ?_
  refine .bind (.ofState (.fresh 0 1 0)) fun _ => ?_
  refine .bind (blame_run _ (unify_run _ _ _)) fun _ => ?_
  exact .ofState (Environment.generalize_run _ _).run

/-- Inference of a struct is a run if inference of its fields is. -/
theorem inferStruct_run (expr : Expr) (fields : List (String × Expr)) :
    Obeys Run (inferStruct infer expr fields) env := by
  unfold inferStruct
  split
  · exact .fail _
  · split
    · exact .fail _
    · refine .bind (.mapM fun field _ env => ?_) fun _ => .pure _
      refine .bind (inferInstance_run inferRuns _) fun _ => ?_
      exact .bind (.ofState (Environment.generalize_run _ _).run) fun _ => .pure _

/-- Inference of a field access is a run if inference of the struct is. -/
theorem inferField_run (expr base : Expr) (label : String) :
    Obeys Run (inferField infer expr base label) env := by
  refine .bind (inferInstance_run inferRuns _) fun _ => ?_
  refine .bind (.ofState (.fresh 1 0 0)) fun _ => ?_
  refine .bind (blame_run _ (unify_run _ _ _)) fun _ => ?_
  exact .ofState (Environment.generalize_run _ _).run

/-- Inference of a function is a run if inference of its body is. -/
theorem inferFunction_run (expr : Expr) (params : List Parameter) (body : Expr) :
    Obeys Run (inferFunction infer expr params body) env := by
  refine .bind (.ofState (openParameters_run _ _ _ _ _).run) fun _ => ?_
  refine .bind (.between (inferInstance_run inferRuns _) (.insideFunction _)) fun _ => ?_
  exact .bind_environment (.pure _)

/-- Inference of a call is a run if inference of the function and the arguments is. -/
theorem inferCall_run (expr callee : Expr) (args : List Expr) :
    Obeys Run (inferCall infer expr callee args) env := by
  refine .bind (inferInstance_run inferRuns _) fun _ => ?_
  refine .bind (.mapM fun arg _ env => inferInstance_run inferRuns arg) fun _ => ?_
  exact blame_run _ (call_run _ _ _)

/-- Inference of a conditional is a run if inference of its three parts is. -/
theorem inferConditional_run (condition whenTrue whenFalse : Expr) :
    Obeys Run (inferConditional infer condition whenTrue whenFalse) env := by
  refine .bind (inferInstance_run inferRuns _) fun _ => ?_
  refine .bind (blame_run _ (unify_run _ _ _)) fun _ => ?_
  refine .bind (inferInstance_run inferRuns _) fun _ => ?_
  refine .bind (inferInstance_run inferRuns _) fun _ => ?_
  refine .bind (blame_run _ (unify_run _ _ _)) fun _ => ?_
  exact .ofState (Environment.generalize_run _ _).run

/-- A parameter without a recorded type makes its function be inferred, which is a run. -/
theorem inferParameter_run (expr : Expr) (function : ExprId) (position : Nat) :
    Obeys Run (inferParameter infer expr function position) env := by
  refine .bind_environment ?_
  split
  · exact .pure _
  · split
    · exact .fail _
    · refine .bind (inferRuns _ _) fun _ => .bind_environment ?_
      split
      · exact .pure _
      · split
        · exact .pure _
        · exact .fail _

/-- Inference of a dynamic array is a run if inference of its length and generator is. -/
theorem inferDynamicArray_run (expr length generator : Expr) :
    Obeys Run (inferDynamicArray infer expr length generator) env := by
  refine .bind (inferInstance_run inferRuns _) fun _ => ?_
  refine .bind (blame_run _ (unifyEither_run _ _ _)) fun _ => ?_
  split
  · exact .fail _
  · refine .bind (inferInstance_run inferRuns _) fun _ => ?_
    refine .bind (.ofState (.fresh 1 0 0)) fun _ => ?_
    refine .bind (blame_run _ (unifyEither_run _ _ _)) fun _ => ?_
    split
    · exact .pure _
    · exact .bind (.ofState (.fresh 0 1 0)) fun _ => .pure _

/-- Inference of a union is a run if inference of its options is. -/
theorem inferUnion_run (expr : Expr) (options : List Expr) :
    Obeys Run (inferUnion infer expr options) env := by
  refine .bind (.mapM fun option _ env => inferInstance_run inferRuns option) fun _ => ?_
  split
  · exact .pure _
  · exact .fail _

/-- A declaration gets its provisional type only while it has none. -/
theorem inferDeclared_run (declaredIn : ScopeId) (name : String) (expr : Expr) :
    Obeys Run (inferDeclared infer declaredIn name expr) env := by
  refine .bind_environment ?_
  split
  · exact .pure _
  · rename_i notInProgress
    refine .bind (.ofState (.fresh 1 0 0)) fun started => ?_
    cases started
    refine .bind ?_ fun _ => .ofState (Environment.generalize_run _ _).run
    refine .between (.bind (inferRuns _ _) fun _ => blame_run _ (unify_run _ _ _)) ?_
    exact .insideDeclaration _ notInProgress

/-- A reference infers its declaration between two changes of the context, which is a run. -/
theorem inferReference_run (expr : Expr) (name : String) :
    Obeys Run (inferReference infer expr name) env := by
  refine .bind_environment ?_
  split
  · exact .fail _
  · refine .bind (inferDeclared_run inferRuns _ _ _) fun _ => ?_
    exact .ofState (Environment.instantiate_run _ _).run

/-- A rule is a run if the inference of other expressions is. -/
theorem inferForm_run (expr : Expr) :
    Obeys Run (inferForm infer expr) env := by
  unfold inferForm
  cases expr.form with
  | literal value => exact .pure _
  | array elements => exact .map (inferArray_run inferRuns _ _)
  | index base position => exact .map (inferIndex_run inferRuns _ _ _)
  | struct fields => exact .map (inferStruct_run inferRuns _ _)
  | field base label => exact .map (inferField_run inferRuns _ _ _)
  | function params body => exact .map (inferFunction_run inferRuns _ _ _)
  | call callee args => exact .map (inferCall_run inferRuns _ _ _)
  | conditional condition whenTrue whenFalse =>
      exact .map (inferConditional_run inferRuns _ _ _)
  | reference name => exact .map (inferReference_run inferRuns _ _)
  | external kind name ascription => exact .map (.ofState (inferExternal_run _ _).run)
  | parameter function position => exact .map (inferParameter_run inferRuns _ _ _)
  | dynamicArray length generator => exact .map (inferDynamicArray_run inferRuns _ _ _)
  | union options => exact .map (inferUnion_run inferRuns _ _)
  | native ty => exact .pure _

end Rules

/-! ## Inference -/

/-- Linking an inferred type with the one recorded before is a run. -/
theorem linked_run
    {rule : Expr → Action InferError (InferRule × Ty)}
    (ruleRuns : ∀ expr env, Obeys Run (rule expr) env)
    (expr : Expr)
    (previous : Option Ty) :
    Obeys Run (linked rule expr previous) env := by
  refine .bind (ruleRuns expr env) fun _ => ?_
  cases previous with
  | some previous => exact .bind (blame_run _ (unify_run _ _ _)) fun _ => .pure _
  | none => exact .pure _

/-- What happens inside the transaction of an attempt. -/
theorem transacted_run
    {rule : Expr → Action InferError (InferRule × Ty)}
    (ruleRuns : ∀ expr env, Obeys Run (rule expr) env)
    (expr : Expr)
    (previous : Option Ty) :
    Obeys Run
      (do
        let (name, ty) ← deeper (linked rule expr previous)
        Action.update (Environment.recordInferred expr.id ty)
        pure (name, ty))
      env := by
  refine .bind (.between (linked_run ruleRuns expr previous) .deeper) fun _ => ?_
  exact .bind (.update (.recordInferred _ _)) fun _ => .pure _

/-- An attempt to infer and record a type in a transaction is a run. -/
theorem attempted_run
    {rule : Expr → Action InferError (InferRule × Ty)}
    (ruleRuns : ∀ expr env, Obeys Run (rule expr) env)
    (expr : Expr)
    (previous : Option Ty) :
    Obeys Run (attempted rule expr previous) env := by
  refine .bind (.transaction (transacted_run ruleRuns expr previous) .transaction) fun _ => ?_
  exact .bind (.update (.traceInfer _ _ _)) fun _ => .pure _

/-- A recorded type is the answer as soon as something is known about it. -/
theorem memoized_of_known
    {rule : Expr → Action InferError (InferRule × Ty)}
    {expr : Expr}
    {ty : Ty}
    (known : ((env.frames.inferred? expr.id).filter fun ty => !env.isUnbound ty) = some ty) :
    memoized rule expr env = .ok ty env := by
  unfold memoized
  rw [Action.environment_bind, known]
  rfl

/-- While nothing is known about the recorded type the expression is inferred, up to the limit. -/
theorem memoized_of_unknown
    {rule : Expr → Action InferError (InferRule × Ty)}
    {expr : Expr}
    (unknown : ((env.frames.inferred? expr.id).filter fun ty => !env.isUnbound ty) = none) :
    memoized rule expr env =
      if env.options.maxDepth ≤ env.context.depth then
        .error (.ofExpr expr (.depthLimit env.options.maxDepth)) env
      else
        attempted rule expr (env.frames.inferred? expr.id) env := by
  unfold memoized
  rw [Action.environment_bind, unknown]
  dsimp only
  split
  · rfl
  · rfl

/-- A type comes from what is recorded and known, or else from an attempt. -/
theorem memoized_eq_ok
    {rule : Expr → Action InferError (InferRule × Ty)}
    {expr : Expr}
    {ty : Ty}
    {final : Environment}
    (ended : memoized rule expr env = .ok ty final) :
    env.frames.inferred? expr.id = some ty ∧ env.isUnbound ty = false ∧ final = env ∨
      attempted rule expr (env.frames.inferred? expr.id) env = .ok ty final := by
  cases found : (env.frames.inferred? expr.id).filter fun ty => !env.isUnbound ty with
  | some recorded =>
      rw [memoized_of_known found] at ended
      cases ended
      obtain ⟨recorded, isKnown⟩ := Option.filter_eq_some_iff.mp found
      exact Or.inl ⟨recorded, by simpa using isKnown, rfl⟩
  | none =>
      rw [memoized_of_unknown found] at ended
      split at ended
      · cases ended
      · exact Or.inr ended

/-- A recorded type is returned, and everything else is attempted: both are runs. -/
theorem memoized_run
    {rule : Expr → Action InferError (InferRule × Ty)}
    (ruleRuns : ∀ expr env, Obeys Run (rule expr) env)
    (expr : Expr) :
    Obeys Run (memoized rule expr) env := by
  refine .bind_environment ?_
  split
  · exact .pure _
  · split
    · exact .fail _
    · exact attempted_run ruleRuns _ _

/-- Inference in any number of levels is a run. -/
theorem within_run (levels : Nat) (expr : Expr) (env : Environment) :
    Obeys Run (within levels expr) env := by
  induction levels generalizing expr env with
  | zero => exact memoized_run (fun _ _ => .exhausted) expr
  | succ levels inductionHypothesis =>
      exact memoized_run (fun expr _ => inferForm_run inductionHypothesis expr) expr

end Inference

/-- Inference of an expression is a run, whether it succeeds or not. -/
theorem infer_run (expr : Expr) (env : Environment) :
    Obeys Run (infer expr) env :=
  .bind_environment (Inference.within_run _ expr env)

/-- Inference of a declaration is a run, whether it succeeds or not. -/
theorem inferDeclaration_run (scope : ScopeId) (name : String) (env : Environment) :
    Obeys Run (inferDeclaration scope name) env := by
  refine .bind_environment ?_
  split
  · exact .map (Inference.inferDeclared_run infer_run _ _ _)
  · exact .pure _

/-! ## Programs -/

section Programs

variable {relation : Environment → Environment → Prop} [IsPreorder Environment relation]
  (infers : ∀ scope name env, Obeys relation (inferDeclaration scope name) env)
include infers

namespace Environment

/-- Asking whether a declaration fails obeys what inference of declarations does. -/
theorem fails_obeys (declaration : Declaration Expr) (env : Environment) :
    Obeys relation (fails declaration : Action ε Bool) env := by
  refine .bind (.attempt (infers _ _ _)) fun _ => ?_
  split
  · exact .pure _
  · exact .pure _

/-- Inferring declarations to skip those that fail obeys what inferring one of them does. -/
theorem inferable_obeys (declarations : List (Declaration Expr)) (env : Environment) :
    Obeys relation (inferable declarations : Action ε (List (Declaration Expr))) env := by
  induction declarations generalizing env with
  | nil => exact .pure _
  | cons declaration rest inductionHypothesis =>
      have others (failed : Bool) (env : Environment) :
          Obeys relation
            (do
              let others ← inferable rest
              pure (if failed then others else declaration :: others) :
              Action ε (List (Declaration Expr)))
            env :=
        .bind (inductionHypothesis env) fun _ => .pure _
      unfold inferable
      cases declaration.scope.isNative with
      | true => exact others false env
      | false => exact .bind (fails_obeys infers declaration env) fun _ => others _ _

end Environment

namespace Checker

/-- A check of a program obeys what inference of declarations does. -/
theorem problems_obeys (checker : Checker) (env : Environment) :
    Obeys relation (checker.problems : Action ε (List Diagnostic)) env := by
  cases checker with
  | cyclicAliases => exact .bind_environment (.pure _)
  | unresolvedVariables => exact .bind_environment (.pure _)
  | externalConsistency kind =>
      refine .bind_environment ?_
      refine .bind (Environment.inferable_obeys infers _ _) fun _ => ?_
      exact .bind_environment (.pure _)

/-- The checks of a pipeline obey what inference of declarations does. -/
theorem runAfter_obeys (found : List Diagnostic) (pipeline : List Checker) (env : Environment) :
    Obeys relation (runAfter found pipeline) env := by
  induction pipeline generalizing found env with
  | nil =>
      unfold runAfter
      split
      · exact .pure _
      · exact .fail _
  | cons checker rest inductionHypothesis =>
      refine .bind (problems_obeys infers checker env) fun _ => ?_
      split
      · exact inductionHypothesis _ _
      · exact .fail _

end Checker

namespace Program

/-- Inferring declarations to list their errors obeys what inferring one of them does. -/
theorem foldlM_inferNext_obeys
    (declarations : List (Declaration Expr))
    (progress : Progress)
    (env : Environment) :
    Obeys relation (declarations.foldlM inferNext progress : Action ε Progress) env := by
  refine .foldlM (fun declaration _ progress env => ?_) _
  refine .bind (.attempt (infers _ _ _)) fun _ => ?_
  split
  · exact .pure _
  · exact .pure _
  · split
    · exact .pure _
    · exact .pure _

end Program

/-- Inference of a program obeys what inference of its declarations does. -/
theorem inferProgram_obeys (env : Environment) : Obeys relation inferProgram env := by
  refine .bind_environment (.bind (Program.foldlM_inferNext_obeys infers _ _ _) fun _ => ?_)
  split
  · exact .bind_environment (.pure _)
  · exact .fail _

end Programs

/-- A check of a program is a run. -/
theorem Checker.problems_run (checker : Checker) (env : Environment) :
    Obeys Run (checker.problems : Action ε (List Diagnostic)) env :=
  problems_obeys inferDeclaration_run checker env

/-- The checks of a pipeline are a run. -/
theorem Checker.runAfter_run
    (found : List Diagnostic)
    (pipeline : List Checker)
    (env : Environment) :
    Obeys Run (runAfter found pipeline) env :=
  runAfter_obeys inferDeclaration_run found pipeline env

/-- Inference of a program is a run. -/
theorem inferProgram_run (env : Environment) :
    Obeys Run inferProgram env :=
  inferProgram_obeys inferDeclaration_run env

/-- Closing the types of a program records the type of no expression. -/
theorem Program.closeDeclarations_obeys
    {relation : Environment → Environment → Prop}
    [IsPreorder Environment relation]
    (quiet : ∀ {env final}, Environment.QuietRun env final → relation env final)
    (declarations : List TypedDeclaration)
    (env : Environment) :
    Obeys relation
      (declarations.mapM fun declaration => do
        let ty ← Environment.close declaration.ty
        pure { declaration with ty := ty } : Action ε (List TypedDeclaration))
      env := by
  refine .mapM fun declaration _ env => ?_
  exact .bind (.ofState (quiet (Environment.close_run _ _))) fun _ => .pure _

/-- Checking a program is a run. -/
theorem checkProgram_run (env : Environment) :
    Obeys Run checkProgram env := by
  refine .bind (Checker.runAfter_run [] Checker.standard env) fun _ => ?_
  refine .bind (inferProgram_run _) fun _ => ?_
  exact .bind (Program.closeDeclarations_obeys (fun quiet => quiet.run) _ _) fun _ => .pure _

end ShaderTyping
