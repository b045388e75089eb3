import ShaderTyping.Proofs.FollowingRules

namespace ShaderTyping

/-!
# Parameters and function types

A function records the types of its parameters when its inference begins and its own
type when it ends.  The two agree as long as both come from the same pass, so a
function must not be entered again while it is being inferred.  Nothing in inference
prevents that: a parameter whose function is unknown is inferred through the function
itself, without a provisional type for the declaration around it, and the function
may lead back to where the parameter was asked for.

`Inference.watched` is inference that gives no answer when the given function is
entered again.  Wherever it gives an answer, inference does the same, and the
recorded parameter types of the function are those that its type shows.
-/

open Environment (Run Permits)
open ShaderTyping.Action (Obeys Follows)

/-! ## What a function type shows -/

namespace Ty

/-- The parameter at a position of a curried function type. -/
def parameter? : Nat → Ty → Option Ty
  | 0, .function param _ => some param
  | position + 1, .function _ result => result.parameter? position
  | _, _ => none

/-- A function of several parameters shows each of them. -/
theorem parameter?_curried
    (params : List Ty)
    (result : Ty)
    {position : Nat}
    (isParam : position < params.length) :
    (curried params result).parameter? position = params[position]? := by
  induction params generalizing position with
  | nil => contradiction
  | cons param rest inductionHypothesis =>
      cases position with
      | zero => rfl
      | succ position => exact inductionHypothesis (Nat.lt_of_succ_lt_succ isParam)

/-- A substitution is seen in the parameters that a type shows. -/
theorem parameter?_subst
    {ty param : Ty}
    {position : Nat}
    (isShown : ty.parameter? position = some param)
    (substitution : Substitution) :
    (ty.subst substitution).parameter? position = some (param.subst substitution) := by
  induction position generalizing ty with
  | zero =>
      cases ty with
      | function first result =>
          cases isShown
          rw [subst_function]
          rfl
      | _ => contradiction
  | succ position inductionHypothesis =>
      cases ty with
      | function first result =>
          rw [subst_function]
          exact inductionHypothesis isShown
      | _ => contradiction

end Ty

namespace Environment

variable {env later : Environment} {function : ExprId} {count : Nat}

/-- A type about which nothing is known resolves to a placeholder. -/
theorem isPlaceholder_resolve
    (consistent : env.frames.Consistent)
    {ty : Ty}
    (unbound : env.isUnbound ty = true) :
    (env.resolve ty).isPlaceholder = true := by
  induction ty using bindingInduction consistent with
  | step ty inductionHypothesis =>
      cases ty with
      | placeholder scope id =>
          rw [isUnbound, follow_placeholder consistent] at unbound
          rw [resolve_eq_subst consistent]
          simp only [Ty.subst_placeholder, resolution]
          cases found : env.binding? id with
          | none => rfl
          | some bound =>
              rw [found] at unbound
              exact inductionHypothesis (Ty.leaves_placeholder scope id ▸
                List.mem_singleton_self _) found unbound
      | _ => contradiction

/-- The parameters of a function are recorded with the types that a type shows for them. -/
def Shows (env : Environment) (function : ExprId) (count : Nat) (ty : Ty) : Prop :=
  ∀ position < count,
    ∃ param,
      env.frames.parameter? function position = some param ∧
        (env.resolve ty).parameter? position = some (env.resolve param)

/-- What a type shows stays shown while bindings are added. -/
theorem Shows.of_grows
    {ty : Ty}
    (shown : env.Shows function count ty)
    (consistent : env.frames.Consistent)
    (grows : env.Grows later)
    (laterConsistent : later.frames.Consistent)
    (parameters :
      ∀ position, later.frames.parameter? function position = env.frames.parameter? function position) :
    later.Shows function count ty := by
  intro position isParam
  obtain ⟨param, isRecorded, isShown⟩ := shown position isParam
  refine ⟨param, (parameters position).trans isRecorded, ?_⟩
  rw [← grows.resolve_resolve consistent laterConsistent ty,
    ← grows.resolve_resolve consistent laterConsistent param,
    resolve_eq_subst laterConsistent, resolve_eq_subst laterConsistent]
  exact Ty.parameter?_subst isShown _

/-- If the type of a function is recorded, it shows the recorded types of its parameters. -/
structure ParametersAgree (env : Environment) (function : ExprId) (count : Nat) : Prop where
  consistent : env.frames.Consistent
  shown : ∀ {ty}, env.frames.inferred? function = some ty → env.Shows function count ty

namespace ParametersAgree

/-- Parameters agree in later environments that record the same of the function. -/
theorem of_grows
    (agree : env.ParametersAgree function count)
    (grows : env.Grows later)
    (laterConsistent : later.frames.Consistent)
    (inferred : later.frames.inferred? function = env.frames.inferred? function)
    (parameters :
      ∀ position, later.frames.parameter? function position = env.frames.parameter? function position) :
    later.ParametersAgree function count where
  consistent := laterConsistent
  shown isRecorded :=
    (agree.shown (inferred.symm.trans isRecorded)).of_grows agree.consistent grows
      laterConsistent parameters

/-- Whether parameters agree depends on declarations and frames only. -/
theorem of_frames
    (agree : env.ParametersAgree function count)
    (sameDeclared : later.declared = env.declared)
    (sameFrames : later.frames = env.frames) :
    later.ParametersAgree function count :=
  agree.of_grows (.of_frames sameDeclared sameFrames) (sameFrames ▸ agree.consistent)
    (by rw [sameFrames]) fun _ => by rw [sameFrames]

/-- Parameters agree in a new frame if they did before. -/
theorem push (agree : env.ParametersAgree function count) :
    env.push.ParametersAgree function count :=
  agree.of_grows (.push env) agree.consistent.push (FrameStack.inferred?_push env.frames function)
    (FrameStack.parameter?_push env.frames function)

/-- Parameters agree after a commit if they did before. -/
theorem commit (agree : env.ParametersAgree function count) :
    (env.finish true).ParametersAgree function count := by
  refine agree.of_grows (.commit env) (consistent_finish agree.consistent true)
    (inferred?_commit env function) fun position => ?_
  rw [frames_finish, FrameStack.parameter?_finish_true]

/-- The type of a function with parameters is known as soon as it is recorded. -/
theorem isNew
    (agree : env.ParametersAgree function count)
    (notKnown :
      (env.frames.inferred? function).filter (fun ty => !env.isUnbound ty) = none) :
    env.frames.inferred? function = none ∨ count = 0 := by
  cases isRecorded : env.frames.inferred? function with
  | none => exact Or.inl rfl
  | some ty =>
      refine Or.inr (Nat.eq_zero_of_not_pos fun hasParams => ?_)
      rw [isRecorded] at notKnown
      have unbound : env.isUnbound ty = true := by simpa [Option.filter] using notKnown
      have isPlaceholder := isPlaceholder_resolve agree.consistent unbound
      -- A placeholder shows no parameter.
      obtain ⟨param, _, isShown⟩ := agree.shown isRecorded 0 hasParams
      cases resolved : env.resolve ty with
      | placeholder scope id =>
          rw [resolved] at isShown
          contradiction
      | _ =>
          rw [resolved] at isPlaceholder
          contradiction

end ParametersAgree

/-- Parameters agree with the type of a function in a program of the given declarations. -/
def AgreesOn
    (declared : Declarations)
    (function : ExprId)
    (count : Nat)
    (env : Environment) : Prop :=
  env.declared = declared ∧ env.ParametersAgree function count

/-! ## What inference keeps of a function -/

/--
The parameters of a function agree with its type after a run if they did before; a
run inside the function also leaves the recorded types of its parameters.
-/
structure KeepsParameters
    (function : ExprId)
    (count : Nat)
    (inside : Bool)
    (env final : Environment) : Prop where
  run : Run env final
  agree : env.ParametersAgree function count → final.ParametersAgree function count
  recorded :
    inside = true →
    env.frames.Consistent →
    ∀ position,
      final.frames.parameter? function position = env.frames.parameter? function position

namespace KeepsParameters

variable {final middle inner : Environment} {inside : Bool}

theorem trans
    (first : KeepsParameters function count inside env middle)
    (second : KeepsParameters function count inside middle final) :
    KeepsParameters function count inside env final where
  run := .trans first.run second.run
  agree agrees := second.agree (first.agree agrees)
  recorded isInside consistent position :=
    (second.recorded isInside (first.run.consistent consistent) position).trans
      (first.recorded isInside consistent position)

/-- A run that records neither the function's type nor its parameters. -/
theorem of_run
    (run : Run env final)
    (inferred : final.frames.inferred? function = env.frames.inferred? function)
    (parameters :
      env.frames.Consistent →
      ∀ position,
        final.frames.parameter? function position = env.frames.parameter? function position) :
    KeepsParameters function count inside env final where
  run := run
  agree agrees :=
    agrees.of_grows (run.grows agrees.consistent) (run.consistent agrees.consistent) inferred
      (parameters agrees.consistent)
  recorded _ := parameters

/-- A transaction keeps parameters if what happens inside does: an abort leads back to the start. -/
theorem transaction
    (keeps : KeepsParameters function count inside env.push inner)
    (keep : Bool) :
    KeepsParameters function count inside env (inner.finish keep) := by
  cases keep with
  | false =>
      have sameFrames := (Restored.of_run keeps.run).frames_of_failed
      exact of_run (.transaction false keeps.run) (by rw [sameFrames]) fun _ _ => by
        rw [sameFrames]
  | true =>
      refine ⟨.transaction true keeps.run, fun agrees => (keeps.agree agrees.push).commit, ?_⟩
      intro isInside consistent position
      rw [frames_finish, FrameStack.parameter?_finish_true,
        keeps.recorded isInside consistent.push]
      exact FrameStack.parameter?_push env.frames function position

/-- Where parameters are kept, agreeing ones agree afterwards. -/
theorem agreesOn
    {declared : Declarations}
    (keeps : KeepsParameters function count inside env final)
    (agrees : AgreesOn declared function count env) :
    AgreesOn declared function count final :=
  ⟨(Restored.of_run keeps.run).declared.trans agrees.1, keeps.agree agrees.2⟩

/-- Keeping parameters is permitted in a program of the given declarations. -/
instance (declared : Declarations) :
    Permits (AgreesOn declared function count) (KeepsParameters function count inside) where
  refl env := of_run (.refl env) rfl fun _ _ => rfl
  trans _ _ _ := trans
  keeps := agreesOn
  withContext _ isValid := ⟨isValid.1, isValid.2.of_frames rfl rfl⟩
  push isValid := ⟨isValid.1, isValid.2.push⟩
  calm calm := of_run calm.run (calm.inferred function) fun consistent =>
    calm.parameters consistent function
  insideFunction keeps :=
    { run := .insideFunction _ keeps.run
      agree := fun agrees => (keeps.agree (agrees.of_frames rfl rfl)).of_frames rfl rfl
      recorded := keeps.recorded }
  insideDeclaration notInProgress keeps :=
    { run := .insideDeclaration _ notInProgress keeps.run
      agree := fun agrees => (keeps.agree (agrees.of_frames rfl rfl)).of_frames rfl rfl
      recorded := keeps.recorded }
  deeper keeps :=
    { run := .deeper keeps.run
      agree := fun agrees => (keeps.agree (agrees.of_frames rfl rfl)).of_frames rfl rfl
      recorded := keeps.recorded }
  transaction keep keeps := keeps.transaction keep

/-- Recording the type of another expression. -/
theorem recordInferred
    {other : ExprId}
    (isOther : other ≠ function)
    (env : Environment)
    (ty : Ty) :
    KeepsParameters function count inside env (env.recordInferred other ty) := by
  exact of_run (.recordInferred other ty) (inferred?_recordInferred_of_ne isOther env ty)
    fun _ _ => FrameStack.read_write_of_eq rfl

/-- Recording the type of the function itself, if that shows the recorded parameters. -/
theorem recordOwn
    {ty : Ty}
    (shown : env.frames.Consistent → env.Shows function count ty) :
    KeepsParameters function count false env (env.recordInferred function ty) where
  run := .recordInferred function ty
  agree agrees := by
    have consistent := agrees.consistent.recordInferred function ty
    refine ⟨consistent, fun {recorded} isRecorded => ?_⟩
    change (env.frames.recordInferred function ty).inferred? function = some recorded at isRecorded
    rw [FrameStack.inferred?_recordInferred, if_pos rfl] at isRecorded
    cases isRecorded
    exact (shown agrees.consistent).of_grows agrees.consistent (.write rfl rfl) consistent
      fun _ => FrameStack.read_write_of_eq rfl
  recorded := nofun

end KeepsParameters

end Environment

open Environment (KeepsParameters AgreesOn)

namespace Inference

variable {env final : Environment} {function : ExprId} {count : Nat} {inside : Bool}

/-! ## Opening parameters -/

/-- Only the parameters of the function from the position on are recorded. -/
theorem parameter?_openParameters
    (function : ExprId)
    (scope : ScopeId)
    (position : Nat)
    (params : List Parameter)
    (env : Environment)
    {other : ExprId}
    {index : Nat}
    (isOther : other ≠ function ∨ index < position) :
    (openParameters function scope position params env).2.frames.parameter? other index =
      env.frames.parameter? other index := by
  induction params generalizing position env with
  | nil => rfl
  | cons param rest inductionHypothesis =>
      have recorded (ty : Ty) (env : Environment) :
          (openParameters function scope (position + 1) rest
              (env.recordParameter function position ty)).2.frames.parameter? other index =
            env.frames.parameter? other index := by
        rw [inductionHypothesis _ _ (isOther.imp_right Nat.lt_succ_of_lt)]
        change (env.frames.recordParameter function position ty).parameter? other index = _
        rw [FrameStack.parameter?_recordParameter, if_neg]
        rintro ⟨⟩
        rcases isOther with isOther | isBefore
        · exact isOther rfl
        · exact Nat.lt_irrefl _ isBefore
      unfold openParameters
      cases param.ascription with
      | some ascription => exact recorded ascription env
      | none => exact recorded _ _

/-- The types of the parameters are recorded in order. -/
theorem openParameters_records
    (function : ExprId)
    (scope : ScopeId)
    (position : Nat)
    (params : List Parameter)
    (env : Environment) :
    (openParameters function scope position params env).1.length = params.length ∧
      ∀ index < params.length,
        (openParameters function scope position params env).2.frames.parameter? function
            (position + index) =
          (openParameters function scope position params env).1[index]? := by
  induction params generalizing position env with
  | nil => exact ⟨rfl, nofun⟩
  | cons param rest inductionHypothesis =>
      have recorded (ty : Ty) (env : Environment) :
          let opened :=
            openParameters function scope (position + 1) rest
              (env.recordParameter function position ty)
          (ty :: opened.1).length = (param :: rest).length ∧
            ∀ index < (param :: rest).length,
              opened.2.frames.parameter? function (position + index) =
                (ty :: opened.1)[index]? := by
        obtain ⟨sameLength, records⟩ := inductionHypothesis (position + 1)
          (env.recordParameter function position ty)
        refine ⟨congrArg Nat.succ sameLength, fun index isParam => ?_⟩
        cases index with
        | zero =>
            refine (parameter?_openParameters function scope (position + 1) rest _
              (Or.inr (Nat.lt_succ_self position))).trans ?_
            change (env.frames.recordParameter function position ty).parameter? function position =
              some ty
            rw [FrameStack.parameter?_recordParameter, if_pos rfl]
        | succ index =>
            have shifted : position + (index + 1) = position + 1 + index := by omega
            rw [shifted]
            exact records index (Nat.lt_of_succ_lt_succ isParam)
      unfold openParameters
      cases param.ascription with
      | some ascription => exact recorded ascription env
      | none => exact recorded _ _

/-- Recording the parameters of another function keeps those of this one. -/
theorem openParameters_keeps_other
    {other : ExprId}
    (isOther : other ≠ function)
    (scope : ScopeId)
    (params : List Parameter)
    (env : Environment) :
    KeepsParameters function count inside env (openParameters other scope 0 params env).2 := by
  have quiet := openParameters_run other scope 0 params env
  exact .of_run quiet.run (quiet.inferred function) fun _ _ =>
    parameter?_openParameters _ _ _ _ _ (Or.inl isOther.symm)

/-- Before the type of a function is recorded nothing is to agree with it. -/
theorem openParameters_keeps_own
    (isNew : env.frames.inferred? function = none ∨ count = 0)
    (scope : ScopeId)
    (params : List Parameter) :
    KeepsParameters function count false env (openParameters function scope 0 params env).2 := by
  have quiet := openParameters_run function scope 0 params env
  refine ⟨quiet.run, fun agrees => ⟨quiet.run.consistent agrees.consistent, ?_⟩, nofun⟩
  intro ty isRecorded position isParam
  rw [quiet.inferred] at isRecorded
  rcases isNew with isNew | rfl
  · cases isNew.symm.trans isRecorded
  · contradiction

/-! ## Watching a function -/

/-- A rule that gives no answer for a function inside the function itself. -/
def watchedForm
    (function : ExprId)
    (inside : Bool)
    (infer : Bool → Infer)
    (expr : Expr) : Action InferError (InferRule × Ty) :=
  if expr.id = function then
    if inside then Action.exhausted else inferForm (infer true) expr
  else
    inferForm (infer inside) expr

/--
Inference with a bound on the nesting of attempts that gives no answer when the
function is entered while it is being inferred.
-/
def watched (function : ExprId) : Nat → Bool → Infer
  | 0, _ => memoized fun _ => Action.exhausted
  | levels + 1, inside => memoized (watchedForm function inside (watched function levels))

/-- Only what a rule does for the expression matters. -/
theorem attempted_congr
    {rule : Expr → Action InferError (InferRule × Ty)}
    (rule' : Expr → Action InferError (InferRule × Ty))
    {expr : Expr}
    (same : rule expr = rule' expr)
    (previous : Option Ty) :
    attempted rule expr previous = attempted rule' expr previous := by
  unfold attempted linked
  rw [same]

section Watching

variable {declared : Declarations} {nodes : Expr → Prop} {infer infer' : Infer}
  {owner body : Expr} {params : List Parameter}

/-- The type of a function shows the types that were recorded before its body was inferred. -/
theorem inferFunction_shows
    (inferFollows :
      InferFollows (AgreesOn declared owner.id params.length)
        (KeepsParameters owner.id params.length true) nodes infer infer')
    (member : nodes body)
    {ty : Ty}
    (ended : inferFunction infer owner params body env = .ok ty final)
    (isNew : env.frames.inferred? owner.id = none ∨ params.length = 0)
    (agrees : AgreesOn declared owner.id params.length env) :
    final.Shows owner.id params.length ty := by
  obtain ⟨types, opened, isOpened, afterwards⟩ := Action.bind_eq_ok.mp ended
  cases isOpened
  obtain ⟨result, left, inBody, returned⟩ := Action.bind_eq_ok.mp afterwards
  cases returned
  have openedAgrees : AgreesOn declared owner.id params.length _ :=
    (openParameters_keeps_own isNew body.scope params).agreesOn agrees
  have insideKeeps :=
    (withActiveParams_follows inferFollows _ member openedAgrees).2.of_eq_ok inBody
  have consistent := (insideKeeps.agree openedAgrees.2).consistent
  intro position isParam
  obtain ⟨sameLength, records⟩ := openParameters_records owner.id body.scope 0 params env
  set types := (openParameters owner.id body.scope 0 params env).1
  have isType : position < types.length := sameLength ▸ isParam
  refine ⟨types[position], ?_, ?_⟩
  · have isRecorded := records position isParam
    rw [Nat.zero_add, List.getElem?_eq_getElem isType] at isRecorded
    exact (insideKeeps.recorded rfl openedAgrees.2.consistent position).trans isRecorded
  · have isShown :
        (Ty.curried (types.map final.resolve) result).parameter? position =
          some (final.resolve types[position]) := by
      rw [Ty.parameter?_curried _ _ (by rwa [List.length_map]), List.getElem?_map,
        List.getElem?_eq_getElem isType]
      rfl
    rw [← Environment.resolve_resolve consistent types[position],
      Environment.resolve_eq_subst consistent, Environment.resolve_eq_subst consistent]
    exact Ty.parameter?_subst isShown _

/-- A function is inferred in one pass, from its parameters to its type. -/
theorem attempted_own_follows
    (isFunction : owner.form = .function params body)
    (inferFollows :
      InferFollows (AgreesOn declared owner.id params.length)
        (KeepsParameters owner.id params.length true) nodes infer infer')
    (member : nodes body)
    (notKnown :
      (env.frames.inferred? owner.id).filter (fun ty => !env.isUnbound ty) = none) :
    Follows (AgreesOn declared owner.id params.length)
      (KeepsParameters owner.id params.length false)
      (attempted (inferForm infer) owner (env.frames.inferred? owner.id))
      (attempted (inferForm infer') owner (env.frames.inferred? owner.id)) env := by
  refine .of_valid fun agrees => ?_
  have isNew := agrees.2.isNew notKnown
  have isNewInside : env.push.frames.inferred? owner.id = none ∨ params.length = 0 :=
    isNew.imp_left (FrameStack.inferred?_push env.frames owner.id).trans
  have outside :
      InferFollows (AgreesOn declared owner.id params.length)
        (KeepsParameters owner.id params.length false) nodes infer infer' :=
    fun expr isNode env =>
      (inferFollows expr isNode env).mono fun keeps => { keeps with recorded := nofun }
  refine attempted_follows ?_ fun {named left} _ ended => ?_
  · unfold inferForm
    rw [isFunction]
    refine .map (inferFunction_follows outside owner (fun _ => ?_) member)
    refine openParameters_keeps_own ?_ body.scope params
    exact isNewInside
  · refine .recordOwn fun consistent => ?_
    rcases isNew with isNew | noParams
    · -- Nothing was recorded before, so the type is the one that the rule gives.
      rw [isNew] at ended
      obtain ⟨inner, linkedEnded, rfl⟩ := Action.between_eq_ok.mp ended
      obtain ⟨_, middle, ruled, returned⟩ := Action.bind_eq_ok.mp linkedEnded
      cases returned
      unfold inferForm at ruled
      rw [isFunction] at ruled
      obtain ⟨ty, _, inferred, mapped⟩ := Action.bind_eq_ok.mp ruled
      cases mapped
      have shown := inferFunction_shows inferFollows member inferred isNewInside
        ⟨agrees.1, agrees.2.push.of_frames rfl rfl⟩
      exact shown.of_grows consistent (.of_frames rfl rfl) consistent fun _ => rfl
    · intro position isParam
      omega

variable (isFunction : owner.form = .function params body)
  (identified : ∀ node, nodes node → node.id = owner.id → node = owner)
  (closes : declared.Closes nodes)
include isFunction identified closes

/--
Wherever watching a function gives an answer, inference does the same, and the
parameters of the function still agree with its type.

By induction on the levels: only the function itself records its type and the types
of its parameters, and it does so in one pass, because no pass begins inside it.
-/
theorem watched_follows (levels : Nat) (inside : Bool) :
    InferFollows (AgreesOn declared owner.id params.length)
      (KeepsParameters owner.id params.length inside) nodes (watched owner.id levels inside)
      (within levels) := by
  induction levels generalizing inside with
  | zero => exact fun expr _ env => memoized_follows fun _ => .exhausted _
  | succ levels inductionHypothesis =>
      intro expr member env
      refine memoized_follows fun notKnown => ?_
      by_cases isOwner : expr.id = owner.id
      · obtain rfl := identified expr member isOwner
        cases inside with
        | true =>
            rw [attempted_congr (fun _ => Action.exhausted) (by simp [watchedForm])]
            exact .exhausted _
        | false =>
            have bodyMember : nodes body := by
              refine closes.child member ?_
              rw [isFunction]
              exact List.mem_singleton_self body
            rw [attempted_congr (inferForm (watched expr.id levels true)) (by simp [watchedForm])]
            exact attempted_own_follows isFunction (inductionHypothesis true) bodyMember notKnown
      · rw [attempted_congr (inferForm (watched owner.id levels inside))
          (by simp [watchedForm, isOwner])]
        refine attempted_follows (inferForm_follows (inductionHypothesis inside) closes
          (fun agrees => agrees.1) member ?_) fun _ _ => .recordInferred isOwner _ _
        exact fun _ _ => openParameters_keeps_other isOwner _ _ _

end Watching

end Inference

/-- The type of an expression, unless the function is entered while it is being inferred. -/
def inferWatched (function : ExprId) (expr : Expr) : Action InferError Ty := do
  let env ← Action.environment
  Inference.watched function (env.options.maxDepth - env.context.depth) false expr

/--
The generalized type of a variable that a scope declares, unless the function is
entered while it is being inferred.
-/
def inferDeclarationWatched (function : ExprId) (scope : ScopeId) (name : String) :
    Action InferError (Option Ty) := do
  let env ← Action.environment
  match env.declared.values.local? scope name with
  | some expr => some <$> Inference.inferDeclared (inferWatched function) scope name expr
  | none => pure none

/-! ## Requests to a program -/

/-- Something that a program is asked for. -/
inductive Request where
  | infer (expr : Expr)
  | inferDeclaration (scope : ScopeId) (name : String)

namespace Request

/-- The operation that a request is. -/
def operation : Request → Operation
  | .infer expr => .infer expr
  | .inferDeclaration scope name => .inferDeclaration scope name

/-- The expressions that come with a request. -/
def nodes : Request → List Expr
  | .infer expr => expr.nodes
  | .inferDeclaration _ _ => []

/-- The environment that a request leaves, if the function is not entered inside itself. -/
def watch (function : ExprId) : Request → Environment → Option Environment
  | .infer expr, env => (inferWatched function expr env).final?
  | .inferDeclaration scope name, env => (inferDeclarationWatched function scope name env).final?

/-- The environment that requests leave one after the other. -/
def watchAll (function : ExprId) : List Request → Environment → Option Environment
  | [], env => some env
  | request :: rest, env => (request.watch function env).bind (watchAll function rest)

end Request

section Requests

variable {declared : Declarations} {nodes : Expr → Prop} {env final : Environment}

/-- Watching a function does what inference does wherever it gives an answer. -/
theorem inferWatched_follows
    {owner body : Expr}
    {params : List Parameter}
    (isFunction : owner.form = .function params body)
    (identified : ∀ node, nodes node → node.id = owner.id → node = owner)
    (closes : declared.Closes nodes) :
    Inference.InferFollows (AgreesOn declared owner.id params.length)
      (KeepsParameters owner.id params.length false) nodes (inferWatched owner.id) infer :=
  fun expr member env => .bind_environment
    (Inference.watched_follows isFunction identified closes _ false expr member env)

variable {valid : Environment → Prop} {relation : Environment → Environment → Prop}
  [Permits valid relation] {watchedId : ExprId}
  (follows :
    Inference.InferFollows valid relation nodes (inferWatched watchedId) ShaderTyping.infer)
  (closes : declared.Closes nodes)
  (sameDeclared : ∀ {env}, valid env → env.declared = declared)
include follows closes sameDeclared

/-- Watching a declaration does what inference does wherever it gives an answer. -/
theorem inferDeclarationWatched_follows (scope : ScopeId) (name : String) :
    Follows valid relation (inferDeclarationWatched watchedId scope name)
      (inferDeclaration scope name) env := by
  refine .bind_environment (.of_valid fun isValid => ?_)
  cases isDeclared : env.declared.values.local? scope name with
  | none => exact .pure _
  | some expr =>
      rw [sameDeclared isValid] at isDeclared
      obtain ⟨declaration, isFound, rfl⟩ := Option.map_eq_some_iff.mp isDeclared
      have member := closes.value declaration (List.mem_of_find?_eq_some isFound)
      exact .map (Inference.inferDeclared_follows follows _ _ member)

/-- A watched request is performed as it is and leaves a valid environment. -/
theorem Request.perform_of_watch
    {request : Request}
    (members : ∀ node ∈ request.nodes, nodes node)
    (isValid : valid env)
    (watched : request.watch watchedId env = some final) :
    request.operation.perform env = some final ∧ valid final := by
  have performed {α : Type} {first second : Action InferError α}
      (follows : Follows valid relation first second env)
      (ended : (first env).final? = some final) :
      (second env).final? = some final ∧ valid final := by
    obtain ⟨same, obeys⟩ := follows isValid
    have answers : first env ≠ .exhausted := by
      intro isExhausted
      rw [isExhausted] at ended
      contradiction
    rw [same answers]
    exact ⟨ended, Permits.keeps (obeys final ended) isValid⟩
  cases request with
  | infer expr =>
      have member : nodes expr := by
        refine members expr ?_
        rw [Request.nodes, Expr.nodes_eq]
        exact List.mem_cons_self
      exact performed (follows expr member env) watched
  | inferDeclaration scope name =>
      exact performed (inferDeclarationWatched_follows follows closes sameDeclared scope name)
        watched

/-- Requests that are watched without meeting the function again are performed alike. -/
theorem Request.performAll_of_watchAll
    {requests : List Request}
    (members : ∀ request ∈ requests, ∀ node ∈ request.nodes, nodes node)
    (isValid : valid env)
    (watched : watchAll watchedId requests env = some final) :
    Operation.performAll (requests.map Request.operation) env = some final ∧ valid final := by
  induction requests generalizing env with
  | nil =>
      cases watched
      exact ⟨rfl, isValid⟩
  | cons request rest inductionHypothesis =>
      obtain ⟨requestMembers, restMembers⟩ := List.forall_mem_cons.mp members
      obtain ⟨middle, first, others⟩ := Option.bind_eq_some_iff.mp watched
      obtain ⟨performed, middleValid⟩ :=
        perform_of_watch follows closes sameDeclared requestMembers isValid first
      obtain ⟨performedRest, finalValid⟩ := inductionHypothesis restMembers middleValid others
      refine ⟨?_, finalValid⟩
      rw [List.map_cons, Operation.performAll, performed]
      exact performedRest

end Requests

/-- The expressions of declared variables and of requests are closed. -/
theorem Declarations.ListsFunctions.closes
    {declared : Declarations}
    (lists : declared.ListsFunctions)
    (requests : List Request) :
    declared.Closes (· ∈ declared.nodes ++ requests.flatMap Request.nodes) where
  child {expr child} member isChild := by
    rcases List.mem_append.mp member with isDeclared | isAsked
    · exact List.mem_append_left _ (Declarations.child_mem_nodes isDeclared isChild)
    · obtain ⟨request, isRequest, inRequest⟩ := List.mem_flatMap.mp isAsked
      cases request with
      | infer asked =>
          refine List.mem_append_right _ (List.mem_flatMap.mpr ⟨_, isRequest, ?_⟩)
          exact Expr.child_mem_nodes inRequest isChild
      | inferDeclaration scope name => contradiction
  value declaration isDeclared :=
    List.mem_append_left _ (Declarations.value_mem_nodes isDeclared)
  function function isListed := List.mem_append_left _ (lists function isListed)

/--
If a function is not entered while it is being inferred, its recorded parameter types
are those that its recorded type shows, after any requests to a declared program.
-/
theorem parameters_agree_of_not_reentered
    {options : Options}
    {declarations : List Operation}
    {env : Environment}
    (declares : ∀ operation ∈ declarations, operation.isDeclaration = true)
    (declared : Operation.performAll declarations (Environment.empty options) = some env)
    {requests : List Request}
    {function body : Expr}
    {params : List Parameter}
    (isFunction : function.form = .function params body)
    (identified :
      ∀ node ∈ env.declared.nodes ++ requests.flatMap Request.nodes,
        node.id = function.id → node = function)
    {final : Environment}
    (notReentered : Request.watchAll function.id requests env = some final) :
    Operation.performAll (requests.map Request.operation) env = some final ∧
      ∀ ty, final.frames.inferred? function.id = some ty →
        ∀ position < params.length,
          ∃ param,
            final.frames.parameter? function.id position = some param ∧
              (final.resolve ty).parameter? position = some (final.resolve param) := by
  have isDeclared := Environment.declared_of_operations declares declared
  have agrees : AgreesOn env.declared function.id params.length env := by
    refine ⟨rfl, ?_, ?_⟩
    · rw [isDeclared.frames]
      exact .empty
    · intro ty isRecorded
      rw [isDeclared.frames] at isRecorded
      cases isRecorded
  have members :
      ∀ request ∈ requests, ∀ node ∈ request.nodes,
        node ∈ env.declared.nodes ++ requests.flatMap Request.nodes :=
    fun request isRequest node inRequest =>
      List.mem_append_right _ (List.mem_flatMap.mpr ⟨request, isRequest, inRequest⟩)
  have closes := isDeclared.functions.closes requests
  obtain ⟨performed, _, finalAgree⟩ :=
    Request.performAll_of_watchAll (inferWatched_follows isFunction identified closes) closes
      (fun agrees => agrees.1) members agrees notReentered
  exact ⟨performed, fun ty isRecorded => finalAgree.shown isRecorded⟩

/-! ## A function inside another one -/

namespace NestedFunctions

open MutualCalls (node)

/-- `fn y -> x`, where `y` is declared in scope 3. -/
def inner : Expr :=
  node 2 2 (.function [⟨"y", none⟩] (node 4 3 (.reference "x")))

/-- `fn x -> fn y -> x`, where `x` is declared in scope 2. -/
def outer : Expr :=
  node 0 1 (.function [⟨"x", none⟩] inner)

/--
The program `f = fn x -> fn y -> x`.

Asked for `y` first, inference enters the inner function by itself.  Its body leads to
`x`, so the outer function is inferred, and with it the inner function once more.
-/
def operations : List Operation :=
  [.newScope .native,
    .newScope ⟨1⟩, .declareVariable ⟨2⟩ "x" (node 1 2 (.parameter ⟨0⟩ 0)),
    .newScope ⟨2⟩, .declareVariable ⟨3⟩ "y" (node 3 3 (.parameter ⟨2⟩ 0)),
    .declareVariable ⟨1⟩ "f" outer]

/-- The expressions of the declared program. -/
theorem exists_env :
    ∃ env,
      Operation.performAll operations (Environment.empty Options.standard) = some env ∧
        env.declared.nodes =
          [outer, inner, node 4 3 (.reference "x"), node 1 2 (.parameter ⟨0⟩ 0),
            node 3 3 (.parameter ⟨2⟩ 0)] := by
  have computed :
      (Operation.performAll operations (Environment.empty Options.standard)).map
          (fun env => env.declared.nodes) =
        some [outer, inner, node 4 3 (.reference "x"), node 1 2 (.parameter ⟨0⟩ 0),
          node 3 3 (.parameter ⟨2⟩ 0)] :=
    rfl
  exact Option.map_eq_some_iff.mp computed

/-- What is recorded of the inner function if its parameter is asked for first. -/
theorem reentered :
    ((Operation.performAll operations (Environment.empty Options.standard)).bind
        (Operation.performAll [.inferDeclaration ⟨3⟩ "y"])).map
      (fun final => (final.frames.inferred? inner.id, final.frames.parameter? inner.id 0,
        final.resolve (.function (.placeholder ⟨3⟩ ⟨1⟩) (.placeholder ⟨2⟩ ⟨5⟩)),
        final.resolve (.placeholder ⟨3⟩ ⟨4⟩))) =
      some
        (some (.function (.placeholder ⟨3⟩ ⟨1⟩) (.placeholder ⟨2⟩ ⟨5⟩)),
          some (.placeholder ⟨3⟩ ⟨4⟩),
          .function (.placeholder ⟨3⟩ ⟨1⟩) (.placeholder ⟨2⟩ ⟨5⟩), .parametric ⟨3⟩ ⟨1⟩) := by
  decide +kernel

/-- What is recorded of the inner function if the outer one is asked for first. -/
theorem notReentered :
    ((Operation.performAll operations (Environment.empty Options.standard)).bind
        (Request.watchAll inner.id [.inferDeclaration ⟨1⟩ "f", .inferDeclaration ⟨3⟩ "y"])).map
      (fun final => final.frames.inferred? inner.id) =
      some (some (.function (.placeholder ⟨3⟩ ⟨2⟩) (.placeholder ⟨2⟩ ⟨1⟩))) := by
  decide +kernel

end NestedFunctions

/-- A function that is entered while it is being inferred can have a type of another pass. -/
theorem parameters_disagree_if_reentered :
    ∃ (declarations : List Operation) (requests : List Request) (env final : Environment)
      (function body : Expr) (params : List Parameter) (ty : Ty),
      ((∀ operation ∈ declarations, operation.isDeclaration = true) ∧
        Operation.performAll declarations (Environment.empty Options.standard) = some env ∧
        env.exprIds.Nodup) ∧
      Operation.performAll (requests.map Request.operation) env = some final ∧
      (function ∈ env.declared.nodes ∧ function.form = .function params body ∧
        final.frames.inferred? function.id = some ty) ∧
      ∃ position < params.length,
        ¬ ∃ param,
          final.frames.parameter? function.id position = some param ∧
            (final.resolve ty).parameter? position = some (final.resolve param) := by
  obtain ⟨env, declared, nodes⟩ := NestedFunctions.exists_env
  have shown := NestedFunctions.reentered
  rw [declared] at shown
  obtain ⟨final, performed, recorded⟩ := Option.map_eq_some_iff.mp shown
  simp only [Prod.mk.injEq] at recorded
  obtain ⟨isInferred, isParameter, resolvedType, resolvedParameter⟩ := recorded
  have distinct : env.exprIds.Nodup := by
    have ids : env.exprIds = env.declared.nodes.map Expr.id := by
      rw [Environment.exprIds, Declarations.nodes, List.map_flatMap]
    rw [ids, nodes]
    decide
  refine ⟨_, [.inferDeclaration ⟨3⟩ "y"], env, final, NestedFunctions.inner, _, _, _,
    ⟨by decide, declared, distinct⟩, performed, ⟨by simp [nodes], rfl, isInferred⟩, 0,
    Nat.one_pos, ?_⟩
  rintro ⟨param, isRecorded, isShown⟩
  cases isParameter.symm.trans isRecorded
  rw [resolvedType, resolvedParameter] at isShown
  cases isShown

/-- In the same program the parameter agrees if the function around it is asked for first. -/
theorem parameters_agree_of_not_reentered_nestedFunctions :
    ∃ env final ty param,
      Operation.performAll NestedFunctions.operations (Environment.empty Options.standard) =
          some env ∧
        Operation.performAll [.inferDeclaration ⟨1⟩ "f", .inferDeclaration ⟨3⟩ "y"] env =
          some final ∧
        final.frames.inferred? NestedFunctions.inner.id = some ty ∧
        final.frames.parameter? NestedFunctions.inner.id 0 = some param ∧
        (final.resolve ty).parameter? 0 = some (final.resolve param) := by
  obtain ⟨env, declared, nodes⟩ := NestedFunctions.exists_env
  have shown := NestedFunctions.notReentered
  rw [declared] at shown
  obtain ⟨final, watched, isInferred⟩ := Option.map_eq_some_iff.mp shown
  have identified :
      ∀ node ∈ env.declared.nodes ++
          [Request.inferDeclaration ⟨1⟩ "f", .inferDeclaration ⟨3⟩ "y"].flatMap Request.nodes,
        node.id = NestedFunctions.inner.id → node = NestedFunctions.inner := by
    intro node member sameId
    simp only [nodes, Request.nodes, List.flatMap_cons, List.flatMap_nil, List.append_nil,
      List.mem_cons, List.not_mem_nil, or_false] at member
    rcases member with rfl | rfl | rfl | rfl | rfl
    · cases sameId
    · rfl
    · cases sameId
    · cases sameId
    · cases sameId
  obtain ⟨performed, agree⟩ :=
    parameters_agree_of_not_reentered (by decide) declared rfl identified watched
  obtain ⟨param, isRecorded, isShown⟩ := agree _ isInferred 0 Nat.one_pos
  exact ⟨env, final, _, param, declared, performed, isInferred, isRecorded, isShown⟩

end ShaderTyping
