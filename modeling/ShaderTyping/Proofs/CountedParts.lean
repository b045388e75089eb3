import ShaderTyping.Proofs.ParameterTypes
import ShaderTyping.Proofs.ShownPrimitives
import ShaderTyping.Proofs.StableTypes

namespace ShaderTyping

/-!
# Positions and lengths are numbers

The position in an array access is checked against `int`, the length of a dynamic array against
`int` and then `uint`.  From the check on the recorded type of this part shows only primitives that
agree with those, whatever is bound later, so it stays a number as long as it stays recorded.  Two
things remain that the check does not exclude: unification widens, so the number may be a `float`,
and a part whose inference leads back to itself may record another type after the check.

`Inference.watched` serves for any expression: it gives no answer when the part is entered again
while it is being inferred.  The invariant is that the type of an array access is recorded only if
that of its position is a number (`Environment.CountsPart`), and likewise for dynamic arrays.
-/

open Environment (Run Permits QuietRun CalmRun KeepsKnown)
open ShaderTyping.Action (Obeys Follows)

/-- The part that counts elements of an array, with the primitives that it is checked against. -/
def Form.counted? : Form α → Option (α × List Primitive)
  | .index _ position => some (position, [.int])
  | .dynamicArray length _ => some (length, [.int, .uint])
  | _ => none

/-- A primitive without a fractional part. -/
def Primitive.IsInteger (kind : Primitive) : Prop :=
  kind = .int ∨ kind = .uint

/-- A counted part is checked against primitives without a fractional part. -/
theorem Form.isInteger_of_counted?
    {form : Form α}
    {part : α}
    {kinds : List Primitive}
    (counted : form.counted? = some (part, kinds)) :
    ∀ kind ∈ kinds, kind.IsInteger := by
  cases form with
  | index base position =>
      cases counted
      simp [Primitive.IsInteger]
  | dynamicArray length generator =>
      cases counted
      simp [Primitive.IsInteger]
  | _ => cases counted

/-- What agrees with a primitive without a fractional part is that primitive or a `float`. -/
theorem Primitive.AgreesWith.of_isInteger
    {kind shown : Primitive}
    (agrees : kind.AgreesWith shown)
    (isInteger : kind.IsInteger) :
    shown = kind ∨ shown = .float := by
  cases agrees with
  | same => exact Or.inl rfl
  | widened => exact Or.inr rfl
  | widening => rcases isInteger with isInt | isUint <;> contradiction

namespace Environment

variable {env later middle final inner : Environment} {id : ExprId} {kinds : List Primitive}
  {ty : Ty}

/-! ## Types of numbers -/

/--
The recorded type of an expression shows only primitives that agree with one of the given ones,
now and later.
-/
structure CountType (env : Environment) (kinds : List Primitive) (id : ExprId) (ty : Ty) : Prop where
  recorded : env.frames.inferred? id = some ty
  agrees :
    ∀ {later shown},
      env.Grows later → later.ShowsKind shown ty → ∃ kind ∈ kinds, kind.AgreesWith shown

namespace CountType

/-- The type of a number stays one in later environments that record it. -/
theorem of_grows
    (count : env.CountType kinds id ty)
    (grows : env.Grows later)
    (inferred : later.frames.inferred? id = env.frames.inferred? id) :
    later.CountType kinds id ty where
  recorded := inferred.trans count.recorded
  agrees laterGrows := count.agrees (grows.trans laterGrows)

/-- Recording the type of another expression leaves the type of a number. -/
theorem recordInferred
    {other : ExprId}
    (count : env.CountType kinds id ty)
    (isOther : other ≠ id)
    (recorded : Ty) :
    (env.recordInferred other recorded).CountType kinds id ty :=
  count.of_grows (.write rfl rfl) (inferred?_recordInferred_of_ne isOther env recorded)

/-- A commit leaves the type of a number. -/
theorem commit (count : env.CountType kinds id ty) : (env.finish true).CountType kinds id ty :=
  count.of_grows (.commit env) (inferred?_commit env id)

variable (integers : ∀ kind ∈ kinds, kind.IsInteger)
include integers

/-- A type that can show but some numbers is not an unbound placeholder. -/
theorem known
    (count : env.CountType kinds id ty)
    (consistent : env.frames.Consistent) :
    env.KnownType id ty where
  recorded := count.recorded
  isKnown := by
    have never : ∀ later, env.Grows later → ¬ later.ShowsKind .bool ty := by
      intro later grows shows
      obtain ⟨kind, isCounted, agrees⟩ := count.agrees grows shows
      rcases integers kind isCounted with rfl | rfl <;> cases agrees
    exact isUnbound_eq_false_of_shows consistent never

/-- What keeps a known type keeps the type of a number, which is known. -/
theorem keep
    (count : env.CountType kinds id ty)
    (consistent : env.frames.Consistent)
    (keeps : KeepsKnown id ty env final) :
    final.CountType kinds id ty where
  recorded := (keeps.known consistent (count.known integers consistent)).recorded
  agrees grows := count.agrees ((keeps.run.grows consistent).trans grows)

/-- What the type is expanded to is one of the given primitives, if it is one, or `float`. -/
theorem exists_expandedType?
    (count : env.CountType kinds id ty) :
    ∃ expanded,
      env.expandedType? id = some expanded ∧
        ∀ kind, expanded = .primitive kind → kind ∈ kinds ∨ kind = .float := by
  refine ⟨env.expand (env.resolve ty), ?_, fun kind isPrimitive => ?_⟩
  · rw [expandedType?, typeOf?, count.recorded]
    rfl
  · have shows : env.ShowsKind kind (env.expand (env.resolve ty)) := isPrimitive ▸ .primitive
    obtain ⟨counted, isCounted, agrees⟩ :=
      count.agrees (.refl env) (.of_resolve (.refl env) (.of_expand shows))
    rcases agrees.of_isInteger (integers counted isCounted) with rfl | isFloat
    · exact Or.inl isCounted
    · exact Or.inr isFloat

end CountType

/-! ## Parts of recorded expressions -/

/-- If the type of an expression is recorded, that of its counted part is the type of a number. -/
structure CountsPart
    (env : Environment)
    (whole part : ExprId)
    (kinds : List Primitive) : Prop where
  consistent : env.frames.Consistent
  counts : (env.frames.inferred? whole).isSome → ∃ ty, env.CountType kinds part ty

variable {whole part : ExprId}

namespace CountsPart

/-- A part keeps counting in later environments that record the same of it and of the whole. -/
theorem of_grows
    (counts : env.CountsPart whole part kinds)
    (grows : env.Grows later)
    (consistent : later.frames.Consistent)
    (sameWhole : later.frames.inferred? whole = env.frames.inferred? whole)
    (samePart : later.frames.inferred? part = env.frames.inferred? part) :
    later.CountsPart whole part kinds where
  consistent := consistent
  counts isRecorded := by
    obtain ⟨ty, count⟩ := counts.counts (sameWhole ▸ isRecorded)
    exact ⟨ty, count.of_grows grows samePart⟩

/-- Whether a part counts depends on the declarations and the frames only. -/
theorem of_frames
    (counts : env.CountsPart whole part kinds)
    (sameDeclared : later.declared = env.declared)
    (sameFrames : later.frames = env.frames) :
    later.CountsPart whole part kinds :=
  counts.of_grows (.of_frames sameDeclared sameFrames) (sameFrames ▸ counts.consistent)
    (by rw [sameFrames]) (by rw [sameFrames])

/-- A part counts in a new frame if it did before. -/
theorem push (counts : env.CountsPart whole part kinds) : env.push.CountsPart whole part kinds :=
  counts.of_grows (.push env) counts.consistent.push (FrameStack.inferred?_push env.frames whole)
    (FrameStack.inferred?_push env.frames part)

/-- A part counts after a commit if it did before. -/
theorem commit (counts : env.CountsPart whole part kinds) :
    (env.finish true).CountsPart whole part kinds :=
  counts.of_grows (.commit env) (consistent_finish counts.consistent true)
    (inferred?_commit env whole) (inferred?_commit env part)

end CountsPart

/-- The environment of a program of the given declarations. -/
def HasDeclared (declared : Declarations) (env : Environment) : Prop :=
  env.declared = declared

/-- Any run leads to an environment of the same program. -/
instance (declared : Declarations) : Permits (HasDeclared declared) Run where
  keeps run isValid := (Restored.of_run run).declared.trans isValid
  withContext _ isValid := isValid
  push isValid := isValid
  calm calm := calm.run
  insideFunction := .insideFunction _
  insideDeclaration := .insideDeclaration _
  deeper := .deeper
  transaction := .transaction

/-- A part counts in a program of the given declarations. -/
def CountsIn
    (declared : Declarations)
    (whole part : ExprId)
    (kinds : List Primitive)
    (env : Environment) : Prop :=
  env.declared = declared ∧ env.CountsPart whole part kinds

/--
A part counts after a run if it did before; a run inside the part also leaves the recorded type
of the part.
-/
structure KeepsCount
    (whole part : ExprId)
    (kinds : List Primitive)
    (inside : Bool)
    (env final : Environment) : Prop where
  run : Run env final
  counts : env.CountsPart whole part kinds → final.CountsPart whole part kinds
  recorded :
    inside = true →
    env.frames.Consistent →
    final.frames.inferred? part = env.frames.inferred? part

namespace KeepsCount

variable {inside : Bool}

/-- A quiet run records nothing, so a part counts after it if it did before. -/
theorem of_quiet (quiet : QuietRun env final) : KeepsCount whole part kinds inside env final where
  run := quiet.run
  counts counts :=
    counts.of_grows (quiet.run.grows counts.consistent) (quiet.run.consistent counts.consistent)
      (quiet.inferred whole) (quiet.inferred part)
  recorded _ _ := quiet.inferred part

theorem trans
    (first : KeepsCount whole part kinds inside env middle)
    (second : KeepsCount whole part kinds inside middle final) :
    KeepsCount whole part kinds inside env final where
  run := .trans first.run second.run
  counts counts := second.counts (first.counts counts)
  recorded isInside consistent :=
    (second.recorded isInside (first.run.consistent consistent)).trans
      (first.recorded isInside consistent)

/-- A transaction keeps count if what happens inside does: an abort leads back to the start. -/
theorem transaction
    (keeps : KeepsCount whole part kinds inside env.push inner)
    (keep : Bool) :
    KeepsCount whole part kinds inside env (inner.finish keep) := by
  have restored := Restored.of_run keeps.run
  cases keep with
  | false =>
      have sameFrames := restored.frames_of_failed
      exact
        { run := .transaction false keeps.run
          counts := fun counts => counts.of_frames (restored.transaction false).declared sameFrames
          recorded := fun _ _ => by rw [sameFrames] }
  | true =>
      refine ⟨.transaction true keeps.run, fun counts => (keeps.counts counts.push).commit, ?_⟩
      intro isInside consistent
      rw [inferred?_commit, keeps.recorded isInside consistent.push]
      exact FrameStack.inferred?_push env.frames part

/-- Keeping count is permitted in a program of the given declarations. -/
instance (declared : Declarations) :
    Permits (CountsIn declared whole part kinds) (KeepsCount whole part kinds inside) where
  refl env := of_quiet (.refl env)
  trans _ _ _ := trans
  keeps keeps isValid :=
    ⟨(Restored.of_run keeps.run).declared.trans isValid.1, keeps.counts isValid.2⟩
  withContext _ isValid := ⟨isValid.1, isValid.2.of_frames rfl rfl⟩
  push isValid := ⟨isValid.1, isValid.2.push⟩
  calm calm := of_quiet calm.toQuietRun
  insideFunction keeps :=
    { run := .insideFunction _ keeps.run
      counts := fun counts => (keeps.counts (counts.of_frames rfl rfl)).of_frames rfl rfl
      recorded := keeps.recorded }
  insideDeclaration notInProgress keeps :=
    { run := .insideDeclaration _ notInProgress keeps.run
      counts := fun counts => (keeps.counts (counts.of_frames rfl rfl)).of_frames rfl rfl
      recorded := keeps.recorded }
  deeper keeps :=
    { run := .deeper keeps.run
      counts := fun counts => (keeps.counts (counts.of_frames rfl rfl)).of_frames rfl rfl
      recorded := keeps.recorded }
  transaction keep keeps := keeps.transaction keep

/-- Recording a third expression keeps count. -/
theorem recordOther
    {other : ExprId}
    (notWhole : other ≠ whole)
    (notPart : other ≠ part)
    (env : Environment)
    (ty : Ty) :
    KeepsCount whole part kinds inside env (env.recordInferred other ty) where
  run := .recordInferred other ty
  counts counts :=
    counts.of_grows (.write rfl rfl) (counts.consistent.recordInferred other ty)
      (inferred?_recordInferred_of_ne notWhole env ty)
      (inferred?_recordInferred_of_ne notPart env ty)
  recorded _ _ := inferred?_recordInferred_of_ne notPart env ty

/-- Recording the expression itself, once its part has the type of a number. -/
theorem recordWhole
    (isOther : part ≠ whole)
    (count : env.frames.Consistent → ∃ ty, env.CountType kinds part ty)
    (ty : Ty) :
    KeepsCount whole part kinds inside env (env.recordInferred whole ty) where
  run := .recordInferred whole ty
  counts counts :=
    { consistent := counts.consistent.recordInferred whole ty
      counts := fun _ =>
        have ⟨partType, isCount⟩ := count counts.consistent
        ⟨partType, isCount.recordInferred isOther.symm ty⟩ }
  recorded _ _ := inferred?_recordInferred_of_ne isOther.symm env ty

/-- Recording the part again, if the new type shows nothing that the recorded one does not. -/
theorem recordPart
    (isOther : part ≠ whole)
    (ty : Ty)
    (showsLike :
      ∀ {previous},
        env.frames.Consistent →
        env.frames.inferred? part = some previous →
        ∀ {later shown}, env.Grows later → later.ShowsKind shown ty → later.ShowsLike shown previous) :
    KeepsCount whole part kinds false env (env.recordInferred part ty) := by
  have grows : env.Grows (env.recordInferred part ty) := .write rfl rfl
  refine
    { run := .recordInferred part ty
      counts := fun counts =>
        ⟨counts.consistent.recordInferred part ty, fun isRecorded => ⟨ty, ?_, ?_⟩⟩
      recorded := nofun }
  · exact (FrameStack.inferred?_recordInferred part ty env.frames part).trans (if_pos rfl)
  · intro later shown laterGrows shows
    rw [inferred?_recordInferred_of_ne isOther] at isRecorded
    obtain ⟨previous, count⟩ := counts.counts isRecorded
    have allGrows := grows.trans laterGrows
    obtain ⟨between, previousShows, agrees⟩ :=
      showsLike counts.consistent count.recorded allGrows shows
    obtain ⟨kind, isCounted, agreesBetween⟩ := count.agrees allGrows previousShows
    exact ⟨kind, isCounted, agreesBetween.trans agrees⟩

end KeepsCount

end Environment

open Environment (CountsIn HasDeclared KeepsCount)

namespace Inference

variable {env final : Environment} {kinds : List Primitive}

/-! ## The check of the counted part -/

/-- A way to infer types that records what it finds and keeps what is known. -/
structure Remembers (infer : Infer) : Prop where
  records :
    ∀ {expr env ty final},
      infer expr env = .ok ty final → final.frames.inferred? expr.id = some ty
  keeps : ∀ {id ty} expr env, Obeys (KeepsKnown id ty) (infer expr) env

/-- Inference in any number of levels records what it finds and keeps what is known. -/
theorem within_remembers (levels : Nat) : Remembers (within levels) where
  records := within_records
  keeps := within_obeysKeepsKnown levels

namespace Remembers

variable {infer : Infer} (remembers : Remembers infer)
include remembers

/-- What keeps known types is a run. -/
theorem runs (expr : Expr) (env : Environment) : Obeys Run (infer expr) env := fun final ended =>
  have keeps : KeepsKnown expr.id Ty.int env final := remembers.keeps expr env final ended
  keeps.run

/-- A fresh instance of an inferred type keeps known types. -/
theorem inferInstance_obeys
    {id : ExprId}
    {ty : Ty}
    (expr : Expr) :
    Obeys (KeepsKnown id ty) (inferInstance infer expr) env :=
  .bind (remembers.keeps expr env) fun _ => .ofState (.of_quiet (Environment.instantiate_run _ _))

/-- After a check of an instance of the type of a part, that type is the type of a number. -/
theorem exists_count
    {part : Expr}
    {checked : Ty}
    {middle left : Environment}
    (integers : ∀ kind ∈ kinds, kind.IsInteger)
    (consistent : env.frames.Consistent)
    (instantiated : inferInstance infer part env = .ok checked middle)
    (quiet : QuietRun middle left)
    (agrees :
      middle.frames.Consistent →
      ∀ {later shown},
        left.Grows later → later.ShowsKind shown checked → ∃ kind ∈ kinds, kind.AgreesWith shown)
    (keeps : ∀ {ty}, KeepsKnown part.id ty left final) :
    ∃ ty, final.CountType kinds part.id ty := by
  obtain ⟨ty, inferred, ended, isInstance⟩ := Action.bind_eq_ok.mp instantiated
  cases isInstance
  have kept : KeepsKnown part.id ty env inferred := (remembers.keeps part env).of_eq_ok ended
  have inferredConsistent := kept.run.consistent consistent
  have instances := Environment.instantiate_run ty inferred
  have allQuiet := instances.trans quiet
  have count : left.CountType kinds part.id ty :=
    { recorded := (allQuiet.inferred part.id).trans (remembers.records ended)
      agrees := fun grows shows =>
        agrees (instances.run.consistent inferredConsistent) grows
          (shows.instantiate inferredConsistent
            ((allQuiet.run.grows inferredConsistent).trans grows)) }
  exact ⟨ty, count.keep integers (allQuiet.run.consistent inferredConsistent) keeps⟩

/-- After the check of an array access its position has the type of a number. -/
theorem count_of_index
    {expr base position : Expr}
    {ty : Ty}
    (consistent : env.frames.Consistent)
    (ended : inferIndex infer expr base position env = .ok ty final) :
    ∃ positionType, final.CountType [.int] position.id positionType := by
  obtain ⟨_, middle, instantiated, afterPart⟩ := Action.bind_eq_ok.mp ended
  obtain ⟨_, left, check, rest⟩ := Action.bind_eq_ok.mp afterPart
  have unified := Action.mapError_eq_ok.mp check
  have calm := CalmRun.of_binds ((unify_binds _ _ _).of_eq_ok unified)
  refine remembers.exists_count (by simp [Primitive.IsInteger]) consistent instantiated
    calm.toQuietRun (fun middleConsistent _ _ grows shows => ?_) (Obeys.of_eq_ok ?_ rest)
  · exact ⟨.int, List.mem_singleton_self _,
      agreesWith_of_unify middleConsistent unified grows shows⟩
  · refine .bind (remembers.inferInstance_obeys base) fun _ => ?_
    refine .bind (.ofState (.of_quiet (.fresh 1 0 0))) fun _ => ?_
    refine .bind (.ofState (.of_quiet (.fresh 0 1 0))) fun _ => ?_
    refine .bind (.mapError fun _ ended => ?_) fun _ => ?_
    · exact .of_quiet (CalmRun.of_binds (unify_binds _ _ _ _ ended)).toQuietRun
    · exact .ofState (.of_quiet (Environment.generalize_run _ _))

/-- After the check of a dynamic array its length has the type of a number. -/
theorem count_of_dynamicArray
    {expr length generator : Expr}
    {ty : Ty}
    (consistent : env.frames.Consistent)
    (ended : inferDynamicArray infer expr length generator env = .ok ty final) :
    ∃ lengthType, final.CountType [.int, .uint] length.id lengthType := by
  have calm (first second ty : Ty) (env : Environment) :
      Obeys CalmRun (unifyEither first second ty) env :=
    unifyEither_obeys CalmRun.call first second ty
  obtain ⟨_, middle, instantiated, afterPart⟩ := Action.bind_eq_ok.mp ended
  obtain ⟨_, left, check, rest⟩ := Action.bind_eq_ok.mp afterPart
  have unified := Action.mapError_eq_ok.mp check
  refine remembers.exists_count (by simp [Primitive.IsInteger]) consistent instantiated
    ((calm _ _ _ _).of_eq_ok unified).toQuietRun (fun middleConsistent _ _ grows shows => ?_)
    (Obeys.of_eq_ok ?_ rest)
  · rcases agreesWith_of_unifyEither middleConsistent unified grows shows with agrees | agrees
    · exact ⟨.int, by simp, agrees⟩
    · exact ⟨.uint, by simp, agrees⟩
  · split
    · exact .fail _
    · refine .bind (remembers.inferInstance_obeys generator) fun _ => ?_
      refine .bind (.ofState (.of_quiet (.fresh 1 0 0))) fun _ => ?_
      refine .bind (.mapError fun _ ended => ?_) fun _ => ?_
      · exact .of_quiet (calm _ _ _ _ _ ended).toQuietRun
      · split
        · exact .pure _
        · exact .bind (.ofState (.of_quiet (.fresh 0 1 0))) fun _ => .pure _

/-- When an expression has got its type, its counted part has the type of a number. -/
theorem count_of_linked
    {expr part : Expr}
    {named : InferRule × Ty}
    {previous : Option Ty}
    (counted : expr.form.counted? = some (part, kinds))
    (consistent : env.frames.Consistent)
    (ended : deeper (linked (inferForm infer) expr previous) env = .ok named final) :
    ∃ ty, final.CountType kinds part.id ty := by
  obtain ⟨inner, inside, rfl⟩ := Action.between_eq_ok.mp ended
  obtain ⟨_, middle, ruled, linking⟩ := Action.bind_eq_ok.mp inside
  obtain ⟨ty, count⟩ : ∃ ty, middle.CountType kinds part.id ty := by
    unfold inferForm at ruled
    cases isForm : expr.form with
    | index base position =>
        rw [isForm] at counted ruled
        cases counted
        obtain ⟨_, _, indexed, returned⟩ := Action.bind_eq_ok.mp ruled
        cases returned
        exact remembers.count_of_index (by exact consistent) indexed
    | dynamicArray length generator =>
        rw [isForm] at counted ruled
        cases counted
        obtain ⟨_, _, made, returned⟩ := Action.bind_eq_ok.mp ruled
        cases returned
        exact remembers.count_of_dynamicArray (by exact consistent) made
    | _ =>
        rw [isForm] at counted
        cases counted
  have middleConsistent :=
    ((inferForm_run remembers.runs expr).of_eq_ok ruled).consistent consistent
  have calm : CalmRun middle inner := by
    refine Obeys.of_eq_ok ?_ linking
    cases previous with
    | some previous => exact .bind (.mapError (CalmRun.call.unify _ _ _)) fun _ => .pure _
    | none => exact .pure _
  exact ⟨ty, (count.of_grows (calm.run.grows middleConsistent) (calm.inferred part.id)).of_grows
    (.of_frames rfl rfl) rfl⟩

end Remembers

/-! ## Watching the counted part -/

/-- Wherever watching an expression gives an answer, inference does the same. -/
theorem watched_follows_within
    {declared : Declarations}
    (part : ExprId)
    (levels : Nat)
    (inside : Bool) :
    InferFollows (HasDeclared declared) Run (fun _ => True) (watched part levels inside)
      (within levels) := by
  have closes : declared.Closes fun _ => True :=
    ⟨fun _ _ => trivial, fun _ _ => trivial, fun _ _ => trivial⟩
  induction levels generalizing inside with
  | zero => exact fun expr _ env => memoized_follows fun _ => .exhausted _
  | succ levels inductionHypothesis =>
      intro expr _ env
      have ruleFollows (inside : Bool) (env : Environment) :
          Follows (HasDeclared declared) Run (inferForm (watched part levels inside) expr)
            (inferForm (within levels) expr) env :=
        inferForm_follows (inductionHypothesis inside) closes id trivial fun _ _ =>
          (openParameters_run _ _ _ _ _).run
      refine memoized_follows fun _ => attempted_follows ?_ fun _ _ => .recordInferred _ _
      unfold watchedForm
      split
      · split
        · exact .exhausted _
        · exact ruleFollows true _
      · exact ruleFollows inside _

/-- Watching a part does not change that inference records what it finds. -/
theorem watched_remembers (part : ExprId) (levels : Nat) (inside : Bool) :
    Remembers (watched part levels inside) := by
  have same {expr : Expr} {env : Environment}
      (answers : watched part levels inside expr env ≠ .exhausted) :
      within levels expr env = watched part levels inside expr env := by
    have follows :
        InferFollows (HasDeclared env.declared) Run (fun _ => True) (watched part levels inside)
          (within levels) :=
      watched_follows_within part levels inside
    exact (follows expr trivial env rfl).1 answers
  refine ⟨fun {expr env ty final} ended => ?_, fun expr env final ended => ?_⟩
  · have answers : watched part levels inside expr env ≠ .exhausted := by
      rw [ended]
      nofun
    exact (within_remembers levels).records ((same answers).trans ended)
  · have answers : watched part levels inside expr env ≠ .exhausted := by
      intro isExhausted
      rw [isExhausted] at ended
      contradiction
    rw [← same answers] at ended
    exact (within_remembers levels).keeps expr env final ended

section Watching

variable {declared : Declarations} {nodes : Expr → Prop} {whole part : Expr}
  (isOther : part.id ≠ whole.id)
  (closes : declared.Closes nodes)
include isOther closes

/-- A part whose inference does not lead back to it keeps the type of a number. -/
theorem attempted_part_follows
    {infer infer' : Infer}
    {node : Expr}
    (inferFollows :
      InferFollows (CountsIn declared whole.id part.id kinds)
        (KeepsCount whole.id part.id kinds true) nodes infer infer')
    (member : nodes node)
    (isPart : node.id = part.id) :
    Follows (CountsIn declared whole.id part.id kinds) (KeepsCount whole.id part.id kinds false)
      (attempted (inferForm infer) node (env.frames.inferred? node.id))
      (attempted (inferForm infer') node (env.frames.inferred? node.id)) env := by
  have ruleFollows (env : Environment) :
      Follows (CountsIn declared whole.id part.id kinds) (KeepsCount whole.id part.id kinds true)
        (inferForm infer node) (inferForm infer' node) env :=
    inferForm_follows inferFollows closes (fun isValid => isValid.1) member fun _ _ =>
      .of_quiet (openParameters_run _ _ _ _ _)
  refine attempted_follows ((ruleFollows _).mono fun keeps => { keeps with recorded := nofun })
    fun {named left} isValid ended => ?_
  rw [isPart]
  refine .recordPart isOther named.2 fun {previous} leftConsistent recorded later _ grows shows => ?_
  have pushed : CountsIn declared whole.id part.id kinds env.push := ⟨isValid.1, isValid.2.push⟩
  have entered :
      CountsIn declared whole.id part.id kinds
        { env.push with context.depth := env.push.context.depth + 1 } :=
    Permits.withContext (KeepsCount whole.id part.id kinds true) _ pushed
  -- nothing inside has recorded the part, so it was recorded before as it is now
  have isPrevious : env.frames.inferred? node.id = some previous := by
    have keeps : KeepsCount whole.id part.id kinds true env.push left := by
      refine Obeys.of_eq_ok ?_ ended
      exact .between ((linked_follows (ruleFollows _) _) entered).2
        (Permits.deeper (CountsIn declared whole.id part.id kinds))
    have same := keeps.recorded rfl pushed.2.consistent
    rw [isPart, ← FrameStack.inferred?_push env.frames part.id, ← recorded]
    exact same.symm
  rw [isPrevious] at ended
  obtain ⟨inner, linking, rfl⟩ := Action.between_eq_ok.mp ended
  obtain ⟨_, middle, ruled, unifying⟩ := Action.bind_eq_ok.mp linking
  obtain ⟨_, _, unified, returned⟩ := Action.bind_eq_ok.mp unifying
  cases returned
  have middleConsistent :=
    (((ruleFollows _) entered).2.of_eq_ok ruled).run.consistent entered.2.consistent
  have innerGrows : inner.Grows later := { grows with }
  exact showsLike_of_unify middleConsistent (Action.mapError_eq_ok.mp unified) innerGrows shows

variable (counted : whole.form.counted? = some (part, kinds))
  (identified : ∀ node, nodes node → node.id = whole.id → node = whole)
include counted identified

/--
Wherever watching the part gives an answer, inference does the same, and the part still counts.

By induction on the levels: the expression is recorded only after the check of its part, and a
part that is recorded again keeps the type of a number.
-/
theorem watched_follows_count (levels : Nat) (inside : Bool) :
    InferFollows (CountsIn declared whole.id part.id kinds)
      (KeepsCount whole.id part.id kinds inside) nodes (watched part.id levels inside)
      (within levels) := by
  induction levels generalizing inside with
  | zero => exact fun expr _ env => memoized_follows fun _ => .exhausted _
  | succ levels inductionHypothesis =>
      intro expr member env
      refine memoized_follows fun _ => ?_
      by_cases isPart : expr.id = part.id
      · cases inside with
        | true =>
            rw [attempted_congr (fun _ => Action.exhausted) (by simp [watchedForm, isPart])]
            exact .exhausted _
        | false =>
            rw [attempted_congr (inferForm (watched part.id levels true))
              (by simp [watchedForm, isPart])]
            exact attempted_part_follows isOther closes (inductionHypothesis true) member isPart
      · rw [attempted_congr (inferForm (watched part.id levels inside))
          (by simp [watchedForm, isPart])]
        refine attempted_follows (inferForm_follows (inductionHypothesis inside) closes
          (fun isValid => isValid.1) member fun _ _ => .of_quiet (openParameters_run _ _ _ _ _))
          fun isValid ended => ?_
        by_cases isWhole : expr.id = whole.id
        · obtain rfl := identified expr member isWhole
          refine .recordWhole isOther (fun _ => ?_) _
          exact (watched_remembers part.id levels inside).count_of_linked counted
            isValid.2.consistent.push ended
        · exact .recordOther isWhole isPart _ _

end Watching

/-- An attempt gives the counted part the type of a number. -/
theorem count_of_attempted
    {infer : Infer}
    {expr part : Expr}
    {previous : Option Ty}
    {ty : Ty}
    (remembers : Remembers infer)
    (counted : expr.form.counted? = some (part, kinds))
    (isOther : part.id ≠ expr.id)
    (consistent : env.frames.Consistent)
    (ended : attempted (inferForm infer) expr previous env = .ok ty final) :
    ∃ partType, final.CountType kinds part.id partType := by
  obtain ⟨_, _, transacted, tracing⟩ := Action.bind_eq_ok.mp ended
  obtain ⟨_, _, isTraced, isValue⟩ := Action.bind_eq_ok.mp tracing
  cases isTraced
  cases isValue
  obtain ⟨inner, inside, rfl⟩ := Action.transaction_eq_ok.mp transacted
  obtain ⟨⟨_, recorded⟩, left, linking, recording⟩ := Action.bind_eq_ok.mp inside
  obtain ⟨_, _, isRecorded, isValue⟩ := Action.bind_eq_ok.mp recording
  cases isRecorded
  cases isValue
  obtain ⟨partType, count⟩ := remembers.count_of_linked counted consistent.push linking
  refine ⟨partType, (count.recordInferred isOther.symm recorded).commit.of_grows ?_ ?_⟩
  · exact .of_frames (Environment.declared_traceInfer _ _ _ _)
      (Environment.frames_traceInfer _ _ _ _)
  · rw [Environment.frames_traceInfer]

end Inference

/--
After inference of an expression its counted part has the type of a number, unless the
expression was known and the part was none.
-/
theorem count_of_infer
    {env final : Environment}
    {expr part : Expr}
    {kinds : List Primitive}
    {ty : Ty}
    (counted : expr.form.counted? = some (part, kinds))
    (isOther : part.id ≠ expr.id)
    (consistent : env.frames.Consistent)
    (counts :
      ∀ {recorded}, env.KnownType expr.id recorded → ∃ ty, env.CountType kinds part.id ty)
    (ended : infer expr env = .ok ty final) :
    ∃ partType, final.CountType kinds part.id partType := by
  change Inference.within (env.options.maxDepth - env.context.depth) expr env = .ok ty final at ended
  cases levels : env.options.maxDepth - env.context.depth with
  | zero =>
      rw [levels] at ended
      rcases Inference.memoized_eq_ok ended with ⟨recorded, isKnown, rfl⟩ | attempted
      · exact counts ⟨recorded, isKnown⟩
      · cases attempted
  | succ levels' =>
      rw [levels] at ended
      rcases Inference.memoized_eq_ok ended with ⟨recorded, isKnown, rfl⟩ | attempted
      · exact counts ⟨recorded, isKnown⟩
      · exact Inference.count_of_attempted (Inference.within_remembers levels') counted isOther
          consistent attempted

/-- Requests that do not enter the part inside itself leave the part counting. -/
theorem countsIn_of_watchAll
    {env final : Environment}
    {expr part : Expr}
    {kinds : List Primitive}
    {requests : List Request}
    (reachable : env.Reachable)
    (isNew : env.frames.inferred? expr.id = none)
    (counted : expr.form.counted? = some (part, kinds))
    (isOther : part.id ≠ expr.id)
    (identified :
      ∀ node ∈ env.declared.nodes ++ requests.flatMap Request.nodes,
        node.id = expr.id → node = expr)
    (notReentered : Request.watchAll part.id requests env = some final) :
    Operation.performAll (requests.map Request.operation) env = some final ∧
      CountsIn env.declared expr.id part.id kinds final := by
  have closes := reachable.listsFunctions.closes requests
  have counts : CountsIn env.declared expr.id part.id kinds env := by
    refine ⟨rfl, reachable.consistent, fun isRecorded => ?_⟩
    rw [isNew] at isRecorded
    contradiction
  have members :
      ∀ request ∈ requests, ∀ node ∈ request.nodes,
        node ∈ env.declared.nodes ++ requests.flatMap Request.nodes :=
    fun request isRequest node inRequest =>
      List.mem_append_right _ (List.mem_flatMap.mpr ⟨request, isRequest, inRequest⟩)
  have follows :
      Inference.InferFollows (CountsIn env.declared expr.id part.id kinds)
        (KeepsCount expr.id part.id kinds false)
        (· ∈ env.declared.nodes ++ requests.flatMap Request.nodes) (inferWatched part.id) infer :=
    fun node member env => .bind_environment
      (Inference.watched_follows_count isOther closes counted identified _ false node member env)
  exact Request.performAll_of_watchAll follows closes (fun isValid => isValid.1) members counts
    notReentered

/-- Nothing is known of an expression where some requests and then the question for it start. -/
inductive NotKnownBefore (env : Environment) (expr : Expr) : List Request → Prop where
  /-- No type is recorded of it; any requests may follow. -/
  | notRecorded {requests : List Request} :
      env.frames.inferred? expr.id = none → NotKnownBefore env expr requests
  /-- An unbound placeholder is recorded of it, and the question follows at once. -/
  | unbound {recorded : Ty} :
      env.frames.inferred? expr.id = some recorded →
      env.isUnbound recorded = true →
      NotKnownBefore env expr []

/--
The position of an array access and the length of a dynamic array are numbers.

Start where nothing is known of the expression, and let requests be made in which its counted
part is not entered while it is being inferred.  If inference then gives the expression a type,
whether that was recorded meanwhile or not, the type of the part is recorded, and if it is expanded
to a primitive, that is `int` for a position and `int` or `uint` for a length, or else `float`.
-/
theorem counted_parts_are_numbers
    {env final last : Environment}
    {expr part : Expr}
    {kinds : List Primitive}
    {requests : List Request}
    {ty : Ty}
    (reachable : env.Reachable)
    (unknown : NotKnownBefore env expr requests)
    (counted : expr.form.counted? = some (part, kinds))
    (isOther : part.id ≠ expr.id)
    (identified :
      ∀ node ∈ env.declared.nodes ++ requests.flatMap Request.nodes,
        node.id = expr.id → node = expr)
    (notReentered : Request.watchAll part.id requests env = some final)
    (answered : infer expr final = .ok ty last) :
    Operation.performAll (requests.map Request.operation) env = some final ∧
      ∃ partType,
        last.expandedType? part.id = some partType ∧
          ∀ kind, partType = .primitive kind → kind ∈ kinds ∨ kind = .float := by
  have integers := Form.isInteger_of_counted? counted
  cases unknown with
  | notRecorded isNew =>
      obtain ⟨performed, _, finalCounts⟩ :=
        countsIn_of_watchAll reachable isNew counted isOther identified notReentered
      obtain ⟨_, count⟩ := count_of_infer counted isOther finalCounts.consistent
        (fun known => finalCounts.counts (known.recorded ▸ rfl)) answered
      exact ⟨performed, count.exists_expandedType? integers⟩
  | unbound isRecorded unbound =>
      cases notReentered
      have notKnown {known : Ty} (isKnown : env.KnownType expr.id known) :
          ∃ ty, env.CountType kinds part.id ty := by
        cases isRecorded.symm.trans isKnown.recorded
        cases unbound.symm.trans isKnown.isKnown
      obtain ⟨_, count⟩ := count_of_infer counted isOther reachable.consistent notKnown answered
      exact ⟨rfl, count.exists_expandedType? integers⟩

/-! ## A position from outside -/

namespace OutsidePosition

open MutualCalls (node)

/-- An array with one element. -/
def base : Expr :=
  node 1 1 (.array [node 0 1 (.literal (.int 1))])

/-- An outside value without a written type. -/
def position : Expr :=
  node 2 1 (.external .uniform "u" none)

/-- The access of the array at a position from outside. -/
def access : Expr :=
  node 3 1 (.index base position)

/-- The program `x = [1][uniform u]`. -/
def operations : List Operation :=
  [.newScope .native, .declareVariable ⟨1⟩ "x" access]

/-- The program declares these expressions, and nothing is recorded of them yet. -/
theorem exists_env :
    ∃ env,
      Operation.performAll operations (Environment.empty Options.standard) = some env ∧
        env.declared.nodes = [access, base, node 0 1 (.literal (.int 1)), position] ∧
        env.frames = FrameStack.empty := by
  have computed :
      (Operation.performAll operations (Environment.empty Options.standard)).map
          (fun env => (env.declared.nodes, env.frames)) =
        some ([access, base, node 0 1 (.literal (.int 1)), position], FrameStack.empty) :=
    rfl
  obtain ⟨env, declared, shown⟩ := Option.map_eq_some_iff.mp computed
  exact ⟨env, declared, congrArg Prod.fst shown, congrArg Prod.snd shown⟩

/-- What is found if the access is asked for after the declaration around it. -/
theorem answers :
    ((Operation.performAll operations (Environment.empty Options.standard)).bind
        (Request.watchAll position.id [.inferDeclaration ⟨1⟩ "x"])).map
      (fun final =>
        (final.frames.inferred? access.id, (infer access final).value?,
          (infer access final).final?.bind fun last => last.expandedType? position.id)) =
      some (some Ty.int, some Ty.int, some Ty.int) := by
  decide +kernel

end OutsidePosition

/-- An outside value that is used as a position has the type `int` from then on. -/
theorem counted_parts_are_numbers_outside :
    ∃ env final last ty partType,
      Operation.performAll OutsidePosition.operations (Environment.empty Options.standard) =
          some env ∧
        Operation.performAll [.inferDeclaration ⟨1⟩ "x"] env = some final ∧
        infer OutsidePosition.access final = .ok ty last ∧
        last.expandedType? OutsidePosition.position.id = some partType ∧
        partType = Ty.int ∧
        ∀ kind, partType = .primitive kind → kind ∈ [Primitive.int] ∨ kind = .float := by
  obtain ⟨env, declared, nodes, frames⟩ := OutsidePosition.exists_env
  have shown := OutsidePosition.answers
  rw [declared] at shown
  obtain ⟨final, watched, isShown⟩ := Option.map_eq_some_iff.mp shown
  simp only [Prod.mk.injEq] at isShown
  obtain ⟨_, hasValue, isInt⟩ := isShown
  obtain ⟨last, answered⟩ := Outcome.eq_ok_of_value? hasValue
  rw [answered] at isInt
  have unknown :
      NotKnownBefore env OutsidePosition.access [.inferDeclaration ⟨1⟩ "x"] :=
    .notRecorded (by rw [frames]; rfl)
  have identified :
      ∀ node ∈ env.declared.nodes ++
          [Request.inferDeclaration ⟨1⟩ "x"].flatMap Request.nodes,
        node.id = OutsidePosition.access.id → node = OutsidePosition.access := by
    intro node member sameId
    simp only [nodes, Request.nodes, List.flatMap_cons, List.flatMap_nil, List.append_nil,
      List.mem_cons, List.not_mem_nil, or_false] at member
    rcases member with rfl | rfl | rfl | rfl
    · rfl
    · cases sameId
    · cases sameId
    · cases sameId
  obtain ⟨performed, partType, isPart, isNumber⟩ :=
    counted_parts_are_numbers ⟨_, _, declared⟩ unknown rfl (by decide) identified watched answered
  have same : partType = Ty.int := Option.some.inj (isPart.symm.trans isInt)
  exact ⟨env, final, last, _, partType, declared, performed, answered, isPart, same, isNumber⟩

/-! ## What the checks let pass -/

namespace FloatCounts

open MutualCalls (node)

/-- `[1][1.5]` -/
def access : Expr :=
  node 3 0 (.index (node 1 0 (.array [node 0 0 (.literal (.int 1))]))
    (node 2 0 (.literal (.float 1.5))))

/-- An array of length `1.5` with the generator `fn i -> true`. -/
def array : Expr :=
  node 3 0 (.dynamicArray (node 0 0 (.literal (.float 1.5)))
    (node 2 0 (.function [⟨"i", none⟩] (node 1 0 (.literal (.bool true))))))

/-- In the empty environment an expression gets a type, and its counted part is a `float`. -/
def Accepted (expr : Expr) : Prop :=
  ∃ part kinds ty final,
    expr.form.counted? = some (part, kinds) ∧
      infer expr (Environment.empty Options.standard) = .ok ty final ∧
      final.expandedType? part.id = some (.primitive .float) ∧
      Primitive.float ∉ kinds

/-- What is computed of an expression shows that it is accepted with a `float` for a count. -/
theorem accepted_of_computed
    {expr part : Expr}
    {kinds : List Primitive}
    {ty : Ty}
    (counted : expr.form.counted? = some (part, kinds))
    (notCounted : Primitive.float ∉ kinds)
    (computed :
      ((infer expr (Environment.empty Options.standard)).value?,
          (infer expr (Environment.empty Options.standard)).final?.bind
            fun final => final.expandedType? part.id) =
        (some ty, some Ty.float)) :
    Accepted expr := by
  rw [Prod.mk.injEq] at computed
  obtain ⟨hasValue, isFloat⟩ := computed
  obtain ⟨final, ended⟩ := Outcome.eq_ok_of_value? hasValue
  rw [ended] at isFloat
  exact ⟨part, kinds, ty, final, counted, ended, isFloat, notCounted⟩

end FloatCounts

/-- A position and a length can have the type `float`, which widening makes fit. -/
theorem float_counts_accepted :
    FloatCounts.Accepted FloatCounts.access ∧ FloatCounts.Accepted FloatCounts.array := by
  constructor
  · have computed :
        ((infer FloatCounts.access (Environment.empty Options.standard)).value?,
            (infer FloatCounts.access (Environment.empty Options.standard)).final?.bind
              fun final => final.expandedType? ⟨2⟩) =
          (some Ty.int, some Ty.float) := by
      decide +kernel
    exact FloatCounts.accepted_of_computed rfl (by decide) computed
  · have computed :
        ((infer FloatCounts.array (Environment.empty Options.standard)).value?,
            (infer FloatCounts.array (Environment.empty Options.standard)).final?.bind
              fun final => final.expandedType? ⟨0⟩) =
          (some (.array (.placeholder ⟨0⟩ ⟨1⟩) (.var ⟨0⟩)), some Ty.float) := by
      decide +kernel
    exact FloatCounts.accepted_of_computed rfl (by decide) computed

/-! ## A position that leads back to itself -/

namespace ReenteredPosition

open MutualCalls (node)

/-- A built-in value of type `((float | bool) -> bool) | ('a -> int)`. -/
def overloads : Expr :=
  node 0 1 (.native
    (.union
      [.function (.union [Ty.float, Ty.bool]) Ty.bool,
        .function (.parametric ⟨0⟩ ⟨0⟩) Ty.int]))

/-- The overload set of `[1, d][0]` and `true`. -/
def argument : Expr :=
  node 9 1 (.union
    [node 7 1 (.index
        (node 5 1 (.array [node 3 1 (.literal (.int 1)), node 4 1 (.reference "d")]))
        (node 6 1 (.literal (.int 0)))),
      node 8 1 (.literal (.bool true))])

/-- The position: a call of the built-in value with the overload set. -/
def position : Expr :=
  node 10 1 (.call overloads [argument])

/-- The access that is entered once more while its position is being inferred. -/
def access : Expr :=
  node 13 1 (.index (node 12 1 (.array [node 11 1 (.literal (.int 1))])) position)

/--
The program `d = { p: 1.5, q: [1][position] }.p`.

The position refers to `d`, so inferring it enters the access and the position once more.  Inside,
`d` has no type yet and the position is an `int`; outside, `d` is a `float` and the position a
`bool`, which is recorded last.
-/
def operations : List Operation :=
  [.newScope .native,
    .declareVariable ⟨1⟩ "d"
      (node 16 1 (.field
        (node 15 1 (.struct [("p", node 14 1 (.literal (.float 1.5))), ("q", access)])) "p"))]

end ReenteredPosition

/-- If the position is entered again while it is being inferred, it can end up as a `bool`. -/
theorem position_is_bool_if_reentered :
    ∃ final last,
      Operation.performAll (ReenteredPosition.operations ++ [.infer ReenteredPosition.position])
          (Environment.empty Options.standard) =
        some final ∧
      infer ReenteredPosition.access final = .ok Ty.int last ∧
      last.expandedType? ReenteredPosition.position.id = some Ty.bool := by
  have computed :
      (Operation.performAll (ReenteredPosition.operations ++ [.infer ReenteredPosition.position])
          (Environment.empty Options.standard)).map
        (fun final =>
          ((infer ReenteredPosition.access final).value?,
            (infer ReenteredPosition.access final).final?.bind
              fun last => last.expandedType? ReenteredPosition.position.id)) =
        some (some Ty.int, some Ty.bool) := by
    decide +kernel
  obtain ⟨final, performed, shown⟩ := Option.map_eq_some_iff.mp computed
  rw [Prod.mk.injEq] at shown
  obtain ⟨hasValue, isBool⟩ := shown
  obtain ⟨last, answered⟩ := Outcome.eq_ok_of_value? hasValue
  rw [answered] at isBool
  exact ⟨final, last, performed, answered, isBool⟩

end ShaderTyping
