import ShaderTyping.Proofs.AliasSearch
import ShaderTyping.Proofs.Endings
import ShaderTyping.Proofs.Nesting

namespace ShaderTyping

/-!
# Ground types

A type is ground if there is no placeholder and no length variable in it, nor in any
definition that it leads to.  The bindings of an environment say nothing about ground
types, so unifying two of them does the same whatever is bound: it comes to the same
outcome in an environment with other frames, and each environment keeps its frames
(`Action.IgnoresFrames`).
-/

namespace Ty

/-- There are no placeholders and no length variables in a type. -/
def Plain (ty : Ty) : Prop :=
  ∀ var ∈ ty.vars, var.isParametric = true

namespace Plain

/-- A placeholder is not plain. -/
theorem not_placeholder {scope : ScopeId} {id : PlaceholderId} :
    ¬ (Ty.placeholder scope id).Plain := by
  intro plain
  have := plain (.placeholder id) (List.mem_singleton_self _)
  contradiction

/-- A plain array has a plain component and a known length. -/
theorem array
    {component : Ty}
    {length : Length}
    (plain : (Ty.array component length).Plain) :
    component.Plain ∧ ∃ count, length = .known count := by
  simp only [Plain, vars, collect_array, List.mem_append] at plain
  refine ⟨fun var member => plain var (.inl member), ?_⟩
  cases length with
  | known count => exact ⟨count, rfl⟩
  | var id =>
      have := plain (.length id) (.inr (List.mem_singleton_self _))
      contradiction

/-- The fields of a plain struct are plain. -/
theorem struct
    {fields : List (String × Ty)}
    (plain : (Ty.struct fields).Plain)
    {field : String × Ty}
    (isField : field ∈ fields) :
    field.2.Plain := by
  intro var member
  refine plain var ?_
  rw [vars, collect_struct]
  exact List.mem_flatMap.mpr ⟨field, isField, member⟩

/-- The parameter and the result of a plain function are plain. -/
theorem function
    {param result : Ty}
    (plain : (Ty.function param result).Plain) :
    param.Plain ∧ result.Plain := by
  simp only [Plain, vars, collect_function, List.mem_append] at plain
  exact ⟨fun var member => plain var (.inl member), fun var member => plain var (.inr member)⟩

/-- The members of a plain overload set are plain. -/
theorem union
    {members : List Ty}
    (plain : (Ty.union members).Plain)
    {ty : Ty}
    (isMember : ty ∈ members) :
    ty.Plain := by
  intro var member
  refine plain var ?_
  rw [vars, collect_union]
  exact List.mem_flatMap.mpr ⟨ty, isMember, member⟩

/-- A substitution replaces references and parametric types only. -/
theorem subst_congr
    {first second : Substitution}
    (sameCount : ∀ count, first.length (.known count) = second.length (.known count))
    (sameNamed : ∀ scope name, first.named scope name = second.named scope name)
    (sameParametric : ∀ scope label, first.parametric scope label = second.parametric scope label)
    {ty : Ty}
    (plain : ty.Plain) :
    ty.subst first = ty.subst second := by
  induction ty using Ty.induction with
  | primitive kind => rfl
  | named scope name => exact sameNamed scope name
  | placeholder scope id => exact absurd plain not_placeholder
  | parametric scope label => exact sameParametric scope label
  | array component length inductionHypothesis =>
      obtain ⟨componentPlain, count, rfl⟩ := plain.array
      rw [subst_array, subst_array, inductionHypothesis componentPlain, sameCount]
  | struct fields inductionHypothesis =>
      rw [subst_struct, subst_struct]
      refine congrArg Ty.struct (List.map_congr_left fun field isField => ?_)
      rw [inductionHypothesis field isField (plain.struct isField)]
  | function param result paramHypothesis resultHypothesis =>
      obtain ⟨paramPlain, resultPlain⟩ := plain.function
      rw [subst_function, subst_function, paramHypothesis paramPlain,
        resultHypothesis resultPlain]
  | union members inductionHypothesis =>
      rw [subst_union, subst_union]
      have same := List.map_congr_left fun member isMember =>
        inductionHypothesis member isMember (plain.union isMember)
      rw [same]

end Plain

end Ty

namespace Environment

variable {env env' : Environment}

/-- A type has no placeholders and length variables, and neither has what it leads to. -/
structure Ground (env : Environment) (ty : Ty) : Prop where
  plain : ty.Plain
  definitions :
    ∀ {scope name key definition},
      env.Reaches ty (.named scope name) →
      env.definition? scope name = some (key, definition) →
      definition.Plain

namespace Ground

/-- A placeholder is not ground. -/
theorem not_placeholder {scope : ScopeId} {id : PlaceholderId} :
    ¬ env.Ground (.placeholder scope id) :=
  fun ground => Ty.Plain.not_placeholder ground.plain

/-- A ground type is no placeholder. -/
theorem isPlaceholder_eq_false
    {ty : Ty}
    (ground : env.Ground ty) :
    ty.isPlaceholder = false := by
  cases ty with
  | placeholder => exact absurd ground not_placeholder
  | _ => rfl

/-- A type whose leaves are leaves of a ground type is ground, if it is plain. -/
theorem of_leaves
    {whole part : Ty}
    (ground : env.Ground whole)
    (inside : part.leaves ⊆ whole.leaves)
    (plain : part.Plain) :
    env.Ground part where
  plain := plain
  definitions := by
    rintro scope name key definition ⟨leaf, isLeaf, path⟩ found
    exact ground.definitions ⟨leaf, inside isLeaf, path⟩ found

/-- The component of a ground array is ground. -/
theorem component
    {component : Ty}
    {length : Length}
    (ground : env.Ground (.array component length)) :
    env.Ground component :=
  ground.of_leaves (Ty.leaves_subset_of_mem_children (List.mem_singleton_self _))
    ground.plain.array.1

/-- The fields of a ground struct are ground. -/
theorem field
    {fields : List (String × Ty)}
    (ground : env.Ground (.struct fields))
    {field : String × Ty}
    (isField : field ∈ fields) :
    env.Ground field.2 :=
  ground.of_leaves (Ty.leaves_subset_of_mem_children (List.mem_map_of_mem isField))
    (ground.plain.struct isField)

/-- The parameter of a ground function is ground. -/
theorem param
    {param result : Ty}
    (ground : env.Ground (.function param result)) :
    env.Ground param :=
  ground.of_leaves (Ty.leaves_subset_of_mem_children List.mem_cons_self) ground.plain.function.1

/-- The result of a ground function is ground. -/
theorem result
    {param result : Ty}
    (ground : env.Ground (.function param result)) :
    env.Ground result :=
  ground.of_leaves
    (Ty.leaves_subset_of_mem_children (List.mem_cons_of_mem _ (List.mem_singleton_self _)))
    ground.plain.function.2

/-- What a ground type stands for is ground. -/
theorem standsFor?
    {leaf next : Ty}
    (ground : env.Ground leaf)
    (stands : env.standsFor? leaf = some next) :
    env.Ground next := by
  cases leaf with
  | placeholder scope id => exact absurd ground not_placeholder
  | named scope name =>
      obtain ⟨⟨key, definition⟩, found, same⟩ := Option.map_eq_some_iff.mp stands
      have isLeaf : .named scope name ∈ (Ty.named scope name).leaves := List.mem_singleton_self _
      cases same
      refine ⟨ground.definitions ⟨_, isLeaf, .refl⟩ found, fun reaches otherFound => ?_⟩
      exact ground.definitions (reaches.of_standsFor? isLeaf stands) otherFound
  | primitive | array | struct | function | union | parametric => contradiction

/-- The head of a ground type is ground. -/
theorem head
    {ty : Ty}
    (ground : env.Ground ty) :
    env.Ground (env.head ty) :=
  head_induction (motive := env.Ground) standsFor? ground

/-- Being ground depends on the declarations alone. -/
theorem congr
    (sameDeclared : env'.declared = env.declared)
    {ty : Ty}
    (ground : env.Ground ty) :
    env'.Ground ty := by
  refine ⟨ground.plain, ?_⟩
  rintro scope name key definition ⟨leaf, isLeaf, path⟩ found
  rw [definition?_congr sameDeclared] at found
  -- From leaf to leaf the path leads through definitions, which are ground in turn.
  have inside {leaf target : Ty} (path : Relation.ReflTransGen env'.LeadsTo leaf target) :
      ∀ {whole : Ty}, env.Ground whole → leaf ∈ whole.leaves → env.Reaches whole target := by
    induction path using Relation.ReflTransGen.head_induction_on with
    | refl => exact fun _ isLeaf => ⟨_, isLeaf, .refl⟩
    | @head leaf next step _ inductionHypothesis =>
        intro whole ground isLeaf
        obtain ⟨value, stands, isNext⟩ := step
        cases Ty.isLeaf_of_mem_leaves isLeaf with
        | primitive | parametric => contradiction
        | placeholder leafScope id =>
            have := ground.plain (.placeholder id)
              (Ty.mentions_iff_mem_leaves.mpr ⟨leafScope, isLeaf⟩)
            contradiction
        | named leafScope leafName =>
            have stands : env.standsFor? (.named leafScope leafName) = some value := by
              rwa [Environment.standsFor?, definition?_congr sameDeclared] at stands
            have groundLeaf : env.Ground (.named leafScope leafName) := by
              refine ground.of_leaves (fun other isOther => ?_) fun _ member => ?_
              · rw [Ty.leaves_named, List.mem_singleton] at isOther
                exact isOther ▸ isLeaf
              · exact absurd member List.not_mem_nil
            have reaches := inductionHypothesis (groundLeaf.standsFor? stands) isNext
            exact reaches.of_standsFor? isLeaf stands
  exact ground.definitions (inside path ground isLeaf) found

end Ground

/-! ## Other frames -/

/-- The environment with other frames. -/
def reframe (env : Environment) (frames : FrameStack) : Environment :=
  { env with frames := frames }

variable (frames : FrameStack)

/-- Other frames declare nothing. -/
@[simp] theorem declared_reframe : (env.reframe frames).declared = env.declared :=
  rfl

/-- An environment has its own frames. -/
theorem reframe_self : env.reframe env.frames = env :=
  rfl

/-- A step of unification is kept whatever the frames are. -/
theorem traceUnify_reframe (event : UnifyEvent) (left right : Operand) :
    (env.reframe frames).traceUnify event left right =
      (env.traceUnify event left right).reframe frames := by
  unfold traceUnify
  change (if env.options.trace then _ else _) = _
  split <;> rfl

namespace Ground

variable {ty : Ty}

/-- The head of a ground type depends on the declarations alone. -/
theorem head_congr
    (sameDeclared : env'.declared = env.declared)
    (ground : env.Ground ty) :
    env'.head ty = env.head ty := by
  have within (steps : Nat) (seen : List AliasKey) {ty : Ty} (ground : env.Ground ty) :
      env'.headWithin steps seen ty = env.headWithin steps seen ty := by
    induction steps generalizing seen ty with
    | zero =>
        have notPlaceholder := ground.isPlaceholder_eq_false
        rw [headWithin, headWithin, follow_eq_self notPlaceholder, follow_eq_self notPlaceholder]
    | succ steps inductionHypothesis =>
        have notPlaceholder := ground.isPlaceholder_eq_false
        rw [headWithin, headWithin, follow_eq_self notPlaceholder, follow_eq_self notPlaceholder]
        cases ty with
        | named scope name =>
            simp only [definition?_congr sameDeclared]
            cases found : env.definition? scope name with
            | none => rfl
            | some entry =>
                have stands : env.standsFor? (.named scope name) = some entry.2 := by
                  rw [Environment.standsFor?, found, Option.map_some]
                simp only [inductionHypothesis _ (ground.standsFor? stands)]
        | _ => rfl
  have sameCount : env'.aliasCount = env.aliasCount := by
    rw [aliasCount, sameDeclared, aliasCount]
  rw [Environment.head, Environment.head, sameCount]
  exact within env.aliasCount [] ground

/-- A ground type resolves alike whatever is bound. -/
theorem resolve_reframe (ground : env.Ground ty) :
    (env.reframe frames).resolve ty = env.resolve ty := by
  rw [resolve, resolve, resolveWithin, resolveWithin]
  refine Ty.Plain.subst_congr ?_ ?_ ?_ ground.plain
  · exact fun count => rfl
  · exact fun scope name => rfl
  · exact fun scope label => rfl

end Ground

end Environment

/-! ## Actions that ignore the frames -/

namespace Outcome

/-- The same outcome with other frames. -/
def reframe (frames : FrameStack) : Outcome ε α → Outcome ε α
  | .ok value env => .ok value (env.reframe frames)
  | .error cause env => .error cause (env.reframe frames)
  | .exhausted => .exhausted

end Outcome

namespace Action

variable {env : Environment}

/--
An action does the same with other frames, which it leaves as they are, and leaves the
declarations.
-/
structure IgnoresFrames (action : Action ε α) (env : Environment) : Prop where
  reframed : ∀ frames, action (env.reframe frames) = (action env).reframe frames
  declared : ∀ {value final}, action env = .ok value final → final.declared = env.declared

namespace IgnoresFrames

theorem pure (value : α) : IgnoresFrames (Pure.pure value : Action ε α) env where
  reframed _ := rfl
  declared ended := by
    cases ended
    rfl

theorem fail (cause : ε) : IgnoresFrames (Action.fail cause : Action ε α) env where
  reframed _ := rfl
  declared ended := by cases ended

theorem exhausted : IgnoresFrames (Action.exhausted : Action ε α) env where
  reframed _ := rfl
  declared ended := by cases ended

/-- Two actions in a row ignore the frames if both do, the second where the first one ends. -/
theorem bind_of_ok
    {first : Action ε α}
    {next : α → Action ε β}
    (firstIgnores : IgnoresFrames first env)
    (nextIgnores :
      ∀ {value middle}, first env = .ok value middle → IgnoresFrames (next value) middle) :
    IgnoresFrames (first >>= next) env where
  reframed frames := by
    have same := firstIgnores.reframed frames
    simp only [Bind.bind, Action.bind, same]
    cases ended : first env with
    | ok value middle => exact (nextIgnores ended).reframed frames
    | error cause middle => rfl
    | exhausted => rfl
  declared ended := by
    obtain ⟨value, middle, firstEnded, nextEnded⟩ := bind_eq_ok.mp ended
    exact ((nextIgnores firstEnded).declared nextEnded).trans (firstIgnores.declared firstEnded)

/--
Two actions in a row ignore the frames if the second one does in all environments with the same
declarations.
-/
theorem bind
    {first : Action ε α}
    {next : α → Action ε β}
    (firstIgnores : IgnoresFrames first env)
    (nextIgnores :
      ∀ {value middle}, middle.declared = env.declared → IgnoresFrames (next value) middle) :
    IgnoresFrames (first >>= next) env :=
  firstIgnores.bind_of_ok fun ended => nextIgnores (firstIgnores.declared ended)

/-- What an action reads from the environment must be the same with other frames. -/
theorem bind_environment
    {next : Environment → Action ε α}
    (same : ∀ frames, next (env.reframe frames) = next env)
    (nextIgnores : IgnoresFrames (next env) env) :
    IgnoresFrames (Action.environment >>= next) env where
  reframed frames := by
    rw [environment_bind, environment_bind, same]
    exact nextIgnores.reframed frames
  declared ended := nextIgnores.declared ended

/-- Going through a list ignores the frames if each item does. -/
theorem mapM
    {visit : α → Action ε β}
    {items : List α}
    (each :
      ∀ item ∈ items, ∀ {middle : Environment},
        middle.declared = env.declared →
        IgnoresFrames (visit item) middle) :
    IgnoresFrames (items.mapM visit) env := by
  induction items generalizing env with
  | nil => exact .pure []
  | cons item rest inductionHypothesis =>
      rw [List.mapM_cons]
      refine .bind (each item List.mem_cons_self rfl) fun before => ?_
      refine .bind (inductionHypothesis fun other isOther middle same => ?_) fun _ => .pure _
      exact each other (List.mem_cons_of_mem _ isOther) (same.trans before)

/-- What ignores the frames leaves them as they are. -/
theorem frames_eq
    {action : Action ε α}
    (ignores : IgnoresFrames action env)
    {final : Environment}
    (ended : (action env).final? = some final) :
    final.frames = env.frames := by
  have same := ignores.reframed env.frames
  rw [Environment.reframe_self] at same
  cases outcome : action env with
  | ok value left =>
      rw [outcome] at same ended
      simp only [Outcome.reframe, Outcome.ok.injEq, true_and] at same
      cases ended
      rw [same]
      rfl
  | error cause left =>
      rw [outcome] at same ended
      simp only [Outcome.reframe, Outcome.error.injEq, true_and] at same
      cases ended
      rw [same]
      rfl
  | exhausted =>
      rw [outcome] at ended
      contradiction

end IgnoresFrames

end Action

namespace Unification

open ShaderTyping.Action (IgnoresFrames)

variable {env : Environment} {recur : Ty → Ty → Action UnifyError Ty}

/-- Writing down a step of unification ignores the frames. -/
theorem note_ignoresFrames (event : UnifyEvent) (left right : Ty) :
    IgnoresFrames (note event left right : Action ε Unit) env where
  reframed frames := congrArg (Outcome.ok ()) (env.traceUnify_reframe frames event _ _)
  declared ended := by
    cases ended
    unfold Environment.traceUnify
    split <;> rfl

variable {left right : Ty}

/-- A mismatch of ground types shows them alike whatever is bound. -/
theorem mismatch_ignoresFrames
    (leftGround : env.Ground left)
    (rightGround : env.Ground right) :
    IgnoresFrames (mismatch left right : Action UnifyError α) env := by
  refine .bind (note_ignoresFrames _ _ _) fun same => .bind_environment (fun frames => ?_) (.fail _)
  rw [(leftGround.congr same).resolve_reframe, (rightGround.congr same).resolve_reframe]

/-- What a ground reference stands for is found whatever is bound. -/
theorem definition_ignoresFrames
    (leftGround : env.Ground left)
    (rightGround : env.Ground right) :
    IgnoresFrames (definition left right) env := by
  refine .bind_environment (fun frames => ?_) ?_
  · have sameDeclared : (env.reframe frames).declared = env.declared := rfl
    simp only [leftGround.head_congr sameDeclared, Environment.definition?_congr sameDeclared]
  · split
    · split
      · exact .fail _
      · exact mismatch_ignoresFrames leftGround rightGround
    · exact .pure _

/-- Unification of known lengths ignores the frames. -/
theorem unifyLength_ignoresFrames (count count' : Nat) :
    IgnoresFrames (unifyLength (.known count) (.known count')) env := by
  refine .bind_environment (fun frames => rfl) ?_
  dsimp only [Environment.resolveLength]
  split
  · exact .pure _
  · exact .fail _

/-- The recursion does the same with other frames on ground types. -/
def GroundOnly (recur : Ty → Ty → Action UnifyError Ty) : Prop :=
  ∀ {env : Environment} {left right : Ty},
    env.Ground left →
    env.Ground right →
    IgnoresFrames (recur left right) env

/-- Unification of the fields of ground structs ignores the frames if that of ground types does. -/
theorem meet_ignoresFrames
    (ignores : GroundOnly recur)
    {fields fields' : List (String × Ty)}
    (leftGround : env.Ground (.struct fields))
    (rightGround : env.Ground (.struct fields')) :
    IgnoresFrames (meet recur fields fields') env := by
  unfold meet
  split
  · refine .bind (note_ignoresFrames _ _ _) fun same =>
      .bind_environment (fun frames => ?_) (.fail _)
    rw [(leftGround.congr same).resolve_reframe, (rightGround.congr same).resolve_reframe]
  · refine .bind (note_ignoresFrames _ _ _) fun same => .bind (.mapM ?_) fun _ => .pure _
    rintro ⟨label, first, second⟩ isShared middle sameMiddle
    obtain ⟨inLeft, found⟩ := Ty.mem_sharedFields.mp isShared
    have inRight := mem_of_lookup found
    refine .bind (ignores ?_ ?_) fun _ => .pure _
    · exact (leftGround.field inLeft).congr (sameMiddle.trans same)
    · exact (rightGround.field inRight).congr (sameMiddle.trans same)

/-- One step of unification ignores the frames for ground types if unification of the parts does. -/
theorem step_ignoresFrames (ignores : GroundOnly recur) : GroundOnly (step recur) := by
  intro env left right leftGround rightGround
  unfold step
  split
  · exact .bind (note_ignoresFrames _ _ _) fun _ => .pure _
  split
  case h_1 => exact absurd leftGround Environment.Ground.not_placeholder
  case h_2 => exact absurd rightGround Environment.Ground.not_placeholder
  case h_3 =>
    refine (definition_ignoresFrames leftGround rightGround).bind_of_ok fun {found middle} ended => ?_
    obtain ⟨rfl, rfl⟩ := definition_ensures _ _ found middle ended
    refine .bind (note_ignoresFrames _ _ _) fun same => ?_
    exact ignores (leftGround.head.congr same) (rightGround.congr same)
  case h_4 =>
    refine (definition_ignoresFrames rightGround leftGround).bind_of_ok fun {found middle} ended => ?_
    obtain ⟨rfl, rfl⟩ := definition_ensures _ _ found middle ended
    refine .bind (note_ignoresFrames _ _ _) fun same => ?_
    exact ignores (leftGround.congr same) (rightGround.head.congr same)
  case h_5 component length component' length' _ =>
    obtain ⟨_, count, rfl⟩ := leftGround.plain.array
    obtain ⟨_, count', rfl⟩ := rightGround.plain.array
    refine .bind (note_ignoresFrames _ _ _) fun same => ?_
    refine .bind (ignores (leftGround.component.congr same) (rightGround.component.congr same))
      fun _ => ?_
    exact .bind (unifyLength_ignoresFrames count count') fun _ => .pure _
  case h_6 => exact meet_ignoresFrames ignores leftGround rightGround
  case h_7 =>
    refine .bind (note_ignoresFrames _ _ _) fun same => ?_
    refine .bind (ignores (leftGround.param.congr same) (rightGround.param.congr same))
      fun sameMiddle => ?_
    have same := sameMiddle.trans same
    exact .bind (ignores (leftGround.result.congr same) (rightGround.result.congr same))
      fun _ => .pure _
  case h_8 => exact .bind (note_ignoresFrames _ _ _) fun _ => .pure _
  case h_9 => exact .bind (note_ignoresFrames _ _ _) fun _ => .pure _
  case h_10 => exact mismatch_ignoresFrames leftGround rightGround

/-- Unification of ground types in any number of steps ignores the frames. -/
theorem within_ignoresFrames (steps : Nat) : GroundOnly (within steps) := by
  induction steps with
  | zero => exact fun _ _ => .exhausted
  | succ steps inductionHypothesis => exact step_ignoresFrames inductionHypothesis

end Unification

end ShaderTyping
