import ShaderTyping.Proofs.GroundTypes

namespace ShaderTyping

/-!
# Unification of ground types in either order

Unifying two ground types comes to an answer as soon as no declared type refers to
itself.  The two orders take different ways, since the reference on the left is expanded
first and nothing is looked at any more once the two sides are the same; but they come to
the same type, or both to a failure.
-/

namespace Environment

variable {env : Environment}

/-- No declared type refers to itself through definitions. -/
def AliasesAcyclic (env : Environment) : Prop :=
  ∀ key, ¬ Relation.TransGen env.RefersTo key key

/-- The definitions of declared types list the fields of structs in label order. -/
def DefinesOrdered (env : Environment) : Prop :=
  ∀ {scope name key definition},
    env.definition? scope name = some (key, definition) → definition.Ordered

/-- Whether definitions are in label order depends on the declarations only. -/
theorem DefinesOrdered.congr
    {env' : Environment}
    (same : env'.declared = env.declared)
    (defines : env.DefinesOrdered) :
    env'.DefinesOrdered := by
  intro scope name key definition found
  rw [definition?_congr same] at found
  exact defines found

/-- Without bindings only references lead anywhere. -/
theorem AliasesAcyclic.acyclic
    (aliases : env.AliasesAcyclic) :
    (env.reframe FrameStack.empty).Acyclic := by
  have reference {leaf next : Ty}
      (step : (env.reframe FrameStack.empty).LeadsTo leaf next) :
      ∃ scope name key definition,
        leaf = .named scope name ∧ env.definition? scope name = some (key, definition) ∧
          next ∈ definition.leaves := by
    obtain ⟨value, stands, isNext⟩ := step
    cases leaf with
    | placeholder scope id => cases (FrameStack.placeholder?_empty id).symm.trans stands
    | named scope name =>
        obtain ⟨⟨key, definition⟩, found, rfl⟩ := Option.map_eq_some_iff.mp stands
        exact ⟨scope, name, key, definition, rfl, found, isNext⟩
    | primitive | array | struct | function | union | parametric => contradiction
  have refersTo {scope targetScope : ScopeId} {name targetName : String}
      {key targetKey : AliasKey} {definition targetDefinition : Ty}
      (found : env.definition? scope name = some (key, definition))
      (isLeaf : .named targetScope targetName ∈ definition.leaves)
      (targetFound :
        env.definition? targetScope targetName = some (targetKey, targetDefinition)) :
      env.RefersTo key targetKey := by
    refine ⟨definition, (targetScope, targetName), targetDefinition,
      local?_of_definition? found, ?_, targetFound⟩
    exact List.mem_filterMap.mpr ⟨_, isLeaf, rfl⟩
  -- A path between references is a path between the declared types that they stand for.
  have lifted {leaf target : Ty}
      (path : Relation.TransGen (env.reframe FrameStack.empty).LeadsTo leaf target) :
      ∀ {scope name key definition targetScope targetName targetKey targetDefinition},
        leaf = .named scope name →
        env.definition? scope name = some (key, definition) →
        target = .named targetScope targetName →
        env.definition? targetScope targetName = some (targetKey, targetDefinition) →
        Relation.TransGen env.RefersTo key targetKey := by
    induction path using Relation.TransGen.head_induction_on with
    | single step =>
        rintro scope name key definition targetScope targetName targetKey targetDefinition rfl
          found rfl targetFound
        obtain ⟨_, _, _, _, same, found', isLeaf⟩ := reference step
        cases same
        cases found.symm.trans found'
        exact .single (refersTo found isLeaf targetFound)
    | head step path inductionHypothesis =>
        rintro scope name key definition targetScope targetName targetKey targetDefinition rfl
          found rfl targetFound
        obtain ⟨_, _, _, _, same, found', isLeaf⟩ := reference step
        cases same
        cases found.symm.trans found'
        obtain ⟨next, nextStep, _⟩ := Relation.TransGen.head'_iff.mp path
        obtain ⟨middleScope, middleName, middleKey, middleDefinition, rfl, middleFound, _⟩ :=
          reference nextStep
        exact .head (refersTo found isLeaf middleFound)
          (inductionHypothesis rfl middleFound rfl targetFound)
  intro leaf cycle
  obtain ⟨next, step, _⟩ := Relation.TransGen.head'_iff.mp cycle
  obtain ⟨scope, name, key, definition, rfl, found, _⟩ := reference step
  exact aliases key (lifted cycle rfl found rfl found)

end Environment

namespace Unification

open ShaderTyping.Action (IgnoresFrames)

variable {env env' : Environment} {left right : Ty}

/-! ## Answers -/

/-- The definitions alone do not weigh more than the definitions and the bindings. -/
theorem limit_reframe_le (left right : Ty) :
    limit (env.reframe FrameStack.empty) left right ≤ limit env left right := by
  have noBindings : (env.reframe FrameStack.empty).frames.boundTypes = [] := rfl
  refine nestingBound_mono ?_
  simp only [weight, noBindings, Ty.sizeOfMembers, Environment.declared_reframe]
  omega

/-- Unifying ground types comes to an answer, whatever is bound. -/
theorem unify_eq_within_of_ground
    (aliases : env.AliasesAcyclic)
    (leftGround : env.Ground left)
    (rightGround : env.Ground right) :
    unify left right env ≠ .exhausted ∧
      ∀ steps, limit env left right ≤ steps →
        unify left right env = within steps left right env := by
  have consistent : (env.reframe FrameStack.empty).frames.Consistent := .empty
  obtain ⟨bareAnswers, bareSame⟩ := unify_eq_within consistent aliases.acyclic left right
  have answers : within (limit env left right) left right env ≠ .exhausted := by
    intro isExhausted
    have same :=
      (within_ignoresFrames (limit env left right) leftGround rightGround).reframed FrameStack.empty
    rw [isExhausted, ← bareSame _ (limit_reframe_le left right)] at same
    exact bareAnswers same
  have same (steps : Nat) (enough : limit env left right ≤ steps) :
      unify left right env = within steps left right env :=
    Action.orElse_eq_of_extends (fun steps => within steps left right)
      (fun notMore => within_extends notMore left right) usualNesting
      (fun env => limit env left right) answers enough
  exact ⟨(same _ (Nat.le_refl _)).symm ▸ answers, same⟩

end Unification

/-! ## The two orders -/

namespace Outcome

/-- As far as both come to an answer, both succeed with one value or both fail. -/
inductive Concurs : Outcome ε α → Outcome ε α → Prop where
  | ok (value : α) (final final' : Environment) :
      Concurs (.ok value final) (.ok value final')
  | error (cause cause' : ε) (final final' : Environment) :
      Concurs (.error cause final) (.error cause' final')
  | left (other : Outcome ε α) :
      Concurs .exhausted other
  | right (other : Outcome ε α) :
      Concurs other .exhausted

theorem Concurs.symm
    {outcome outcome' : Outcome ε α}
    (concurs : Concurs outcome outcome') :
    Concurs outcome' outcome := by
  cases concurs with
  | ok value final final' => exact .ok value final' final
  | error cause cause' final final' => exact .error cause' cause final' final
  | left => exact .right _
  | right => exact .left _

/-- Actions in a row concur if the first ones do and the second ones do after the same value. -/
theorem Concurs.bind
    {first first' : Action ε α}
    {next next' : α → Action ε β}
    {env env' : Environment}
    (firsts : Concurs (first env) (first' env'))
    (nexts :
      ∀ {value final final'},
        first env = .ok value final →
        first' env' = .ok value final' →
        Concurs (next value final) (next' value final')) :
    Concurs ((first >>= next) env) ((first' >>= next') env') := by
  simp only [Bind.bind, Action.bind]
  cases ended : first env with
  | exhausted => exact .left _
  | ok value final =>
      cases ended' : first' env' with
      | exhausted => exact .right _
      | ok value' final' =>
          rw [ended, ended'] at firsts
          cases firsts
          exact nexts ended ended'
      | error cause final' =>
          rw [ended, ended'] at firsts
          cases firsts
  | error cause final =>
      cases ended' : first' env' with
      | exhausted => exact .right _
      | ok value' final' =>
          rw [ended, ended'] at firsts
          cases firsts
      | error cause' final' => exact .error _ _ _ _

end Outcome

namespace Unification

open Environment (declared_traceUnify)
open Outcome (Concurs)

variable {env env' : Environment} {left right : Ty}

/-! ### Expanding a reference -/

/-- A reference that stands for no type has no definition. -/
theorem exists_definition_eq_error
    {reference : Ty}
    {scope : ScopeId}
    {name : String}
    (isHead : env.head reference = .named scope name)
    (other : Ty) :
    ∃ cause final, definition reference other env = .error cause final := by
  rw [definition, Action.environment_bind, isHead]
  dsimp only
  split
  · exact ⟨_, _, rfl⟩
  · exact ⟨_, _, rfl⟩

section Expand

variable {scope : ScopeId} {name : String} {other : Ty}
variable (notPlaceholder : other.isPlaceholder = false)

include notPlaceholder

/-- A reference on the left is expanded. -/
theorem within_expandLeft
    (different : .named scope name ≠ other)
    (notNamed : ∀ scope' name', env.head (.named scope name) ≠ .named scope' name')
    (steps : Nat) :
    ∃ middle : Environment,
      middle.declared = env.declared ∧
        within (steps + 1) (.named scope name) other env =
          within steps (env.head (.named scope name)) other middle := by
  refine ⟨_, declared_traceUnify (.expand (.named scope name) (env.head (.named scope name)))
    (.type (.named scope name)) (.type other) env, ?_⟩
  have defined : definition (.named scope name) other env = .ok (env.head (.named scope name)) env :=
    definition_eq_ok rfl notNamed
  rw [within]
  unfold step
  rw [if_neg different]
  cases other with
  | placeholder => contradiction
  | _ =>
      simp only [Bind.bind, Action.bind, defined]
      rfl

/-- A reference on the right is expanded, unless the left side is one. -/
theorem within_expandRight
    (otherNamed : ∀ scope' name', other ≠ .named scope' name')
    (notNamed : ∀ scope' name', env.head (.named scope name) ≠ .named scope' name')
    (steps : Nat) :
    ∃ middle : Environment,
      middle.declared = env.declared ∧
        within (steps + 1) other (.named scope name) env =
          within steps other (env.head (.named scope name)) middle := by
  refine ⟨_, declared_traceUnify (.expand (.named scope name) (env.head (.named scope name)))
    (.type other) (.type (.named scope name)) env, ?_⟩
  have defined : definition (.named scope name) other env = .ok (env.head (.named scope name)) env :=
    definition_eq_ok rfl notNamed
  rw [within]
  unfold step
  rw [if_neg (otherNamed scope name)]
  cases other with
  | placeholder => contradiction
  | named otherScope otherName => exact absurd rfl (otherNamed otherScope otherName)
  | _ =>
      simp only [Bind.bind, Action.bind, defined]
      rfl

/-- A reference on the left that stands for no type agrees with nothing else. -/
theorem within_danglingLeft
    (different : .named scope name ≠ other)
    {headScope : ScopeId}
    {headName : String}
    (isHead : env.head (.named scope name) = .named headScope headName)
    (steps : Nat) :
    ∃ cause final, within (steps + 1) (.named scope name) other env = .error cause final := by
  obtain ⟨cause, final, ended⟩ := exists_definition_eq_error isHead other
  refine ⟨cause, final, ?_⟩
  rw [within]
  unfold step
  rw [if_neg different]
  cases other with
  | placeholder => contradiction
  | _ => exact Action.bind_eq_error.mpr (.inl ended)

/-- Nor does one on the right. -/
theorem within_danglingRight
    (otherNamed : ∀ scope' name', other ≠ .named scope' name')
    {headScope : ScopeId}
    {headName : String}
    (isHead : env.head (.named scope name) = .named headScope headName)
    (steps : Nat) :
    ∃ cause final, within (steps + 1) other (.named scope name) env = .error cause final := by
  obtain ⟨cause, final, ended⟩ := exists_definition_eq_error isHead other
  refine ⟨cause, final, ?_⟩
  rw [within]
  unfold step
  rw [if_neg (otherNamed scope name)]
  cases other with
  | placeholder => contradiction
  | named otherScope otherName => exact absurd rfl (otherNamed otherScope otherName)
  | _ => exact Action.bind_eq_error.mpr (.inl ended)

end Expand

/-! ### One step in both orders -/

/-- A ground type whose structs list their fields in label order. -/
structure Subject (env : Environment) (ty : Ty) : Prop where
  ground : env.Ground ty
  ordered : ty.Ordered

namespace Subject

/-- What is unified is ground whatever is bound. -/
theorem congr
    (same : env'.declared = env.declared)
    {ty : Ty}
    (subject : Subject env ty) :
    Subject env' ty :=
  ⟨subject.ground.congr same, subject.ordered⟩

/-- The head of a type that is unified is ground and in label order too. -/
theorem head
    (defines : env.DefinesOrdered)
    {ty : Ty}
    (subject : Subject env ty) :
    Subject env (env.head ty) := by
  refine Environment.head_induction (motive := Subject env) (fun {leaf next} subject stands => ?_)
    subject
  refine ⟨subject.ground.standsFor? stands, ?_⟩
  cases leaf with
  | placeholder scope id => exact absurd subject.ground Environment.Ground.not_placeholder
  | named scope name =>
      obtain ⟨⟨key, definition⟩, found, rfl⟩ := Option.map_eq_some_iff.mp stands
      exact defines found
  | primitive | array | struct | function | union | parametric => contradiction

/-- The parts of a subject are subjects. -/
theorem component
    {component : Ty}
    {length : Length}
    (subject : Subject env (.array component length)) :
    Subject env component := by
  cases subject.ordered with
  | array _ ordered => exact ⟨subject.ground.component, ordered⟩

/-- The fields of a struct that is unified are ground and in label order too. -/
theorem field
    {fields : List (String × Ty)}
    {field : String × Ty}
    (subject : Subject env (.struct fields))
    (isField : field ∈ fields) :
    Subject env field.2 := by
  cases subject.ordered with
  | struct _ each => exact ⟨subject.ground.field isField, each field isField⟩

/-- The parameter of a function that is unified is ground and in label order too. -/
theorem param
    {param result : Ty}
    (subject : Subject env (.function param result)) :
    Subject env param := by
  cases subject.ordered with
  | function ordered _ => exact ⟨subject.ground.param, ordered⟩

/-- The result of a function that is unified is ground and in label order too. -/
theorem result
    {param result : Ty}
    (subject : Subject env (.function param result)) :
    Subject env result := by
  cases subject.ordered with
  | function _ ordered => exact ⟨subject.ground.result, ordered⟩

end Subject

/-- Both orders concur on ground types, with at most some number of steps. -/
def Symmetric (recur : Ty → Ty → Action UnifyError Ty) : Prop :=
  ∀ {env env' : Environment} {left right : Ty},
    env'.declared = env.declared →
    env.DefinesOrdered →
    Subject env left →
    Subject env right →
    Concurs (recur left right env) (recur right left env')

/-- A type is a reference or it is none. -/
theorem named_or_ne (ty : Ty) :
    (∃ scope name, ty = .named scope name) ∨ ∀ scope name, ty ≠ .named scope name := by
  cases ty with
  | named scope name => exact .inl ⟨scope, name, rfl⟩
  | _ => exact .inr fun _ _ => by simp

/-- A reference that stands for no type fails in both orders. -/
theorem within_concurs_dangling
    {scope : ScopeId}
    {name : String}
    (same : env'.declared = env.declared)
    (leftGround : env.Ground (.named scope name))
    (rightGround : env.Ground right)
    (different : .named scope name ≠ right)
    {headScope : ScopeId}
    {headName : String}
    (isHead : env.head (.named scope name) = .named headScope headName)
    (steps : Nat) :
    Concurs (within (steps + 1) (.named scope name) right env)
      (within (steps + 1) right (.named scope name) env') := by
  have notPlaceholder := rightGround.isPlaceholder_eq_false
  have isHead' {other : Environment} (sameOther : other.declared = env.declared) :
      other.head (.named scope name) = .named headScope headName :=
    (leftGround.head_congr sameOther).trans isHead
  obtain ⟨cause, final, ended⟩ := within_danglingLeft notPlaceholder different isHead steps
  rw [ended]
  rcases named_or_ne right with ⟨rightScope, rightName, rfl⟩ | otherNamed
  · rcases named_or_ne (env'.head (.named rightScope rightName)) with
      ⟨_, _, rightHead⟩ | notNamed
    · obtain ⟨cause', final', ended'⟩ :=
        within_danglingLeft rfl (Ne.symm different) rightHead steps
      rw [ended']
      exact .error _ _ _ _
    · -- The right reference is expanded first, and the left one fails after it.
      obtain ⟨middle, sameMiddle, expanded⟩ :=
        within_expandLeft rfl (Ne.symm different) notNamed steps
      rw [expanded]
      cases steps with
      | zero => exact .right _
      | succ steps =>
          have foundPlaceholder :=
            (rightGround.congr same).head.isPlaceholder_eq_false
          obtain ⟨cause', final', ended'⟩ :=
            within_danglingRight foundPlaceholder notNamed (isHead' (sameMiddle.trans same)) steps
          rw [ended']
          exact .error _ _ _ _
  · obtain ⟨cause', final', ended'⟩ :=
      within_danglingRight notPlaceholder otherNamed (isHead' same) steps
    rw [ended']
    exact .error _ _ _ _

/-- A reference is expanded in both orders. -/
theorem within_concurs_named
    {steps : Nat}
    (symmetric : ∀ fewer ≤ steps, Symmetric (within fewer))
    {scope : ScopeId}
    {name : String}
    (same : env'.declared = env.declared)
    (defines : env.DefinesOrdered)
    (leftSubject : Subject env (.named scope name))
    (rightSubject : Subject env right)
    (different : .named scope name ≠ right) :
    Concurs (within (steps + 1) (.named scope name) right env)
      (within (steps + 1) right (.named scope name) env') := by
  have notPlaceholder := rightSubject.ground.isPlaceholder_eq_false
  rcases named_or_ne (env.head (.named scope name)) with ⟨_, _, isHead⟩ | notNamed
  · exact within_concurs_dangling same leftSubject.ground rightSubject.ground different isHead steps
  have leftHead {other : Environment} (sameOther : other.declared = env.declared) :
      other.head (.named scope name) = env.head (.named scope name) :=
    leftSubject.ground.head_congr sameOther
  have leftFound := leftSubject.head defines
  obtain ⟨middle, sameMiddle, leftExpanded⟩ :=
    within_expandLeft notPlaceholder different notNamed steps
  rcases named_or_ne right with ⟨rightScope, rightName, rfl⟩ | otherNamed
  · have rightHead {other : Environment} (sameOther : other.declared = env.declared) :
        other.head (.named rightScope rightName) = env.head (.named rightScope rightName) :=
      rightSubject.ground.head_congr sameOther
    rcases named_or_ne (env.head (.named rightScope rightName)) with
      ⟨_, _, isHead⟩ | rightNotNamed
    · have swapped :=
        within_concurs_dangling same.symm (rightSubject.ground.congr same)
          (leftSubject.ground.congr same) (Ne.symm different) ((rightHead same).trans isHead) steps
      exact swapped.symm
    · have rightNotNamed' :
          ∀ scope' name', env'.head (.named rightScope rightName) ≠ .named scope' name' :=
        rightHead same ▸ rightNotNamed
      have rightFound := rightSubject.head defines
      obtain ⟨middle', sameMiddle', rightExpanded⟩ :=
        within_expandLeft rfl (Ne.symm different) rightNotNamed' steps
      rw [leftExpanded, rightExpanded, rightHead same]
      cases steps with
      | zero => exact .left _
      | succ steps =>
          -- Now each order expands the other reference.
          have sameMiddle' := sameMiddle'.trans same
          obtain ⟨last, sameLast, leftLast⟩ :=
            within_expandRight leftFound.ground.isPlaceholder_eq_false notNamed
              (rightHead sameMiddle ▸ rightNotNamed) steps
          obtain ⟨last', sameLast', rightLast⟩ :=
            within_expandRight rightFound.ground.isPlaceholder_eq_false rightNotNamed
              (leftHead sameMiddle' ▸ notNamed) steps
          rw [leftLast, rightLast, rightHead sameMiddle, leftHead sameMiddle']
          have sameLast := sameLast.trans sameMiddle
          have sameLast' := sameLast'.trans sameMiddle'
          exact symmetric steps (Nat.le_succ steps) (sameLast'.trans sameLast.symm)
            (defines.congr sameLast) (leftFound.congr sameLast) (rightFound.congr sameLast)
  · obtain ⟨middle', sameMiddle', rightExpanded⟩ :=
      within_expandRight notPlaceholder otherNamed (leftHead same ▸ notNamed) steps
    rw [leftExpanded, rightExpanded, leftHead same]
    exact symmetric steps (Nat.le_refl steps) ((sameMiddle'.trans same).trans sameMiddle.symm)
      (defines.congr sameMiddle) (leftFound.congr sameMiddle) (rightSubject.congr sameMiddle)

/-- What follows concurs whichever steps are written down first. -/
theorem note_concurs
    (same : env'.declared = env.declared)
    (event event' : UnifyEvent)
    (left right left' right' : Ty)
    {next next' : Unit → Action ε α}
    (nexts :
      ∀ {middle middle' : Environment},
        middle.declared = env.declared →
        middle'.declared = middle.declared →
        Concurs (next () middle) (next' () middle')) :
    Concurs ((note event left right >>= next) env) ((note event' left' right' >>= next') env') := by
  refine nexts (declared_traceUnify event (.type left) (.type right) env) ?_
  rw [declared_traceUnify, declared_traceUnify, same]

/-- Mismatches concur. -/
theorem mismatch_concurs (left right left' right' : Ty) :
    Concurs ((mismatch left right : Action UnifyError α) env)
      ((mismatch left' right' : Action UnifyError α) env') :=
  .error _ _ _ _

/-- Known lengths agree in both orders or in none. -/
theorem unifyLength_concurs (count count' : Nat) :
    Concurs (unifyLength (.known count) (.known count') env)
      (unifyLength (.known count') (.known count) env') := by
  unfold unifyLength
  rw [Action.environment_bind, Action.environment_bind]
  by_cases sameCount : count = count'
  · subst sameCount
    rw [if_pos rfl, if_pos rfl]
    exact .ok _ _ _
  · have different {env : Environment} {count count' : Nat} (sameCount : count ≠ count') :
        env.resolveLength (.known count) ≠ env.resolveLength (.known count') :=
      fun same => sameCount (Length.known.inj same)
    rw [if_neg (different sameCount), if_neg (different (Ne.symm sameCount))]
    exact .error _ _ _ _

section Parts

variable {recur : Ty → Ty → Action UnifyError Ty}
variable (ignores : GroundOnly recur) (symmetric : Symmetric recur)

include ignores symmetric

/-- After one part both orders go on with environments that declare the same. -/
theorem recur_concurs
    {left right : Ty}
    (same : env'.declared = env.declared)
    (defines : env.DefinesOrdered)
    (leftSubject : Subject env left)
    (rightSubject : Subject env right)
    {next next' : Ty → Action UnifyError α}
    (nexts :
      ∀ {met} {middle middle' : Environment},
        middle.declared = env.declared →
        middle'.declared = middle.declared →
        Concurs (next met middle) (next' met middle')) :
    Concurs ((recur left right >>= next) env) ((recur right left >>= next') env') := by
  refine .bind (symmetric same defines leftSubject rightSubject) fun ended ended' => ?_
  have kept := (ignores leftSubject.ground rightSubject.ground).declared ended
  have kept' :=
    (ignores (rightSubject.congr same).ground (leftSubject.congr same).ground).declared ended'
  exact nexts kept ((kept'.trans same).trans kept.symm)

/-- Fields are unified one after the other in both orders. -/
theorem fields_concurs
    {shared : List (String × Ty × Ty)}
    (same : env'.declared = env.declared)
    (defines : env.DefinesOrdered)
    (subjects : ∀ field ∈ shared, Subject env field.2.1 ∧ Subject env field.2.2) :
    Concurs
      ((shared.mapM fun (field : String × Ty × Ty) => do
          let ty ← recur field.2.1 field.2.2
          pure (field.1, ty)) env)
      (((shared.map fun (field : String × Ty × Ty) => (field.1, field.2.2, field.2.1)).mapM
        fun (field : String × Ty × Ty) => do
          let ty ← recur field.2.1 field.2.2
          pure (field.1, ty)) env') := by
  induction shared generalizing env env' with
  | nil => exact .ok _ _ _
  | cons field rest inductionHypothesis =>
      obtain ⟨firstSubject, secondSubject⟩ := subjects field List.mem_cons_self
      rw [List.map_cons, List.mapM_cons, List.mapM_cons, bind_assoc, bind_assoc]
      refine recur_concurs ignores symmetric same defines firstSubject secondSubject
        fun sameMiddle same => ?_
      rw [pure_bind, pure_bind]
      refine .bind ?_ fun _ _ => .ok _ _ _
      refine inductionHypothesis same (defines.congr sameMiddle) fun other isOther => ?_
      obtain ⟨first, second⟩ := subjects other (List.mem_cons_of_mem _ isOther)
      exact ⟨first.congr sameMiddle, second.congr sameMiddle⟩

/-- Structs agree on the fields that they share, in whatever order. -/
theorem meet_concurs
    {fields fields' : List (String × Ty)}
    (same : env'.declared = env.declared)
    (defines : env.DefinesOrdered)
    (leftSubject : Subject env (.struct fields))
    (rightSubject : Subject env (.struct fields')) :
    Concurs (meet recur fields fields' env) (meet recur fields' fields env') := by
  cases leftSubject.ordered with
  | struct leftSorted _ =>
  cases rightSubject.ordered with
  | struct rightSorted _ =>
  have subjects :
      ∀ field ∈ Ty.sharedFields fields fields',
        Subject env field.2.1 ∧ Subject env field.2.2 := by
    rintro ⟨label, first, second⟩ isShared
    obtain ⟨inLeft, found⟩ := Ty.mem_sharedFields.mp isShared
    exact ⟨leftSubject.field inLeft, rightSubject.field (mem_of_lookup found)⟩
  unfold meet
  rw [Ty.sharedFields_swap leftSorted rightSorted]
  cases isShared : Ty.sharedFields fields fields' with
  | nil => exact .error _ _ _ _
  | cons field rest =>
      rw [isShared] at subjects
      refine note_concurs same _ _ _ _ _ _ fun sameMiddle same => ?_
      refine .bind (fields_concurs ignores symmetric same (defines.congr sameMiddle) ?_)
        fun _ _ => .ok _ _ _
      exact fun other isOther =>
        ⟨(subjects other isOther).1.congr sameMiddle, (subjects other isOther).2.congr sameMiddle⟩

end Parts

/-- Types of the same form are taken apart in both orders. -/
theorem step_concurs
    {recur : Ty → Ty → Action UnifyError Ty}
    (ignores : GroundOnly recur)
    (symmetric : Symmetric recur)
    (same : env'.declared = env.declared)
    (defines : env.DefinesOrdered)
    (leftSubject : Subject env left)
    (rightSubject : Subject env right)
    (different : left ≠ right)
    (leftNamed : ∀ scope name, left ≠ .named scope name)
    (rightNamed : ∀ scope name, right ≠ .named scope name) :
    Concurs (step recur left right env) (step recur right left env') := by
  unfold step
  rw [if_neg different, if_neg different.symm]
  cases left with
  | placeholder => exact absurd leftSubject.ground Environment.Ground.not_placeholder
  | named scope name => exact absurd rfl (leftNamed scope name)
  | primitive kind =>
      cases right with
      | placeholder => exact absurd rightSubject.ground Environment.Ground.not_placeholder
      | named scope name => exact absurd rfl (rightNamed scope name)
      | primitive kind' =>
          -- Only `int` and `float` agree without being the same.
          cases kind <;> cases kind' <;>
            first
            | exact absurd rfl different
            | exact mismatch_concurs _ _ _ _
            | exact .ok _ _ _
      | _ => exact mismatch_concurs _ _ _ _
  | array component length =>
      cases right with
      | placeholder => exact absurd rightSubject.ground Environment.Ground.not_placeholder
      | named scope name => exact absurd rfl (rightNamed scope name)
      | array component' length' =>
          obtain ⟨_, count, rfl⟩ := leftSubject.ground.plain.array
          obtain ⟨_, count', rfl⟩ := rightSubject.ground.plain.array
          refine note_concurs same _ _ _ _ _ _ fun sameNoted same => ?_
          refine recur_concurs ignores symmetric same (defines.congr sameNoted)
            (leftSubject.component.congr sameNoted) (rightSubject.component.congr sameNoted)
            fun _ _ => ?_
          exact .bind (unifyLength_concurs count count') fun _ _ => .ok _ _ _
      | _ => exact mismatch_concurs _ _ _ _
  | struct fields =>
      cases right with
      | placeholder => exact absurd rightSubject.ground Environment.Ground.not_placeholder
      | named scope name => exact absurd rfl (rightNamed scope name)
      | struct fields' => exact meet_concurs ignores symmetric same defines leftSubject rightSubject
      | _ => exact mismatch_concurs _ _ _ _
  | function param result =>
      cases right with
      | placeholder => exact absurd rightSubject.ground Environment.Ground.not_placeholder
      | named scope name => exact absurd rfl (rightNamed scope name)
      | function param' result' =>
          refine note_concurs same _ _ _ _ _ _ fun sameNoted same => ?_
          refine recur_concurs ignores symmetric same (defines.congr sameNoted)
            (leftSubject.param.congr sameNoted) (rightSubject.param.congr sameNoted)
            fun sameMiddle same => ?_
          have sameMiddle := sameMiddle.trans sameNoted
          refine recur_concurs ignores symmetric same (defines.congr sameMiddle)
            (leftSubject.result.congr sameMiddle) (rightSubject.result.congr sameMiddle)
            fun _ _ => ?_
          exact .ok _ _ _
      | _ => exact mismatch_concurs _ _ _ _
  | union members =>
      cases right with
      | placeholder => exact absurd rightSubject.ground Environment.Ground.not_placeholder
      | named scope name => exact absurd rfl (rightNamed scope name)
      | _ => exact mismatch_concurs _ _ _ _
  | parametric scope label =>
      cases right with
      | placeholder => exact absurd rightSubject.ground Environment.Ground.not_placeholder
      | named scope name => exact absurd rfl (rightNamed scope name)
      | _ => exact mismatch_concurs _ _ _ _

/-- Both orders concur on ground types, with any number of steps. -/
theorem within_symmetric (steps : Nat) : Symmetric (within steps) := by
  induction steps using Nat.strong_induction_on with
  | h steps inductionHypothesis =>
  intro env env' left right same defines leftSubject rightSubject
  cases steps with
  | zero => exact .left _
  | succ steps =>
  have symmetric : ∀ fewer ≤ steps, Symmetric (within fewer) :=
    fun fewer isFewer => inductionHypothesis fewer (Nat.lt_succ_of_le isFewer)
  by_cases equal : left = right
  · subst equal
    rw [within]
    unfold step
    rw [if_pos rfl]
    exact .ok _ _ _
  rcases named_or_ne left with ⟨scope, name, rfl⟩ | leftNamed
  · exact within_concurs_named symmetric same defines leftSubject rightSubject equal
  rcases named_or_ne right with ⟨scope, name, rfl⟩ | rightNamed
  · have swapped :=
      within_concurs_named symmetric same.symm (defines.congr same) (rightSubject.congr same)
        (leftSubject.congr same) (Ne.symm equal)
    exact swapped.symm
  · exact step_concurs (within_ignoresFrames steps) (symmetric steps (Nat.le_refl steps)) same
      defines leftSubject rightSubject equal leftNamed rightNamed

end Unification

/-! ## Symmetry -/

/--
Unification of ground types does not depend on their order.

As long as no declared type refers to itself, both orders succeed with the same type or
both fail, and no frame is changed in either case.  Structs have their fields keyed by
label, so they list them in label order.
-/
theorem unify_swapped_of_ground
    {env : Environment}
    (aliases : env.AliasesAcyclic)
    (defines : env.DefinesOrdered)
    {left right : Ty}
    (leftGround : env.Ground left)
    (rightGround : env.Ground right)
    (leftOrdered : left.Ordered)
    (rightOrdered : right.Ordered) :
    ∃ final final' : Environment,
      final.frames = env.frames ∧
        final'.frames = env.frames ∧
          ((∃ ty, unify left right env = .ok ty final ∧ unify right left env = .ok ty final') ∨
            ∃ cause cause',
              unify left right env = .error cause final ∧
                unify right left env = .error cause' final') := by
  obtain ⟨answers, same⟩ := Unification.unify_eq_within_of_ground aliases leftGround rightGround
  obtain ⟨answers', same'⟩ := Unification.unify_eq_within_of_ground aliases rightGround leftGround
  let steps := max (Unification.limit env left right) (Unification.limit env right left)
  have isBounded : unify left right env = Unification.within steps left right env :=
    same steps (Nat.le_max_left _ _)
  have isBounded' : unify right left env = Unification.within steps right left env :=
    same' steps (Nat.le_max_right _ _)
  have concurs :
      Outcome.Concurs (Unification.within steps left right env)
        (Unification.within steps right left env) :=
    Unification.within_symmetric steps rfl defines ⟨leftGround, leftOrdered⟩
      ⟨rightGround, rightOrdered⟩
  have ignores := Unification.within_ignoresFrames steps leftGround rightGround
  have ignores' := Unification.within_ignoresFrames steps rightGround leftGround
  rw [isBounded] at answers ⊢
  rw [isBounded'] at answers' ⊢
  cases outcome : Unification.within steps left right env with
  | exhausted => exact absurd outcome answers
  | ok ty final =>
      have kept : final.frames = env.frames := ignores.frames_eq (by rw [outcome]; rfl)
      cases outcome' : Unification.within steps right left env with
      | exhausted => exact absurd outcome' answers'
      | error cause final' =>
          rw [outcome, outcome'] at concurs
          cases concurs
      | ok ty' final' =>
          have kept' : final'.frames = env.frames := ignores'.frames_eq (by rw [outcome']; rfl)
          rw [outcome, outcome'] at concurs
          cases concurs
          exact ⟨final, final', kept, kept', .inl ⟨ty, rfl, rfl⟩⟩
  | error cause final =>
      have kept : final.frames = env.frames := ignores.frames_eq (by rw [outcome]; rfl)
      cases outcome' : Unification.within steps right left env with
      | exhausted => exact absurd outcome' answers'
      | ok ty' final' =>
          rw [outcome, outcome'] at concurs
          cases concurs
      | error cause' final' =>
          have kept' : final'.frames = env.frames := ignores'.frames_eq (by rw [outcome']; rfl)
          exact ⟨final, final', kept, kept', .inr ⟨cause, cause', rfl, rfl⟩⟩

/-- A struct whose first field is an integer. -/
def pair : Ty :=
  .struct [("first", Ty.int), ("second", .array Ty.float (.known 3))]

/-- The struct and another name for it are declared. -/
def withPair : Environment :=
  Operation.declare
    (Operation.declare (Environment.empty Options.standard) fun declared =>
      declared.declareType .native "Pair" pair)
    fun declared => declared.declareType .native "Alias" (.named .native "Pair")

/-- A function from the struct, under its other name, to a quantified type. -/
def fromAlias : Ty :=
  .function (.named .native "Alias") (.parametric .native ⟨0⟩)

/-- A function from a struct that shares a field with the declared one. -/
def fromOther : Ty :=
  .function (.struct [("first", Ty.float), ("third", .union [Ty.float, Ty.bool])])
    (.parametric .native ⟨0⟩)

/-- Two fields in label order. -/
theorem Ty.Ordered.pair
    {label label' : String}
    {first second : Ty}
    (before : label < label')
    (firstOrdered : first.Ordered)
    (secondOrdered : second.Ordered) :
    (Ty.struct [(label, first), (label', second)]).Ordered := by
  refine .struct (List.pairwise_pair.mpr before) fun field isField => ?_
  rcases List.mem_pair.mp isField with rfl | rfl
  · exact firstOrdered
  · exact secondOrdered

/-- The definitions of the example are plain and in label order. -/
theorem withPair_definitions
    {scope : ScopeId}
    {name : String}
    {key : AliasKey}
    {definition : Ty}
    (found : withPair.definition? scope name = some (key, definition)) :
    definition.Plain ∧ definition.Ordered := by
  have isWritten := Environment.mem_writtenTypes_of_local? (Environment.local?_of_definition? found)
  have isEither : definition ∈ [.named .native "Pair", pair] := isWritten
  rcases List.mem_pair.mp isEither with rfl | rfl
  · exact ⟨by unfold Ty.Plain; decide, .named _ _⟩
  · exact ⟨by unfold Ty.Plain; decide, .pair (by decide) (.primitive _) (.array _ (.primitive _))⟩

/-- In both orders the struct and the other one agree on the field that they share. -/
theorem unify_swapped_of_ground_alias :
    (withPair.AliasesAcyclic ∧ withPair.DefinesOrdered ∧
        withPair.Ground fromAlias ∧ withPair.Ground fromOther ∧
        fromAlias.Ordered ∧ fromOther.Ordered) ∧
      (unify fromAlias fromOther withPair).value? =
        some (.function (.struct [("first", Ty.float)]) (.parametric .native ⟨0⟩)) ∧
      ∃ final final' : Environment,
        final.frames = withPair.frames ∧
          final'.frames = withPair.frames ∧
            ((∃ ty,
                unify fromAlias fromOther withPair = .ok ty final ∧
                  unify fromOther fromAlias withPair = .ok ty final') ∨
              ∃ cause cause',
                unify fromAlias fromOther withPair = .error cause final ∧
                  unify fromOther fromAlias withPair = .error cause' final') := by
  have aliases : withPair.AliasesAcyclic :=
    (Environment.aliasProblems_eq_nil_iff.mp (by decide +kernel)).1
  have defines : withPair.DefinesOrdered := fun found => (withPair_definitions found).2
  have ground {ty : Ty} (plain : ty.Plain) : withPair.Ground ty :=
    ⟨plain, fun _ found => (withPair_definitions found).1⟩
  have aliasGround : withPair.Ground fromAlias := ground (by unfold Ty.Plain; decide)
  have otherGround : withPair.Ground fromOther := ground (by unfold Ty.Plain; decide)
  have aliasOrdered : fromAlias.Ordered := .function (.named _ _) (.parametric _ _)
  have otherOrdered : fromOther.Ordered := by
    refine .function (.pair (by decide) (.primitive _) (.union fun member isMember => ?_))
      (.parametric _ _)
    rcases List.mem_pair.mp isMember with rfl | rfl
    · exact .primitive _
    · exact .primitive _
  refine ⟨⟨aliases, defines, aliasGround, otherGround, aliasOrdered, otherOrdered⟩,
    by decide +kernel, ?_⟩
  exact unify_swapped_of_ground aliases defines aliasGround otherGround aliasOrdered otherOrdered

end ShaderTyping
