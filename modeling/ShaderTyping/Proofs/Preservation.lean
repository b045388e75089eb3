import ShaderTyping.Proofs.Invariant
import ShaderTyping.Proofs.Meet
import ShaderTyping.Proofs.Run

namespace ShaderTyping

/-!
# Operations keep properties of types

A computation keeps a property of types if it leads from environments that satisfy
the property to environments that satisfy it, however it ends, and if its value is
as stated.  Unification, generalization, instantiation and calls keep every
`Ty.Invariant`, given types that have it.
-/

/-! ## Computations that keep a property -/

namespace Outcome

/-- The environment that is left satisfies a property, and the value is as stated. -/
def Keeps (rule : Ty.Invariant) (post : α → Prop) : Outcome ε α → Prop
  | .ok value env => env.Satisfies rule ∧ post value
  | .error _ env => env.Satisfies rule
  | .exhausted => True

/-- Wherever a computation ends that keeps a property, the environment satisfies it. -/
theorem Keeps.final
    {rule : Ty.Invariant}
    {post : α → Prop}
    {outcome : Outcome ε α}
    {final : Environment}
    (keeps : outcome.Keeps rule post)
    (ended : outcome.final? = some final) :
    final.Satisfies rule := by
  cases outcome with
  | ok value env =>
      cases ended
      exact keeps.1
  | error cause env =>
      cases ended
      exact keeps
  | exhausted => contradiction

end Outcome

namespace Environment

/-- The computation keeps a property of types, and its value is as stated. -/
def Keeps
    (rule : Ty.Invariant)
    (computation : StateM Environment α)
    (post : α → Prop) : Prop :=
  ∀ env : Environment, env.Satisfies rule →
    (computation env).2.Satisfies rule ∧ post (computation env).1

namespace Keeps

variable {rule : Ty.Invariant} {post : α → Prop}

/-- Returning a value as stated keeps the property. -/
theorem pure
    {value : α}
    (holds : post value) :
    Keeps rule (Pure.pure value : StateM Environment α) post :=
  fun _ satisfied => ⟨satisfied, holds⟩

/--
Two computations that cannot fail keep the property if both do, the second given what the first
one states of its value.
-/
theorem bind
    {first : StateM Environment α}
    {next : α → StateM Environment β}
    {middle : α → Prop}
    {post : β → Prop}
    (firstKeeps : Keeps rule first middle)
    (nextKeeps : ∀ value, middle value → Keeps rule (next value) post) :
    Keeps rule (first >>= next) post := by
  intro env satisfied
  obtain ⟨middleSatisfied, middleHolds⟩ := firstKeeps env satisfied
  exact nextKeeps _ middleHolds _ middleSatisfied

/-- Reading gives an environment that satisfies the property. -/
theorem get : Keeps rule (get : StateM Environment Environment) fun env => env.Satisfies rule :=
  fun _ satisfied => ⟨satisfied, satisfied⟩

/-- A change that leads from environments with the property to such ones keeps it. -/
theorem modify
    {change : Environment → Environment}
    (changes : ∀ {env : Environment}, env.Satisfies rule → (change env).Satisfies rule) :
    Keeps rule (modify change : StateM Environment Unit) fun _ => True :=
  fun _ satisfied => ⟨changes satisfied, trivial⟩

end Keeps

/-- A fresh placeholder has every property. -/
theorem freshPlaceholder_keeps (rule : Ty.Invariant) (scope : ScopeId) :
    Keeps rule (freshPlaceholder scope) rule.holds :=
  fun _ satisfied =>
    ⟨⟨satisfied.declared, satisfied.frames, satisfied.inProgress⟩,
      rule.placeholder scope _⟩

/-- A fresh length variable has every property. -/
theorem freshLength_keeps (rule : Ty.Invariant) : Keeps rule freshLength rule.holdsLength :=
  fun _ satisfied =>
    ⟨⟨satisfied.declared, satisfied.frames, satisfied.inProgress⟩, rule.var _⟩

/-- Drawing a fresh label writes no type. -/
theorem freshLabel_keeps (rule : Ty.Invariant) : Keeps rule freshLabel fun _ => True :=
  fun _ satisfied =>
    ⟨⟨satisfied.declared, satisfied.frames, satisfied.inProgress⟩, trivial⟩

end Environment

namespace Action

/-- However the action ends, it keeps a property of types; its value is as stated. -/
def Keeps (rule : Ty.Invariant) (action : Action ε α) (post : α → Prop) : Prop :=
  ∀ env : Environment, env.Satisfies rule → (action env).Keeps rule post

namespace Keeps

variable {rule : Ty.Invariant} {post : α → Prop}

/-- What is stated of the value of a computation holds after a successful end. -/
theorem of_eq_ok
    {action : Action ε α}
    {env final : Environment}
    {value : α}
    (keeps : Keeps rule action post)
    (satisfied : env.Satisfies rule)
    (ended : action env = .ok value final) :
    post value := by
  have kept := keeps env satisfied
  rw [ended] at kept
  exact kept.2

/-- Returning a value as stated keeps the property. -/
theorem pure
    {value : α}
    (holds : post value) :
    Keeps rule (Pure.pure value : Action ε α) post :=
  fun _ satisfied => ⟨satisfied, holds⟩

/-- Failing changes nothing and states nothing of a value. -/
theorem fail (cause : ε) : Keeps rule (Action.fail cause : Action ε α) post :=
  fun _ satisfied => satisfied

/-- A computation that runs out of steps keeps every property. -/
theorem exhausted : Keeps rule (Action.exhausted : Action ε α) post :=
  fun _ _ => trivial

/-- Reading gives an environment that satisfies the property. -/
theorem environment :
    Keeps rule (Action.environment : Action ε Environment) fun env => env.Satisfies rule :=
  fun _ satisfied => ⟨satisfied, satisfied⟩

/-- A change that leads from environments with the property to such ones keeps it. -/
theorem update
    {change : Environment → Environment}
    (changes : ∀ {env : Environment}, env.Satisfies rule → (change env).Satisfies rule) :
    Keeps rule (Action.update change : Action ε Unit) fun _ => True :=
  fun _ satisfied => ⟨changes satisfied, trivial⟩

/-- A computation that cannot fail keeps as an action what it keeps by itself. -/
theorem ofState
    {computation : StateM Environment α}
    (keeps : Environment.Keeps rule computation post) :
    Keeps rule (liftM computation : Action ε α) post :=
  keeps

/--
Two actions in a row keep the property if both do, the second given what the first one states of
its value.
-/
theorem bind
    {first : Action ε α}
    {next : α → Action ε β}
    {middle : α → Prop}
    {post : β → Prop}
    (firstKeeps : Keeps rule first middle)
    (nextKeeps : ∀ value, middle value → Keeps rule (next value) post) :
    Keeps rule (first >>= next) post := by
  intro env satisfied
  have kept := firstKeeps env satisfied
  change (Action.bind first next env).Keeps rule post
  unfold Action.bind
  cases outcome : first env with
  | ok value inner =>
      rw [outcome] at kept
      exact nextKeeps value kept.2 inner kept.1
  | error cause inner =>
      rw [outcome] at kept
      exact kept
  | exhausted => trivial

/-- What is stated of a value can be weakened. -/
theorem imp
    {action : Action ε α}
    {weaker : α → Prop}
    (keeps : Keeps rule action post)
    (implies : ∀ {value}, post value → weaker value) :
    Keeps rule action weaker := by
  intro env satisfied
  have kept := keeps env satisfied
  cases outcome : action env with
  | ok value inner =>
      rw [outcome] at kept
      exact ⟨kept.1, implies kept.2⟩
  | error cause inner =>
      rw [outcome] at kept
      exact kept
  | exhausted => trivial

/-- Converting the value of an action keeps the property. -/
theorem map
    {action : Action ε α}
    {convert : α → β}
    {post : β → Prop}
    (keeps : Keeps rule action fun value => post (convert value)) :
    Keeps rule (convert <$> action) post :=
  bind keeps fun _ holds => pure holds

/-- An attempt keeps the property, and if it has a value, that is as stated. -/
theorem attempt
    {action : Action ε α}
    (keeps : Keeps rule action post) :
    Keeps rule (Action.attempt action : Action ε' (Except ε α))
      fun result => ∀ value, result = .ok value → post value := by
  intro env satisfied
  have kept := keeps env satisfied
  unfold Action.attempt
  cases outcome : action env with
  | ok value inner =>
      rw [outcome] at kept
      refine ⟨kept.1, ?_⟩
      rintro _ ⟨⟩
      exact kept.2
  | error cause inner =>
      rw [outcome] at kept
      exact ⟨kept, fun _ impossible => by contradiction⟩
  | exhausted => trivial

/-- Restating errors keeps the property. -/
theorem mapError
    {action : Action ε α}
    {restate : ε → ε'}
    (keeps : Keeps rule action post) :
    Keeps rule (action.mapError restate) post := by
  intro env satisfied
  have kept := keeps env satisfied
  unfold Action.mapError
  cases outcome : action env with
  | ok value inner =>
      rw [outcome] at kept
      exact kept
  | error cause inner =>
      rw [outcome] at kept
      exact kept
  | exhausted => trivial

/-- An alternative keeps the property if both of its parts do. -/
theorem orElse
    {first second : Action ε α}
    (firstKeeps : Keeps rule first post)
    (secondKeeps : Keeps rule second post) :
    Keeps rule (first.orElse second) post := by
  intro env satisfied
  have kept := firstKeeps env satisfied
  unfold Action.orElse
  cases outcome : first env with
  | ok value inner =>
      rw [outcome] at kept
      exact kept
  | error cause inner =>
      rw [outcome] at kept
      exact kept
  | exhausted => exact secondKeeps env satisfied

/-- An action between two changes keeps the property if the changes do. -/
theorem between
    {action : Action ε α}
    {enter leave : Environment → Environment}
    (keeps : Keeps rule action post)
    (enters : ∀ {env : Environment}, env.Satisfies rule → (enter env).Satisfies rule)
    (leaves : ∀ {env : Environment}, env.Satisfies rule → (leave env).Satisfies rule) :
    Keeps rule (action.between enter leave) post := by
  intro env satisfied
  have kept := keeps (enter env) (enters satisfied)
  unfold Action.between
  cases outcome : action (enter env) with
  | ok value inner =>
      rw [outcome] at kept
      exact ⟨leaves kept.1, kept.2⟩
  | error cause inner =>
      rw [outcome] at kept
      exact leaves kept
  | exhausted => trivial

/-- A transaction keeps the property: frames with it are merged or dropped. -/
theorem transaction
    {action : Action ε α}
    (keeps : Keeps rule action post) :
    Keeps rule action.transaction post := by
  intro env satisfied
  have kept := keeps env.push satisfied.push
  unfold Action.transaction
  cases outcome : action env.push with
  | ok value inner =>
      rw [outcome] at kept
      exact ⟨kept.1.finish true, kept.2⟩
  | error cause inner =>
      rw [outcome] at kept
      exact Environment.Satisfies.finish kept false
  | exhausted => trivial

/-- The results of a list of actions are related to the items one by one. -/
theorem mapM
    {items : List α}
    {action : α → Action ε β}
    {related : α → β → Prop}
    (keeps : ∀ item ∈ items, Keeps rule (action item) (related item)) :
    Keeps rule (items.mapM action) (List.Forall₂ related items) := by
  induction items with
  | nil =>
      rw [List.mapM_nil]
      exact pure .nil
  | cons item rest inductionHypothesis =>
      obtain ⟨itemKeeps, restKeep⟩ := List.forall_mem_cons.mp keeps
      rw [List.mapM_cons]
      refine bind itemKeeps fun _ itemRelated => ?_
      exact bind (inductionHypothesis restKeep) fun _ restRelated =>
        pure (.cons itemRelated restRelated)

/-- A fold keeps the property and what is stated of its state if each item does. -/
theorem foldlM
    {items : List α}
    {action : β → α → Action ε β}
    {state : β}
    {post : β → Prop}
    (initially : post state)
    (keeps : ∀ item ∈ items, ∀ state, post state → Keeps rule (action state item) post) :
    Keeps rule (items.foldlM action state) post := by
  induction items generalizing state with
  | nil => exact pure initially
  | cons item rest inductionHypothesis =>
      obtain ⟨itemKeeps, restKeep⟩ := List.forall_mem_cons.mp keeps
      rw [List.foldlM_cons]
      exact bind (itemKeeps state initially) fun _ holds => inductionHypothesis holds restKeep

end Keeps

end Action

/-! ## Unification -/

open ShaderTyping.Action (Keeps)

variable {rule : Ty.Invariant}

namespace Unification

/-- Writing down a step of unification writes no type. -/
theorem note_keeps (event : UnifyEvent) (left right : Ty) :
    Keeps rule (note event left right : Action ε Unit) fun _ => True :=
  .update fun satisfied => satisfied.traceUnify event _ _

/-- Reporting a mismatch changes nothing. -/
theorem mismatch_keeps (left right : Ty) {post : α → Prop} :
    Keeps rule (mismatch left right) post :=
  .bind (note_keeps _ _ _) fun _ _ => .bind .environment fun _ _ => .fail _

/-- What a reference stands for has the property. -/
theorem definition_keeps
    {reference : Ty}
    (holds : rule.holds reference)
    (other : Ty) :
    Keeps rule (definition reference other) rule.holds := by
  apply Keeps.bind .environment
  intro env satisfied
  have found := satisfied.head holds
  split
  · split
    · exact .fail _
    · exact mismatch_keeps _ _
  · exact .pure found

/-- Binding a placeholder to a type with the property keeps it. -/
theorem bind_keeps
    (scope : ScopeId)
    (id : PlaceholderId)
    {other : Ty}
    (holds : rule.holds other) :
    Keeps rule (bind scope id other) rule.holds := by
  apply Keeps.bind .environment
  intro env satisfied
  have followed := satisfied.follow holds
  dsimp only
  split
  · exact .pure followed
  · split
    · exact .bind (note_keeps _ _ _) fun _ _ => .fail _
    · apply Keeps.bind (note_keeps _ _ _)
      intro _ _
      refine .bind (.update fun satisfied => ?_) fun _ _ => .pure followed
      exact satisfied.bindPlaceholder followed id

end Unification

/-- Unification of lengths with the property binds and returns only such lengths. -/
theorem unifyLength_keeps
    {left right : Length}
    (leftHolds : rule.holdsLength left)
    (rightHolds : rule.holdsLength right) :
    Keeps rule (unifyLength left right) rule.holdsLength := by
  apply Keeps.bind .environment
  intro env satisfied
  have leftResolved := satisfied.resolveLength leftHolds
  have rightResolved := satisfied.resolveLength rightHolds
  have binds
      {other : Length}
      (holds : rule.holdsLength other)
      (id : LengthId)
      (left right : Operand) :
      Keeps rule
        (do
          Action.update (Environment.traceUnify (.bindLength id other) left right)
          Action.update (Environment.bindLength id other)
          pure other : Action UnifyError Length)
        rule.holdsLength := by
    apply Keeps.bind (.update fun satisfied => satisfied.traceUnify _ _ _)
    intro _ _
    exact .bind (.update fun satisfied => satisfied.bindLength holds id) fun _ _ => .pure holds
  dsimp only
  split
  · exact .pure leftResolved
  · split
    · exact binds rightResolved _ _ _
    · exact binds leftResolved _ _ _
    · exact .fail _

namespace Unification

/-- An action on two types keeps a property that the types have. -/
def RecursionKeeps (rule : Ty.Invariant) (recur : Ty → Ty → Action UnifyError Ty) : Prop :=
  ∀ {left right : Ty}, rule.holds left → rule.holds right →
    Keeps rule (recur left right) rule.holds

variable {recur : Ty → Ty → Action UnifyError Ty}

/-- The common fields of two structs with the property make one with it. -/
theorem meet_keeps
    (recurKeeps : RecursionKeeps rule recur)
    {left right : List (String × Ty)}
    (leftHolds : rule.holds (.struct left))
    (rightHolds : rule.holds (.struct right)) :
    Keeps rule (meet recur left right) rule.holds := by
  unfold meet
  split
  · exact .bind (note_keeps _ _ _) fun _ _ => .bind .environment fun _ _ => .fail _
  · rename_i notEmpty
    apply Keeps.bind (note_keeps _ _ _)
    intro _ _
    have fieldKeeps :
        ∀ field ∈ Ty.sharedFields left right,
          Keeps rule
            (do
              let ty ← recur field.2.1 field.2.2
              pure (field.1, ty))
            fun met => met.1 = field.1 ∧ rule.holds met.2 := by
      rintro ⟨label, first, second⟩ member
      obtain ⟨inLeft, found⟩ := Ty.mem_sharedFields.mp member
      have firstHolds := rule.field leftHolds _ inLeft
      have secondHolds := rule.field rightHolds _ (mem_of_lookup found)
      exact .bind (recurKeeps firstHolds secondHolds) fun _ holds => .pure ⟨rfl, holds⟩
    refine .bind (.mapM fieldKeeps) fun fields related => .pure ?_
    have labels : fields.map Prod.fst = (Ty.sharedFields left right).map Prod.fst :=
      Ty.map_fst_of_forall₂ (related.imp fun _ _ isMet => isMet.1)
    refine rule.struct leftHolds (labels ▸ Ty.sharedFields_labels left right) ?_ ?_
    · rintro rfl
      exact absurd (List.map_eq_nil_iff.mp labels.symm) notEmpty
    · intro met member
      obtain ⟨_, _, _, holds⟩ := exists_of_forall₂ related member
      exact holds

/-- One step of unification keeps the property if unification of the parts does. -/
theorem step_keeps (recurKeeps : RecursionKeeps rule recur) :
    RecursionKeeps rule (step recur) := by
  intro left right leftHolds rightHolds
  unfold step
  split
  · exact .bind (note_keeps _ _ _) fun _ _ => .pure leftHolds
  split
  case h_1 scope id _ =>
    apply Keeps.bind .environment
    intro env satisfied
    split
    · rename_i bound isBound
      exact recurKeeps (satisfied.binding? isBound) rightHolds
    · exact bind_keeps scope id rightHolds
  case h_2 => exact recurKeeps rightHolds leftHolds
  case h_3 =>
    apply Keeps.bind (definition_keeps leftHolds _)
    intro _ found
    exact .bind (note_keeps _ _ _) fun _ _ => recurKeeps found rightHolds
  case h_4 =>
    apply Keeps.bind (definition_keeps rightHolds _)
    intro _ found
    exact .bind (note_keeps _ _ _) fun _ _ => recurKeeps leftHolds found
  case h_5 =>
    obtain ⟨component, length⟩ := rule.array.mp leftHolds
    obtain ⟨component', length'⟩ := rule.array.mp rightHolds
    apply Keeps.bind (note_keeps _ _ _)
    intro _ _
    apply Keeps.bind (recurKeeps component component')
    intro _ component
    apply Keeps.bind (unifyLength_keeps length length')
    intro _ length
    exact .pure (rule.array.mpr ⟨component, length⟩)
  case h_6 => exact meet_keeps recurKeeps leftHolds rightHolds
  case h_7 =>
    obtain ⟨param, result⟩ := rule.function.mp leftHolds
    obtain ⟨param', result'⟩ := rule.function.mp rightHolds
    apply Keeps.bind (note_keeps _ _ _)
    intro _ _
    apply Keeps.bind (recurKeeps param param')
    intro _ param
    apply Keeps.bind (recurKeeps result result')
    intro _ result
    exact .pure (rule.function.mpr ⟨param, result⟩)
  case h_8 => exact .bind (note_keeps _ _ _) fun _ _ => .pure rightHolds
  case h_9 => exact .bind (note_keeps _ _ _) fun _ _ => .pure leftHolds
  case h_10 => exact mismatch_keeps _ _

/-- Unification in any number of steps keeps the property. -/
theorem within_keeps (steps : Nat) : RecursionKeeps rule (within steps) := by
  induction steps with
  | zero =>
      intro left right _ _
      exact .exhausted
  | succ steps inductionHypothesis => exact step_keeps inductionHypothesis

end Unification

/-- Unification of types with the property binds and returns only such types. -/
theorem unify_keeps
    {left right : Ty}
    (leftHolds : rule.holds left)
    (rightHolds : rule.holds right) :
    Keeps rule (unify left right) rule.holds := by
  refine .orElse (Unification.within_keeps _ leftHolds rightHolds) ?_
  exact .bind .environment fun _ _ => Unification.within_keeps _ leftHolds rightHolds

/-! ## Generalization and instantiation -/

namespace Environment

/-- A quantified placeholder has every property. -/
theorem quantifyPlaceholder_keeps (kept : VarSet) (scope : ScopeId) (id : PlaceholderId) :
    Keeps rule (quantifyPlaceholder kept scope id) rule.holds := by
  unfold quantifyPlaceholder
  split
  · exact .pure (rule.placeholder scope id)
  · apply Keeps.bind (freshLabel_keeps rule)
    intro label _
    have holds := rule.parametric scope label
    refine .bind (.modify fun satisfied => ?_) fun _ _ => .pure holds
    exact satisfied.bindPlaceholder holds id

/-- Quantifying a length only marks its variable. -/
theorem quantifyLength_keeps
    (kept : VarSet)
    {length : Length}
    (holds : rule.holdsLength length) :
    Keeps rule (quantifyLength kept length) rule.holdsLength := by
  apply Keeps.bind .get
  intro env satisfied
  have resolved := satisfied.resolveLength holds
  split
  · rename_i id isVar
    have varHolds := rule.var id
    dsimp only
    split
    · exact .pure varHolds
    · exact .bind (.modify fun satisfied => satisfied.markGeneric id) fun _ _ => .pure varHolds
  · rename_i count isKnown
    rw [isKnown] at resolved
    exact .pure resolved

/-- Quantifying in any number of steps makes types with the property from such types. -/
theorem quantifyWithin_keeps
    (kept : VarSet)
    (steps : Nat)
    (expanding : List AliasKey)
    {ty : Ty}
    (holds : rule.holds ty) :
    Keeps rule (quantifyWithin kept steps expanding ty) rule.holds := by
  induction steps generalizing expanding ty with
  | zero => exact .pure holds
  | succ steps inductionHypothesis =>
      refine rule.traverse (motive := Keeps rule) .pure .bind ?_ ?_ ?_
        (quantifyLength_keeps kept) holds
      · intro scope name leaf
        apply Keeps.bind .get
        intro env satisfied
        split
        · rename_i key definition isDefined
          split
          · exact .pure leaf
          · exact inductionHypothesis _ (satisfied.definition? isDefined)
        · exact .pure leaf
      · intro scope id
        apply Keeps.bind .get
        intro env satisfied
        split
        · rename_i bound isBound
          exact inductionHypothesis _ (satisfied.binding? isBound)
        · exact quantifyPlaceholder_keeps kept scope id
      · exact fun scope label => .pure (rule.parametric scope label)

/-- Quantifying keeps the property. -/
theorem quantify_keeps
    (kept : VarSet)
    {ty : Ty}
    (holds : rule.holds ty) :
    Keeps rule (quantify kept ty) rule.holds :=
  .bind .get fun _ _ => quantifyWithin_keeps kept _ [] holds

/-- Generalizing keeps the property. -/
theorem generalize_keeps
    {ty : Ty}
    (holds : rule.holds ty) :
    Keeps rule (generalize ty) rule.holds :=
  .bind .get fun _ _ => quantify_keeps _ holds

/-- Closing keeps the property. -/
theorem close_keeps
    {ty : Ty}
    (holds : rule.holds ty) :
    Keeps rule (close ty) rule.holds :=
  quantify_keeps VarSet.empty holds

/-- The fresh variables of an instantiation have a property. -/
structure Instance.Satisfies (rule : Ty.Invariant) (made : Instance) : Prop where
  types : ∀ entry ∈ made.types, rule.holds entry.2
  lengths : ∀ entry ∈ made.lengths, rule.holdsLength entry.2

/-- A visit of an instantiation keeps a property, also of the variables made so far. -/
def VisitKeeps
    (rule : Ty.Invariant)
    (visit : StateT Instance (StateM Environment) α)
    (post : α → Prop) : Prop :=
  ∀ made : Instance, made.Satisfies rule →
    Keeps rule (visit made) fun result => post result.1 ∧ result.2.Satisfies rule

/-- A visit that returns a value as stated keeps the property. -/
theorem VisitKeeps.pure
    {value : α}
    {post : α → Prop}
    (holds : post value) :
    VisitKeeps rule (Pure.pure value) post :=
  fun _ satisfied => .pure ⟨holds, satisfied⟩

/-- Two visits in a row keep the property if both do. -/
theorem VisitKeeps.bind
    {first : StateT Instance (StateM Environment) α}
    {next : α → StateT Instance (StateM Environment) β}
    {middle : α → Prop}
    {post : β → Prop}
    (firstKeeps : VisitKeeps rule first middle)
    (nextKeeps : ∀ value, middle value → VisitKeeps rule (next value) post) :
    VisitKeeps rule (first >>= next) post := by
  intro made satisfied
  change Keeps rule ((first >>= next).run made) _
  rw [StateT.run_bind]
  refine .bind (firstKeeps made satisfied) ?_
  rintro ⟨value, made⟩ ⟨holds, madeSatisfied⟩
  exact nextKeeps value holds made madeSatisfied

/-- The instance of a quantified type is a placeholder, which has every property. -/
theorem instantiateParametric_keeps (scope : ScopeId) (label : LabelId) :
    VisitKeeps rule (instantiateParametric scope label) rule.holds := by
  intro made satisfied
  change Keeps rule ((instantiateParametric scope label).run made) _
  unfold instantiateParametric
  rw [StateT.run_bind, StateT.run_get, pure_bind]
  cases found : made.types.lookup (scope, label) with
  | some ty =>
      exact .pure ⟨satisfied.types _ (mem_of_lookup found), satisfied⟩
  | none =>
      intro env envSatisfied
      obtain ⟨left, holds⟩ := freshPlaceholder_keeps rule scope env envSatisfied
      refine ⟨left, holds, ?_⟩
      exact ⟨List.forall_mem_cons.mpr ⟨holds, satisfied.types⟩, satisfied.lengths⟩

/-- The instance of a length is the length or a fresh variable. -/
theorem instantiateLength_keeps
    {length : Length}
    (holds : rule.holdsLength length) :
    VisitKeeps rule (instantiateLength length) rule.holdsLength := by
  intro made satisfied
  cases length with
  | known count => exact .pure ⟨holds, satisfied⟩
  | var id =>
      change Keeps rule ((instantiateLength (.var id)).run made) _
      unfold instantiateLength
      rw [StateT.run_bind, StateT.run_monadLift, bind_assoc]
      apply Keeps.bind .get
      intro env _
      rw [pure_bind]
      cases env.frames.isGeneric id with
      | false => exact .pure ⟨holds, satisfied⟩
      | true =>
          rw [if_pos rfl, StateT.run_bind, StateT.run_get, pure_bind]
          cases found : made.lengths.lookup id with
          | some fresh =>
              exact .pure ⟨satisfied.lengths _ (mem_of_lookup found), satisfied⟩
          | none =>
              intro env envSatisfied
              obtain ⟨left, freshHolds⟩ := freshLength_keeps rule env envSatisfied
              refine ⟨left, freshHolds, satisfied.types, ?_⟩
              exact List.forall_mem_cons.mpr ⟨freshHolds, satisfied.lengths⟩

/-- Instantiating keeps the property. -/
theorem instantiate_keeps
    {ty : Ty}
    (holds : rule.holds ty) :
    Keeps rule (instantiate ty) rule.holds := by
  apply Keeps.bind .get
  intro env satisfied
  have resolved := satisfied.resolve holds
  dsimp only
  split
  · have visited :
        VisitKeeps rule
          ((env.resolve ty).traverse
            { named := fun scope name => pure (.named scope name)
              placeholder := fun scope id => pure (.placeholder scope id)
              parametric := instantiateParametric
              length := instantiateLength })
          rule.holds := by
      refine rule.traverse (motive := VisitKeeps rule) .pure .bind ?_ ?_
        instantiateParametric_keeps instantiateLength_keeps resolved
      · exact fun scope name leaf => .pure leaf
      · exact fun scope id => .pure (rule.placeholder scope id)
    have nothingMade : Instance.Satisfies rule ⟨[], []⟩ := ⟨by simp, by simp⟩
    exact .bind (visited ⟨[], []⟩ nothingMade) fun _ result => .pure result.1
  · exact .pure resolved

end Environment

/-! ## Calls -/

namespace Call

/-- An action on a callee and arguments keeps a property that their types have. -/
def RecursionKeeps
    (rule : Ty.Invariant)
    (recur : Ty → List Ty → Action UnifyError Ty) : Prop :=
  ∀ {callee : Ty} {args : List Ty}, rule.holds callee → (∀ arg ∈ args, rule.holds arg) →
    Keeps rule (recur callee args) rule.holds

variable {recur : Ty → List Ty → Action UnifyError Ty}

/-- A member that accepts the arguments gives a type with the property. -/
theorem firstAccepting_keeps
    (recurKeeps : RecursionKeeps rule recur)
    {arg : Ty}
    {rest members : List Ty}
    (argsHold : ∀ other ∈ arg :: rest, rule.holds other)
    (membersHold : ∀ member ∈ members, rule.holds member) :
    Keeps rule (firstAccepting recur arg rest members)
      fun found => ∀ ty ∈ found, rule.holds ty := by
  induction members with
  | nil => exact .pure (by simp)
  | cons member others inductionHypothesis =>
      obtain ⟨memberHolds, othersHold⟩ := List.forall_mem_cons.mp membersHold
      apply Keeps.bind (Unification.note_keeps _ _ _)
      intro _ _
      have trial := recurKeeps memberHolds argsHold
      apply Keeps.bind (.attempt (.transaction trial))
      intro result accepted
      cases result with
      | ok ty =>
          refine .pure fun found isFound => ?_
          cases Option.mem_some.mp isFound
          exact accepted ty rfl
      | error cause => exact inductionHypothesis othersHold

/-- One argument of a call keeps the property if the rest of the call does. -/
theorem step_keeps (recurKeeps : RecursionKeeps rule recur) :
    RecursionKeeps rule (step recur) := by
  intro callee args calleeHolds argsHold
  cases args with
  | nil => exact .pure calleeHolds
  | cons arg rest =>
      obtain ⟨argHolds, restHold⟩ := List.forall_mem_cons.mp argsHold
      apply Keeps.bind .environment
      intro env satisfied
      have headHolds := satisfied.head calleeHolds
      split
      · rename_i param result isFunction
        rw [isFunction] at headHolds
        obtain ⟨paramHolds, resultHolds⟩ := rule.function.mp headHolds
        exact .bind (unify_keeps paramHolds argHolds) fun _ _ => recurKeeps resultHolds restHold
      · rename_i scope id isPlaceholder
        rw [isPlaceholder] at headHolds
        have fresh := Environment.freshPlaceholder_keeps rule scope
        apply Keeps.bind (.ofState fresh)
        intro result resultHolds
        have functionHolds := rule.function.mpr ⟨argHolds, resultHolds⟩
        apply Keeps.bind (unify_keeps headHolds functionHolds)
        intro _ _
        exact recurKeeps resultHolds restHold
      · rename_i members isUnion
        rw [isUnion] at headHolds
        have tried := firstAccepting_keeps recurKeeps argsHold (rule.member headHolds)
        apply Keeps.bind tried
        intro found holds
        cases found with
        | some ty => exact .pure (holds ty rfl)
        | none => exact .bind .environment fun _ _ => .fail _
      · exact .fail _

/-- A call in any number of steps keeps the property. -/
theorem within_keeps (steps : Nat) : RecursionKeeps rule (within steps) := by
  induction steps with
  | zero =>
      intro callee args _ _
      exact .exhausted
  | succ steps inductionHypothesis => exact step_keeps inductionHypothesis

end Call

/-- A call of a type with the property with such arguments returns only such types. -/
theorem call_keeps
    {callee : Ty}
    {args : List Ty}
    (calleeHolds : rule.holds callee)
    (argsHold : ∀ arg ∈ args, rule.holds arg) :
    Keeps rule (call callee args) rule.holds := by
  refine .orElse (Call.within_keeps _ calleeHolds argsHold) ?_
  exact .bind .environment fun _ _ => Call.within_keeps _ calleeHolds argsHold

end ShaderTyping
