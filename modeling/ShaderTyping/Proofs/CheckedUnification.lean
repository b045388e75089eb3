import ShaderTyping.Proofs.CheckedPrograms
import ShaderTyping.Proofs.InferencePreservation

namespace ShaderTyping

/-!
# Unification in checked programs

In a checked program unification meets no reference that stands for no type.  So
what it would do about one does not matter: `Action.Accords` relates an action that
leaves this open to the one that runs.  Along the way it says what both do to a
checked environment: all types stay covered, failures are not about names without
a declaration, and the types of the expressions that were inferred are recorded.
-/

open Environment (Run QuietRun Binds)
open ShaderTyping.Action (Obeys)
open Relation (ReflTransGen)

/-! ## Actions in checked environments -/

/-- The failure is not about an undeclared type. -/
def UnifyError.Resolved (error : UnifyError) : Prop :=
  ∀ name, error ≠ .undeclaredAlias name

/-- The failure is about neither an undeclared variable nor an undeclared type. -/
def InferError.Resolved (error : InferError) : Prop :=
  (∀ name, error.cause ≠ .undefinedVariable name) ∧
    ∀ name, error.cause ≠ .unify (.undeclaredAlias name)

/--
The environment that is left is checked; after a success the types of the listed
expressions are recorded and the value is as stated.
-/
def Outcome.Stays
    (declared : Declarations)
    (allowed : ε → Prop)
    (made : List ExprId)
    (post : α → Prop) : Outcome ε α → Prop
  | .ok value final => final.Checked declared made ∧ post value
  | .error cause final => final.Checked declared [] ∧ allowed cause
  | .exhausted => True

/-- What is said of an outcome can be weakened: fewer expressions, less of the value. -/
theorem Outcome.Stays.imp
    {declared : Declarations}
    {allowed : ε → Prop}
    {made fewer : List ExprId}
    {post weaker : α → Prop}
    {outcome : Outcome ε α}
    (stays : outcome.Stays declared allowed made post)
    (included : fewer ⊆ made)
    (implies : ∀ {value}, post value → weaker value) :
    outcome.Stays declared allowed fewer weaker := by
  cases outcome with
  | ok value final => exact ⟨stays.1.mono included, implies stays.2⟩
  | error cause final => exact stays
  | exhausted => trivial

namespace Action

/--
In a checked environment in which the types of the `known` expressions are recorded
two actions do the same, and after a success the types of the `made` ones are.
-/
def Accords
    (declared : Declarations)
    (allowed : ε → Prop)
    (known : List ExprId)
    (first second : Action ε α)
    (made : List ExprId)
    (post : α → Prop)
    (env : Environment) : Prop :=
  env.Checked declared known →
    first env = second env ∧ (second env).Stays declared allowed made post

namespace Accords

variable {declared : Declarations} {allowed : ε → Prop} {known made : List ExprId}
  {post : α → Prop} {env : Environment}

/-- That the environment is checked may be used to show that actions accord. -/
theorem of_checked
    {first second : Action ε α}
    (accords :
      env.Checked declared known → Accords declared allowed known first second made post env) :
    Accords declared allowed known first second made post env :=
  fun checked => accords checked checked

theorem pure
    {value : α}
    (holds : post value) :
    Accords declared allowed known (Pure.pure value : Action ε α) (Pure.pure value) known post
      env :=
  fun checked => ⟨rfl, checked, holds⟩

theorem fail
    {cause : ε}
    (isAllowed : allowed cause) :
    Accords declared allowed known (Action.fail cause : Action ε α) (Action.fail cause) made post
      env :=
  fun checked => ⟨rfl, checked.mono (List.nil_subset _), isAllowed⟩

theorem exhausted :
    Accords declared allowed known (Action.exhausted : Action ε α) Action.exhausted made post
      env :=
  fun _ => ⟨rfl, trivial⟩

/-- A change of a checked environment accords if what it leads to is checked. -/
theorem update
    {change : Environment → Environment}
    (changes : env.Checked declared known → (change env).Checked declared made) :
    Accords declared allowed known (Action.update change : Action ε Unit) (Action.update change)
      made (fun _ => True) env :=
  fun checked => ⟨rfl, changes checked, trivial⟩

/-- What is recorded already need not be recorded again. -/
theorem knowing
    {first second : Action ε α}
    {id : ExprId}
    (isKnown : env.Knows id)
    (accords : Accords declared allowed (id :: known) first second made post env) :
    Accords declared allowed known first second made post env := by
  intro checked
  refine accords { checked with recorded := List.forall_mem_cons.mpr ⟨isKnown, ?_⟩ }
  exact checked.recorded

/-- Two actions in a row accord if both do, the second with what the first one recorded. -/
theorem bind
    {first first' : Action ε α}
    {next next' : α → Action ε β}
    {middle : List ExprId}
    {ensured : α → Prop}
    {post : β → Prop}
    (firstAccords : Accords declared allowed known first first' middle ensured env)
    (nextAccords :
      ∀ {value env}, ensured value →
        Accords declared allowed middle (next value) (next' value) made post env) :
    Accords declared allowed known (first >>= next) (first' >>= next') made post env := by
  intro checked
  obtain ⟨same, stays⟩ := firstAccords checked
  change
    Action.bind first next env = Action.bind first' next' env ∧
      (Action.bind first' next' env).Stays declared allowed made post
  unfold Action.bind
  rw [same]
  cases outcome : first' env with
  | ok value left =>
      rw [outcome] at stays
      exact nextAccords stays.2 stays.1
  | error cause left =>
      rw [outcome] at stays
      exact ⟨rfl, stays⟩
  | exhausted => exact ⟨rfl, trivial⟩

/-- After reading the environment an action goes on with the same environment. -/
theorem bind_environment
    {next next' : Environment → Action ε α}
    (accords : Accords declared allowed known (next env) (next' env) made post env) :
    Accords declared allowed known (Action.environment >>= next) (Action.environment >>= next')
      made post env :=
  accords

/-- Actions that record some expressions record fewer of them too. -/
theorem mono
    {first second : Action ε α}
    {fewer : List ExprId}
    (accords : Accords declared allowed known first second made post env)
    (included : fewer ⊆ made) :
    Accords declared allowed known first second fewer post env :=
  fun checked => (accords checked).imp_right fun stays => stays.imp included fun holds => holds

/-- What is stated of the value can be weakened. -/
theorem imp
    {first second : Action ε α}
    {weaker : α → Prop}
    (accords : Accords declared allowed known first second made post env)
    (implies : ∀ {value}, post value → weaker value) :
    Accords declared allowed known first second made weaker env :=
  fun checked => (accords checked).imp_right fun stays => stays.imp (List.Subset.refl _) implies

/-- Converting the value keeps that actions accord. -/
theorem map
    {first second : Action ε α}
    {convert : α → β}
    {post : β → Prop}
    (accords :
      Accords declared allowed known first second made (fun value => post (convert value)) env) :
    Accords declared allowed known (convert <$> first) (convert <$> second) made post env :=
  bind accords fun holds => pure holds

/-- Restating errors keeps that actions accord if allowed ones become allowed ones. -/
theorem mapError
    {first second : Action ε α}
    {allowed' : ε' → Prop}
    {restate : ε → ε'}
    (accords : Accords declared allowed known first second made post env)
    (restates : ∀ {cause}, allowed cause → allowed' (restate cause)) :
    Accords declared allowed' known (first.mapError restate) (second.mapError restate) made post
      env := by
  intro checked
  obtain ⟨same, stays⟩ := accords checked
  unfold Action.mapError
  rw [same]
  cases outcome : second env with
  | ok value left =>
      rw [outcome] at stays
      exact ⟨rfl, stays⟩
  | error cause left =>
      rw [outcome] at stays
      exact ⟨rfl, stays.1, restates stays.2⟩
  | exhausted => exact ⟨rfl, trivial⟩

/-- An alternative accords if both of its parts do from the same environment. -/
theorem orElse
    {first first' second second' : Action ε α}
    (firstAccords : Accords declared allowed known first first' made post env)
    (secondAccords : Accords declared allowed known second second' made post env) :
    Accords declared allowed known (first.orElse second) (first'.orElse second') made post
      env := by
  intro checked
  obtain ⟨same, stays⟩ := firstAccords checked
  unfold Action.orElse
  rw [same]
  cases outcome : first' env with
  | ok value left =>
      rw [outcome] at stays
      exact ⟨rfl, stays⟩
  | error cause left =>
      rw [outcome] at stays
      exact ⟨rfl, stays⟩
  | exhausted => exact secondAccords checked

/-- Actions between two changes accord if the changes keep environments checked. -/
theorem between
    {first second : Action ε α}
    {enter leave : Environment → Environment}
    (accords : Accords declared allowed known first second made post (enter env))
    (enters : env.Checked declared known → (enter env).Checked declared known)
    (leaves :
      ∀ {known final}, Environment.Checked declared known final →
        (leave final).Checked declared known) :
    Accords declared allowed known (first.between enter leave) (second.between enter leave) made
      post env := by
  intro checked
  obtain ⟨same, stays⟩ := accords (enters checked)
  unfold Action.between
  rw [same]
  cases outcome : second (enter env) with
  | ok value left =>
      rw [outcome] at stays
      exact ⟨rfl, leaves stays.1, stays.2⟩
  | error cause left =>
      rw [outcome] at stays
      exact ⟨rfl, leaves stays.1, stays.2⟩
  | exhausted => exact ⟨rfl, trivial⟩

/-- Transactions accord if what happens inside does. -/
theorem transaction
    {first second : Action ε α}
    (accords : Accords declared allowed known first second made post env.push)
    (runs : Obeys Run second env.push) :
    Accords declared allowed known first.transaction second.transaction made post env := by
  intro checked
  obtain ⟨same, stays⟩ := accords checked.push
  unfold Action.transaction
  rw [same]
  cases outcome : second env.push with
  | ok value inner =>
      rw [outcome] at stays
      exact ⟨rfl, stays.1.commit, stays.2⟩
  | error cause inner =>
      rw [outcome] at stays
      have restored := checked.abort (runs.of_eq_error outcome)
      exact ⟨rfl, restored.mono (List.nil_subset _), stays.2⟩
  | exhausted => exact ⟨rfl, trivial⟩

/-- Attempts accord; since the action may fail, nothing is said to be recorded. -/
theorem attempt
    {first second : Action ε α}
    {allowed' : ε' → Prop}
    (accords : Accords declared allowed known first second made post env) :
    Accords declared allowed' known (Action.attempt first) (Action.attempt second) []
      (fun _ => True) env := by
  intro checked
  obtain ⟨same, stays⟩ := accords checked
  unfold Action.attempt
  rw [same]
  cases outcome : second env with
  | ok value final =>
      rw [outcome] at stays
      exact ⟨rfl, stays.1.mono (List.nil_subset _), trivial⟩
  | error cause final =>
      rw [outcome] at stays
      exact ⟨rfl, stays.1, trivial⟩
  | exhausted => exact ⟨rfl, trivial⟩

/-- An attempt in a transaction that records nothing leaves what was recorded before. -/
theorem attempt_transaction
    {first second : Action ε α}
    {allowed' : ε' → Prop}
    (accords : Accords declared allowed known first second known post env.push)
    (runs : Obeys Run second env.push) :
    Accords declared allowed' known (Action.attempt first.transaction)
      (Action.attempt second.transaction) known
      (fun result =>
        (∀ value, result = .ok value → post value) ∧
          ∀ cause, result = .error cause → allowed cause)
      env := by
  intro checked
  obtain ⟨same, stays⟩ := accords checked.push
  unfold Action.attempt Action.transaction
  rw [same]
  cases outcome : second env.push with
  | ok value inner =>
      rw [outcome] at stays
      refine ⟨rfl, stays.1.commit, ?_, nofun⟩
      rintro _ ⟨⟩
      exact stays.2
  | error cause inner =>
      rw [outcome] at stays
      refine ⟨rfl, checked.abort (runs.of_eq_error outcome), nofun, ?_⟩
      rintro _ ⟨⟩
      exact stays.2
  | exhausted => exact ⟨rfl, trivial⟩

/-- An action that keeps types covered and records nothing keeps environments checked. -/
theorem of_quiet
    {action : Action ε α}
    (keeps : Keeps (.covered declared) action post)
    (quiet : Obeys QuietRun action env)
    (fails : ∀ {cause final}, action env = .error cause final → allowed cause) :
    Accords declared allowed known action action known post env := by
  intro checked
  refine ⟨rfl, ?_⟩
  have kept := keeps env checked.satisfied
  cases outcome : action env with
  | ok value final =>
      rw [outcome] at kept
      exact ⟨checked.of_quietRun (quiet.of_eq_ok outcome) kept.1, kept.2⟩
  | error cause final =>
      rw [outcome] at kept
      have left := checked.of_quietRun (quiet.of_eq_error outcome) kept
      exact ⟨left.mono (List.nil_subset _), fails outcome⟩
  | exhausted => trivial

/-- An action accords with itself if it only binds, covers types and fails as allowed. -/
theorem of_binds
    {action : Action ε α}
    (keeps : Keeps (.covered declared) action post)
    (binds : Obeys (ReflTransGen Binds) action env)
    (fails : ∀ {cause final}, action env = .error cause final → allowed cause) :
    Accords declared allowed known action action known post env :=
  of_quiet keeps (fun final ended => .of_binds (binds final ended)) fails

/-- A computation that cannot fail accords with itself if it is a run and covers types. -/
theorem ofState
    {computation : StateM Environment α}
    (keeps : Environment.Keeps (.covered declared) computation post)
    (runs : Environment.RunsOn computation env) :
    Accords declared allowed known (liftM computation : Action ε α) (liftM computation) known post
      env :=
  of_quiet (.ofState keeps) (.ofState runs) nofun

/-- Going through a list accords if each item does; what the items record adds up. -/
theorem mapM
    {items : List α}
    {first second : α → Action ε β}
    (made : α → List ExprId)
    (related : α → β → Prop)
    (accords :
      ∀ item ∈ items, ∀ {known env},
        Accords declared allowed known (first item) (second item) (made item ++ known)
          (related item) env) :
    Accords declared allowed known (items.mapM first) (items.mapM second)
      (items.flatMap made ++ known) (List.Forall₂ related items) env := by
  induction items generalizing known env with
  | nil =>
      rw [List.mapM_nil, List.mapM_nil]
      exact pure .nil
  | cons item rest inductionHypothesis =>
      obtain ⟨itemAccords, restAccord⟩ := List.forall_mem_cons.mp accords
      rw [List.mapM_cons, List.mapM_cons]
      refine bind itemAccords fun itemRelated => ?_
      refine bind (inductionHypothesis restAccord) fun restRelated => ?_
      exact mono (pure (.cons itemRelated restRelated)) (by grind)

/-- Folding over a list accords if each item does; what the items record adds up. -/
theorem foldlM
    {items : List α}
    {first second : β → α → Action ε β}
    (made : α → List ExprId)
    {state : β}
    {post : β → Prop}
    (initially : post state)
    (accords :
      ∀ item ∈ items, ∀ {state known env}, post state →
        Accords declared allowed known (first state item) (second state item)
          (made item ++ known) post env) :
    Accords declared allowed known (items.foldlM first state) (items.foldlM second state)
      (items.flatMap made ++ known) post env := by
  induction items generalizing state known env with
  | nil => exact pure initially
  | cons item rest inductionHypothesis =>
      obtain ⟨itemAccords, restAccord⟩ := List.forall_mem_cons.mp accords
      rw [List.foldlM_cons, List.foldlM_cons]
      refine bind (itemAccords initially) fun holds => ?_
      exact mono (inductionHypothesis holds restAccord) (by grind)

end Accords

end Action

open ShaderTyping.Action (Accords)

-- `dangling` would be found as an instance, so what programs do is named `.refused` below.
variable {declared : Declarations} {known : List ExprId} {env : Environment}
  {dangling : Dangling}

/-! ## Fresh variables, generalization and instantiation -/

namespace Environment

variable {allowed : ε → Prop}

/-- A fresh placeholder mentions no name. -/
theorem freshPlaceholder_accords (scope : ScopeId) :
    Accords declared allowed known (liftM (freshPlaceholder scope) : Action ε Ty)
      (liftM (freshPlaceholder scope)) known declared.Covers env :=
  .ofState (freshPlaceholder_keeps (.covered declared) scope) (.fresh 1 0 0)

/-- A fresh length variable mentions no name. -/
theorem freshLength_accords :
    Accords declared allowed known (liftM freshLength : Action ε Length) (liftM freshLength)
      known (fun _ => True) env :=
  .ofState (freshLength_keeps (.covered declared)) (.fresh 0 1 0)

/-- Generalizing a covered type gives one. -/
theorem generalize_accords
    {ty : Ty}
    (covers : declared.Covers ty) :
    Accords declared allowed known (liftM (generalize ty) : Action ε Ty) (liftM (generalize ty))
      known declared.Covers env :=
  .ofState (generalize_keeps covers) (generalize_run ty env)

/-- Instantiating a covered type gives one. -/
theorem instantiate_accords
    {ty : Ty}
    (covers : declared.Covers ty) :
    Accords declared allowed known (liftM (instantiate ty) : Action ε Ty)
      (liftM (instantiate ty)) known declared.Covers env :=
  .ofState (instantiate_keeps covers) (instantiate_run ty env)

end Environment

/-! ## Unification -/

namespace Unification

/-- Writing down a step of unification accords. -/
theorem note_accords
    {allowed : ε → Prop}
    (event : UnifyEvent)
    (left right : Ty) :
    Accords declared allowed known (note event left right) (note event left right) known
      (fun _ => True) env :=
  .of_binds (note_keeps event left right) (note_binds event left right) nofun

/-- A mismatch is not about a name without a declaration. -/
theorem mismatch_accords
    {made : List ExprId}
    {post : α → Prop}
    (left right : Ty) :
    Accords declared UnifyError.Resolved known (mismatch left right) (mismatch left right) made
      post env :=
  .bind (note_accords _ _ _) fun _ => .bind_environment (.fail nofun)

/-- A declared reference stands for a type, so nothing is done about it. -/
theorem definition_accords
    {reference : Ty}
    (covers : declared.Covers reference)
    (other : Ty) :
    Accords declared UnifyError.Resolved known (@definition dangling reference other)
      (@definition .refused reference other) known declared.Covers env := by
  refine .bind_environment (.of_checked fun checked => ?_)
  have headCovers := checked.satisfied.head covers
  cases isHead : env.head reference with
  | named scope name => exact absurd isHead (checked.head_ne_named covers scope name)
  | _ =>
      rw [isHead] at headCovers
      exact .pure headCovers

/-- Binding a placeholder to a covered type accords, whether the occurs check fails or not. -/
theorem bind_accords
    {id : PlaceholderId}
    (unbound : env.binding? id = none)
    (scope : ScopeId)
    {other : Ty}
    (covers : declared.Covers other) :
    Accords declared UnifyError.Resolved known (bind scope id other) (bind scope id other) known
      declared.Covers env := by
  refine .of_binds (bind_keeps scope id covers) (bind_binds unbound scope other) ?_
  intro cause final failed
  rcases Action.bind_eq_error.mp failed with isRead | ⟨_, _, isRead, failed⟩
  · cases isRead
  · cases isRead
    split at failed
    · cases failed
    · split at failed
      · cases failed
        nofun
      · cases failed

end Unification

/-- Unification of lengths accords. -/
theorem unifyLength_accords (left right : Length) :
    Accords declared UnifyError.Resolved known (unifyLength left right) (unifyLength left right)
      known (fun _ => True) env := by
  refine .of_binds ((unifyLength_keeps trivial trivial).imp fun _ => trivial)
    (unifyLength_binds left right env) ?_
  intro cause final failed
  rcases Action.bind_eq_error.mp failed with isRead | ⟨_, _, isRead, failed⟩
  · cases isRead
  · cases isRead
    split at failed
    · cases failed
    · generalize env.resolveLength left = first at failed
      generalize env.resolveLength right = second at failed
      cases first with
      | var id => cases failed
      | known count =>
          cases second with
          | var id => cases failed
          | known other =>
              cases failed
              nofun

namespace Unification

/-- Two ways to unify covered types do the same in checked environments. -/
def RecursionAccords
    (declared : Declarations)
    (first second : Ty → Ty → Action UnifyError Ty) : Prop :=
  ∀ {left right known env}, declared.Covers left → declared.Covers right →
    Accords declared UnifyError.Resolved known (first left right) (second left right) known
      declared.Covers env

variable {recur recur' : Ty → Ty → Action UnifyError Ty}

/-- The common fields of covered structs are unified alike. -/
theorem meet_accords
    (recurAccords : RecursionAccords declared recur recur')
    {left right : List (String × Ty)}
    (leftCovers : declared.Covers (.struct left))
    (rightCovers : declared.Covers (.struct right)) :
    Accords declared UnifyError.Resolved known (meet recur left right) (meet recur' left right)
      known declared.Covers env := by
  let rule := Ty.Invariant.covered declared
  unfold meet
  split
  · exact .bind (note_accords _ _ _) fun _ => .bind_environment (.fail nofun)
  · rename_i notEmpty
    refine .bind (note_accords _ _ _) fun _ => ?_
    have fieldAccords :
        ∀ field ∈ Ty.sharedFields left right, ∀ {known env},
          Accords declared UnifyError.Resolved known
            (do
              let ty ← recur field.2.1 field.2.2
              pure (field.1, ty))
            (do
              let ty ← recur' field.2.1 field.2.2
              pure (field.1, ty))
            ([] ++ known)
            (fun met => declared.Covers met.2) env := by
      rintro ⟨label, first, second⟩ member known env
      obtain ⟨inLeft, found⟩ := Ty.mem_sharedFields.mp member
      have firstCovers := rule.field leftCovers _ inLeft
      have secondCovers := rule.field rightCovers _ (mem_of_lookup found)
      exact .bind (recurAccords firstCovers secondCovers) fun covers => .pure covers
    refine .bind (.mapM (fun _ => []) _ fieldAccords) fun {fields _} related => ?_
    refine .mono (.pure ?_) (List.subset_append_right _ _)
    intro scope name member
    rw [Ty.leaves_struct] at member
    obtain ⟨field, isField, inField⟩ := List.mem_flatMap.mp member
    obtain ⟨_, _, covers⟩ := exists_of_forall₂ related isField
    exact covers scope name inField

/--
One step of unification accords if unification of the parts does; covered types lead to no
reference without a definition.
-/
theorem step_accords (recurAccords : RecursionAccords declared recur recur') :
    RecursionAccords declared (@step dangling recur) (@step .refused recur') := by
  let rule := Ty.Invariant.covered declared
  intro left right known env leftCovers rightCovers
  unfold step
  split
  · exact .bind (note_accords _ _ _) fun _ => .pure leftCovers
  split
  case h_1 scope id _ =>
    refine .bind_environment (.of_checked fun checked => ?_)
    cases found : env.binding? id with
    | some bound => exact recurAccords (checked.satisfied.binding? found) rightCovers
    | none => exact bind_accords found scope rightCovers
  case h_2 => exact recurAccords rightCovers leftCovers
  case h_3 =>
    refine .bind (definition_accords leftCovers _) fun found => ?_
    exact .bind (note_accords _ _ _) fun _ => recurAccords found rightCovers
  case h_4 =>
    refine .bind (definition_accords rightCovers _) fun found => ?_
    exact .bind (note_accords _ _ _) fun _ => recurAccords leftCovers found
  case h_5 =>
    have component := (rule.array.mp leftCovers).1
    have component' := (rule.array.mp rightCovers).1
    refine .bind (note_accords _ _ _) fun _ => ?_
    refine .bind (recurAccords component component') fun covers => ?_
    refine .bind (unifyLength_accords _ _) fun _ => ?_
    exact .pure (rule.array.mpr ⟨covers, trivial⟩)
  case h_6 => exact meet_accords recurAccords leftCovers rightCovers
  case h_7 =>
    obtain ⟨param, result⟩ := rule.function.mp leftCovers
    obtain ⟨param', result'⟩ := rule.function.mp rightCovers
    refine .bind (note_accords _ _ _) fun _ => ?_
    refine .bind (recurAccords param param') fun paramCovers => ?_
    refine .bind (recurAccords result result') fun resultCovers => ?_
    exact .pure (rule.function.mpr ⟨paramCovers, resultCovers⟩)
  case h_8 => exact .bind (note_accords _ _ _) fun _ => .pure rightCovers
  case h_9 => exact .bind (note_accords _ _ _) fun _ => .pure leftCovers
  case h_10 => exact mismatch_accords _ _

/-- Unification in any number of steps accords. -/
theorem within_accords (steps : Nat) :
    RecursionAccords declared (@within dangling steps) (@within .refused steps) := by
  induction steps with
  | zero =>
      intro left right known env _ _
      exact .exhausted
  | succ steps inductionHypothesis => exact step_accords inductionHypothesis

end Unification

/-- Unification of covered types does not meet what is left open about references. -/
theorem unify_accords
    {left right : Ty}
    (leftCovers : declared.Covers left)
    (rightCovers : declared.Covers right) :
    Accords declared UnifyError.Resolved known (@unify dangling left right)
      (@unify .refused left right) known declared.Covers env := by
  refine .orElse (Unification.within_accords _ leftCovers rightCovers) ?_
  exact .bind_environment (Unification.within_accords _ leftCovers rightCovers)

/-! ## Calls -/

namespace Call

/-- Two ways to apply covered types do the same in checked environments. -/
def RecursionAccords
    (declared : Declarations)
    (first second : Ty → List Ty → Action UnifyError Ty) : Prop :=
  ∀ {callee args known env}, declared.Covers callee → (∀ arg ∈ args, declared.Covers arg) →
    Accords declared UnifyError.Resolved known (first callee args) (second callee args) known
      declared.Covers env

variable {recur recur' : Ty → List Ty → Action UnifyError Ty}

/-- Trying the members of a covered overload set accords if the rest of the call does. -/
theorem firstAccepting_accords
    (recurAccords : RecursionAccords declared recur recur')
    (recurRuns : ∀ callee args env, Obeys Run (recur' callee args) env)
    {arg : Ty}
    {rest members : List Ty}
    (argsCover : ∀ other ∈ arg :: rest, declared.Covers other)
    (membersCover : ∀ member ∈ members, declared.Covers member) :
    Accords declared UnifyError.Resolved known (firstAccepting recur arg rest members)
      (firstAccepting recur' arg rest members) known
      (fun found => ∀ ty ∈ found, declared.Covers ty) env := by
  induction members generalizing env with
  | nil => exact .pure (by simp)
  | cons member others inductionHypothesis =>
      obtain ⟨memberCovers, othersCover⟩ := List.forall_mem_cons.mp membersCover
      refine .bind (Unification.note_accords _ _ _) fun _ => ?_
      refine .bind (.attempt_transaction (recurAccords memberCovers argsCover) (recurRuns _ _ _))
        fun {result _} tried => ?_
      cases result with
      | ok ty =>
          refine .pure fun found isFound => ?_
          cases Option.mem_some.mp isFound
          exact tried.1 ty rfl
      | error cause => exact inductionHypothesis othersCover

/-- One argument of a call accords if the rest of the call does. -/
theorem step_accords
    (recurAccords : RecursionAccords declared recur recur')
    (recurRuns : ∀ callee args env, Obeys Run (recur' callee args) env) :
    RecursionAccords declared (@step dangling recur) (@step .refused recur') := by
  let rule := Ty.Invariant.covered declared
  intro callee args known env calleeCovers argsCover
  cases args with
  | nil => exact .pure calleeCovers
  | cons arg rest =>
      obtain ⟨argCovers, restCover⟩ := List.forall_mem_cons.mp argsCover
      refine .bind_environment (.of_checked fun checked => ?_)
      have headCovers := checked.satisfied.head calleeCovers
      cases isHead : env.head callee with
      | function param result =>
          rw [isHead] at headCovers
          obtain ⟨paramCovers, resultCovers⟩ := rule.function.mp headCovers
          refine .bind (unify_accords paramCovers argCovers) fun _ => ?_
          exact recurAccords resultCovers restCover
      | placeholder scope id =>
          rw [isHead] at headCovers
          refine .bind (Environment.freshPlaceholder_accords scope) fun resultCovers => ?_
          have functionCovers := rule.function.mpr ⟨argCovers, resultCovers⟩
          refine .bind (unify_accords headCovers functionCovers) fun _ => ?_
          exact recurAccords resultCovers restCover
      | union members =>
          rw [isHead] at headCovers
          refine .bind
            (firstAccepting_accords recurAccords recurRuns argsCover (rule.member headCovers))
            fun {found _} covers => ?_
          cases found with
          | some ty => exact .pure (covers ty rfl)
          | none => exact .bind_environment (.fail nofun)
      | _ => exact .fail nofun

/-- A call in any number of steps accords. -/
theorem within_accords (steps : Nat) :
    RecursionAccords declared (@within dangling steps) (@within .refused steps) := by
  induction steps with
  | zero =>
      intro callee args known env _ _
      exact .exhausted
  | succ steps inductionHypothesis => exact step_accords inductionHypothesis (within_run steps)

end Call

/-- A call of covered types does not meet what is left open about references. -/
theorem call_accords
    {callee : Ty}
    {args : List Ty}
    (calleeCovers : declared.Covers callee)
    (argsCover : ∀ arg ∈ args, declared.Covers arg) :
    Accords declared UnifyError.Resolved known (@call dangling callee args)
      (@call .refused callee args) known declared.Covers env := by
  refine .orElse (Call.within_accords _ calleeCovers argsCover) ?_
  exact .bind_environment (Call.within_accords _ calleeCovers argsCover)

end ShaderTyping
