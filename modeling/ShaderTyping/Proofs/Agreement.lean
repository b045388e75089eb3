import ShaderTyping.Proofs.Expansion
import ShaderTyping.Proofs.InferencePreservation

namespace ShaderTyping

/-!
# Unification finds what two types agree on

The type that a successful unification returns expands to what the expanded types
agree on.  The parts of a type are unified before all bindings are made, so the
statement that is carried through the recursion is about every environment in
which the bindings made so far still hold and from which none leads back to
itself.  It is also symmetric, because the two sides may change places.
-/

open Environment (Binds)
open Relation (ReflTransGen)

namespace Action

/-- If the action succeeds, its value and the environment it leaves are as stated. -/
def Ensures
    (action : Action ε α)
    (env : Environment)
    (post : α → Environment → Prop) : Prop :=
  ∀ value final, action env = .ok value final → post value final

namespace Ensures

variable {env : Environment}

theorem pure
    {value : α}
    {post : α → Environment → Prop}
    (holds : post value env) :
    Ensures (Pure.pure value : Action ε α) env post := by
  intro result final ended
  cases ended
  exact holds

/-- Failing ensures everything, since there is no value. -/
theorem fail
    {cause : ε}
    {post : α → Environment → Prop} :
    Ensures (Action.fail cause : Action ε α) env post := by
  intro result final ended
  cases ended

/-- Two actions in a row ensure what the second one does wherever the first may end. -/
theorem bind
    {first : Action ε α}
    {next : α → Action ε β}
    {middlePost : α → Environment → Prop}
    {post : β → Environment → Prop}
    (firstEnsures : Ensures first env middlePost)
    (nextEnsures :
      ∀ {value middle}, middlePost value middle → Ensures (next value) middle post) :
    Ensures (first >>= next) env post := by
  intro result final ended
  obtain ⟨value, middle, firstEnded, nextEnded⟩ := bind_eq_ok.mp ended
  exact nextEnsures (firstEnsures value middle firstEnded) result final nextEnded

/-- An action that reads the environment ensures what follows from it. -/
theorem bind_environment
    {next : Environment → Action ε α}
    {post : α → Environment → Prop}
    (nextEnsures : Ensures (next env) env post) :
    Ensures (Action.environment >>= next) env post := by
  intro result final ended
  exact nextEnsures result final ended

/-- What is ensured can be weakened. -/
theorem imp
    {action : Action ε α}
    {post weaker : α → Environment → Prop}
    (ensures : Ensures action env post)
    (implies : ∀ {value final}, post value final → weaker value final) :
    Ensures action env weaker := by
  intro result final ended
  exact implies (ensures result final ended)

end Ensures

end Action

namespace Ty

/-- The overload set of types with fields in label order has fields in label order. -/
theorem Ordered.ofMembers
    {types : List Ty}
    {ty : Ty}
    (each : ∀ member ∈ types, Ordered member)
    (isUnion : Ty.ofMembers types = some ty) :
    ty.Ordered := by
  have members : ∀ member ∈ canonicalMembers types, Ordered member := by
    intro member inList
    obtain ⟨ty, isType, offered⟩ := mem_canonicalMembers.mp inList
    have ordered := each ty isType
    cases ty with
    | union members =>
        cases ordered with
        | union membersOrdered => exact membersOrdered member offered
    | _ =>
        cases List.mem_singleton.mp offered
        exact ordered
  unfold Ty.ofMembers at isUnion
  split at isUnion
  · contradiction
  · rename_i only isOnly
    have same : only = ty := Option.some.inj isUnion
    exact members ty (by simp [isOnly, same])
  · cases isUnion
    exact .union members

/-- That structs list their fields in label order, each label once. -/
def Invariant.ordered : Invariant where
  holds := Ordered
  holdsLength _ := True
  primitive := .primitive
  placeholder := .placeholder
  parametric := .parametric
  array := by
    intro component length
    constructor
    · rintro (_ | ⟨_, ordered⟩)
      exact ⟨ordered, trivial⟩
    · exact fun parts => .array length parts.1
  function := by
    intro param result
    constructor
    · rintro (_ | _ | _ | ⟨paramOrdered, resultOrdered⟩)
      exact ⟨paramOrdered, resultOrdered⟩
    · exact fun parts => .function parts.1 parts.2
  field ordered := by
    cases ordered with
    | struct _ each => exact each
  struct ordered labels _ each := by
    cases ordered with
    | struct sorted _ => exact .struct (sorted.of_labels labels) each
  ofFields {fields} _ each := by
    refine .struct (sortFields_sorted fields) fun field member => ?_
    exact each field (mem_of_mem_sortFields field member)
  member ordered := by
    cases ordered with
    | union each => exact each
  rebuilt {_ rebuilt} _ _ each := by
    cases isUnion : Ty.ofMembers rebuilt with
    | none => exact .union (by simp)
    | some ty => exact .ofMembers each isUnion
  ofMembers each isUnion := .ofMembers each isUnion
  known _ := trivial
  var _ := trivial

end Ty

namespace Environment

/-- What unification relies on and keeps. -/
structure Proper (env : Environment) : Prop where
  consistent : env.frames.Consistent
  ordered : env.Satisfies .ordered

/-- Changes of unification lead to an environment that can be relied on. -/
structure Advances (env final : Environment) : Prop where
  binds : ReflTransGen Binds env final
  proper : final.Proper

/--
A type is what two types agree on, in whatever order they are given, as long as
the bindings of the environment hold.
-/
def Agrees (env : Environment) (left right ty : Ty) : Prop :=
  ∀ later : Environment,
    env.Grows later →
    later.frames.Consistent →
    later.Acyclic →
    (later.expand left).meet? (later.expand right) = some (later.expand ty) ∧
      (later.expand right).meet? (later.expand left) = some (later.expand ty)

/-- What a successful unification of two types comes to. -/
structure Unifies (env : Environment) (left right ty : Ty) (final : Environment) : Prop where
  advances : env.Advances final
  ordered : ty.Ordered
  agrees : final.Agrees left right ty

variable {env middle final : Environment}

/-- A placeholder that has just been bound is found bound. -/
theorem binding?_bindPlaceholder (env : Environment) (id : PlaceholderId) (ty : Ty) :
    (env.bindPlaceholder id ty).binding? id = some ty :=
  (FrameStack.placeholder?_bindPlaceholder id ty env.frames id).trans (if_pos rfl)

/-- A length variable that has just been bound is found bound. -/
theorem length?_bindLength (env : Environment) (id : LengthId) (length : Length) :
    (env.bindLength id length).frames.length? id = some length :=
  (FrameStack.length?_bindLength id length env.frames id).trans (if_pos rfl)

namespace Proper

/-- A step of unification keeps an environment proper. -/
theorem traceUnify
    (proper : env.Proper)
    (event : UnifyEvent)
    (left right : Operand) :
    (env.traceUnify event left right).Proper :=
  ⟨(Binds.note event left right).consistent proper.consistent,
    proper.ordered.traceUnify event left right⟩

/-- Binding an unbound placeholder to a type without it keeps an environment proper. -/
theorem bindPlaceholder
    (proper : env.Proper)
    {id : PlaceholderId}
    {ty : Ty}
    (ordered : ty.Ordered)
    (unbound : env.binding? id = none)
    (notFound : env.occurs id ty = false)
    (event : UnifyEvent)
    (left right : Operand) :
    ((env.traceUnify event left right).bindPlaceholder id ty).Proper :=
  ⟨(Binds.placeholder event left right unbound notFound).consistent proper.consistent,
    (proper.ordered.traceUnify event left right).bindPlaceholder ordered id⟩

/-- Binding an unbound length variable to another length keeps an environment proper. -/
theorem bindLength
    (proper : env.Proper)
    {id : LengthId}
    {first second : Length}
    (isVar : env.resolveLength first = .var id)
    (different : env.resolveLength second ≠ .var id)
    (event : UnifyEvent)
    (left right : Operand) :
    ((env.traceUnify event left right).bindLength id (env.resolveLength second)).Proper :=
  ⟨(Binds.length event left right isVar different).consistent proper.consistent,
    (proper.ordered.traceUnify event left right).bindLength trivial id⟩

end Proper

namespace Advances

theorem refl (proper : env.Proper) : env.Advances env :=
  ⟨.refl, proper⟩

theorem trans (first : env.Advances middle) (second : middle.Advances final) :
    env.Advances final :=
  ⟨first.binds.trans second.binds, second.proper⟩

/-- What advances from a proper environment grows. -/
theorem grows (proper : env.Proper) (advances : env.Advances final) : env.Grows final :=
  (grows_of_binds proper.consistent advances.binds).2.1

end Advances

namespace Agrees

variable {left right ty : Ty}

/-- What two types agree on they agree on in later environments too. -/
theorem mono (agrees : env.Agrees left right ty) (grows : env.Grows final) :
    final.Agrees left right ty := by
  intro later laterGrows consistent acyclic
  exact agrees later (grows.trans laterGrows) consistent acyclic

theorem symm (agrees : env.Agrees left right ty) : env.Agrees right left ty := by
  intro later grows consistent acyclic
  exact (agrees later grows consistent acyclic).symm

/-- Types that expand to the same agree on what they expand to. -/
theorem of_eq
    (sameLeft :
      ∀ {later : Environment}, env.Grows later → later.Acyclic →
        later.expand left = later.expand ty)
    (sameRight :
      ∀ {later : Environment}, env.Grows later → later.Acyclic →
        later.expand right = later.expand ty) :
    env.Agrees left right ty := by
  intro later grows _ acyclic
  rw [sameLeft grows acyclic, sameRight grows acyclic]
  exact ⟨Ty.meet?_self _, Ty.meet?_self _⟩

/-- The left type may be replaced by one that expands to the same. -/
theorem congr_left
    {other : Ty}
    (agrees : env.Agrees other right ty)
    (same :
      ∀ {later : Environment}, env.Grows later → later.Acyclic →
        later.expand left = later.expand other) :
    env.Agrees left right ty := by
  intro later grows consistent acyclic
  rw [same grows acyclic]
  exact agrees later grows consistent acyclic

end Agrees

namespace Unifies

variable {left right ty : Ty}

/-- What unifies after an advance unifies before it. -/
theorem after
    (advances : env.Advances middle)
    (unifies : middle.Unifies left right ty final) :
    env.Unifies left right ty final :=
  { unifies with advances := advances.trans unifies.advances }

theorem symm (unifies : env.Unifies left right ty final) :
    env.Unifies right left ty final :=
  { unifies with agrees := unifies.agrees.symm }

/-- A type agrees with what the type at its head agrees with. -/
theorem of_head
    (proper : env.Proper)
    (unifies : env.Unifies (env.head left) right ty final) :
    env.Unifies left right ty final := by
  refine { unifies with agrees := unifies.agrees.congr_left fun grows acyclic => ?_ }
  have allGrows := (unifies.advances.grows proper).trans grows
  exact (allGrows.expand_head acyclic left).symm

end Unifies

end Environment

namespace Unification

open ShaderTyping.Action (Ensures)

variable {env : Environment}

/-- Writing down a step of unification advances. -/
theorem note_ensures
    (proper : env.Proper)
    (event : UnifyEvent)
    (left right : Ty) :
    Ensures (note event left right : Action ε Unit) env fun _ middle =>
      env.Advances middle := by
  intro _ middle ended
  cases ended
  exact ⟨.single (.note event _ _), proper.traceUnify event _ _⟩

/-- Reporting a mismatch gives no type. -/
theorem mismatch_ensures (left right : Ty) (post : Ty → Environment → Prop) :
    Ensures (mismatch left right) env post := by
  intro ty final ended
  cases ended

/-- A reference whose head is no reference has that head as its definition. -/
theorem definition_eq_ok
    {reference other found : Ty}
    (isHead : env.head reference = found)
    (notNamed : ∀ scope name, found ≠ .named scope name) :
    definition reference other env = .ok found env := by
  rw [definition, Action.environment_bind, isHead]
  cases found with
  | named scope name => exact absurd rfl (notNamed scope name)
  | _ => rfl

/-- Where a reference has a definition, its head is found and nothing changes. -/
theorem definition_ensures (reference other : Ty) :
    Ensures (definition reference other) env fun found middle =>
      middle = env ∧ found = env.head reference := by
  refine .bind_environment ?_
  split
  · split
    · exact .fail
    · exact mismatch_ensures _ _ _
  · exact .pure ⟨rfl, rfl⟩

/-- Binding a placeholder to a type without it unifies both. -/
theorem bind_ensures
    (proper : env.Proper)
    {id : PlaceholderId}
    (unbound : env.binding? id = none)
    (scope : ScopeId)
    {other : Ty}
    (ordered : other.Ordered) :
    Ensures (bind scope id other) env (env.Unifies (.placeholder scope id) other) := by
  have followed : (env.follow other).Ordered := proper.ordered.follow ordered
  refine .bind_environment ?_
  dsimp only
  split
  · rename_i same
    refine .pure ⟨.refl proper, followed, .of_eq ?_ ?_⟩
    · intro later _ _
      rw [same]
    · intro later grows acyclic
      exact (grows.expand_follow acyclic other).symm
  · cases notFound : env.occurs id (env.follow other) with
    | true =>
        rw [if_pos rfl]
        refine .bind (note_ensures proper _ _ _) fun _ => .fail
    | false =>
        rw [if_neg Bool.false_ne_true]
        intro ty final ended
        cases ended
        have step :=
          Binds.placeholder (.bind id (env.follow other)) (.type (.placeholder scope id))
            (.type (env.follow other)) unbound notFound
        have finalProper := proper.bindPlaceholder followed unbound notFound
        refine
          { advances := ⟨.single step, finalProper _ _ _⟩
            ordered := followed
            agrees := .of_eq ?_ ?_ }
        · intro later grows acyclic
          have stands : later.standsFor? (.placeholder scope id) = some (env.follow other) :=
            grows.bindings (Environment.binding?_bindPlaceholder _ id _)
          exact Environment.expand_of_standsFor? acyclic stands
        · intro later grows acyclic
          have allGrows := (Environment.Grows.of_binds proper.consistent step).trans grows
          exact (allGrows.expand_follow acyclic other).symm

end Unification

open Unification
open ShaderTyping.Action (Ensures)

variable {env : Environment}

/-- A length at whose end a variable was bound to another length is resolved to that one. -/
theorem resolveLength_of_bindLength
    (proper : env.Proper)
    {id : LengthId}
    {first second : Length}
    (isVar : env.resolveLength first = .var id)
    (different : env.resolveLength second ≠ .var id)
    (event : UnifyEvent)
    (left right : Operand)
    {later : Environment}
    (grows :
      ((env.traceUnify event left right).bindLength id (env.resolveLength second)).Grows later)
    (consistent : later.frames.Consistent) :
    later.resolveLength first = later.resolveLength (env.resolveLength second) ∧
      later.resolveLength second = later.resolveLength (env.resolveLength second) := by
  have step := Binds.length event left right isVar different
  have allGrows := (Environment.Grows.of_binds proper.consistent step).trans grows
  have isBound := grows.lengths (Environment.length?_bindLength _ id _)
  constructor
  · rw [← allGrows.resolveLength_resolveLength consistent first, isVar,
      Environment.resolveLength_var consistent, isBound]
  · exact (allGrows.resolveLength_resolveLength consistent second).symm

/-- Lengths that were made to agree are resolved to the same from then on. -/
theorem unifyLength_ensures
    (proper : env.Proper)
    (left right : Length) :
    Ensures (unifyLength left right) env fun length final =>
      env.Advances final ∧
        ∀ {later : Environment}, final.Grows later → later.frames.Consistent →
          later.resolveLength left = later.resolveLength length ∧
            later.resolveLength right = later.resolveLength length := by
  refine .bind_environment ?_
  dsimp only
  split
  · rename_i same
    refine .pure ⟨.refl proper, ?_⟩
    intro later grows consistent
    constructor
    · exact (grows.resolveLength_resolveLength consistent left).symm
    · rw [same]
      exact (grows.resolveLength_resolveLength consistent right).symm
  · rename_i different
    split
    · rename_i id isVar
      rw [isVar] at different
      intro length final ended
      cases ended
      refine ⟨⟨.single (.length _ _ _ isVar (Ne.symm different)), ?_⟩, ?_⟩
      · exact proper.bindLength isVar (Ne.symm different) _ _ _
      · exact resolveLength_of_bindLength proper isVar (Ne.symm different) _ _ _
    · rename_i id isVar _
      rw [isVar] at different
      intro length final ended
      cases ended
      refine ⟨⟨.single (.length _ _ _ isVar different), ?_⟩, ?_⟩
      · exact proper.bindLength isVar different _ _ _
      · intro later grows consistent
        exact (resolveLength_of_bindLength proper isVar different _ _ _ grows consistent).symm
    · exact .fail

namespace Unification

variable {recur : Ty → Ty → Action UnifyError Ty}

/-- Wherever it succeeds, the action finds what its two types agree on. -/
def Sound (recur : Ty → Ty → Action UnifyError Ty) : Prop :=
  ∀ {env : Environment} {left right : Ty},
    env.Proper →
    left.Ordered →
    right.Ordered →
    Ensures (recur left right) env (env.Unifies left right)

/-- Shared fields are unified one after the other, each in the environment left before. -/
theorem mapM_ensures
    (sound : Sound recur)
    {shared : List (String × Ty × Ty)}
    (proper : env.Proper)
    (ordered : ∀ field ∈ shared, field.2.1.Ordered ∧ field.2.2.Ordered) :
    Ensures
      (shared.mapM fun (label, first, second) => do
        let ty ← recur first second
        pure (label, ty))
      env
      fun fields final =>
        env.Advances final ∧
          List.Forall₂
            (fun field met =>
              met.1 = field.1 ∧ met.2.Ordered ∧ final.Agrees field.2.1 field.2.2 met.2)
            shared fields := by
  induction shared generalizing env with
  | nil =>
      rw [List.mapM_nil]
      exact .pure ⟨.refl proper, .nil⟩
  | cons field rest inductionHypothesis =>
      obtain ⟨firstOrdered, secondOrdered⟩ := ordered field List.mem_cons_self
      have firstEnsures :
          Ensures
            (do
              let ty ← recur field.2.1 field.2.2
              pure (field.1, ty))
            env
            fun met middle =>
              met.1 = field.1 ∧ env.Unifies field.2.1 field.2.2 met.2 middle :=
        .bind (sound proper firstOrdered secondOrdered) fun unifies => .pure ⟨rfl, unifies⟩
      rw [List.mapM_cons]
      refine .bind firstEnsures fun {met middle} ⟨sameLabel, unifies⟩ => ?_
      have middleProper := unifies.advances.proper
      have restEnsures :=
        inductionHypothesis middleProper fun other member =>
          ordered other (List.mem_cons_of_mem _ member)
      refine .bind restEnsures fun {others final} ⟨advances, agreed⟩ => ?_
      have agrees := unifies.agrees.mono (advances.grows middleProper)
      exact .pure
        ⟨unifies.advances.trans advances, .cons ⟨sameLabel, unifies.ordered, agrees⟩ agreed⟩

/-- Structs agree on the fields that they share if each of these fields does. -/
theorem struct_agrees
    {left right fields : List (String × Ty)}
    {final : Environment}
    (leftSorted : Ty.Sorted left)
    (rightSorted : Ty.Sorted right)
    (notEmpty : Ty.sharedFields left right ≠ [])
    (agreed :
      List.Forall₂
        (fun field met =>
          met.1 = field.1 ∧ met.2.Ordered ∧ final.Agrees field.2.1 field.2.2 met.2)
        (Ty.sharedFields left right) fields) :
    final.Agrees (.struct left) (.struct right) (.struct fields) := by
  intro later grows consistent acyclic
  have notNil : (fields.map fun field => (field.1, later.expand field.2)) ≠ [] := by
    intro isNil
    rw [List.map_eq_nil_iff] at isNil
    subst isNil
    exact notEmpty (List.forall₂_nil_right_iff.mp agreed)
  simp only [Environment.expand_struct acyclic]
  constructor
  · refine Ty.meet?_struct (leftSorted.map later.expand) (Ty.meetFields_eq_some ?_) notNil
    rw [Ty.sharedFields_map, List.forall₂_map_left_iff, List.forall₂_map_right_iff]
    refine agreed.imp ?_
    rintro shared met ⟨sameLabel, _, agrees⟩
    exact ⟨sameLabel, (agrees later grows consistent acyclic).1⟩
  · refine Ty.meet?_struct (rightSorted.map later.expand) (Ty.meetFields_eq_some ?_) notNil
    rw [Ty.sharedFields_map, Ty.sharedFields_swap leftSorted rightSorted, List.map_map,
      List.forall₂_map_left_iff, List.forall₂_map_right_iff]
    refine agreed.imp ?_
    rintro shared met ⟨sameLabel, _, agrees⟩
    exact ⟨sameLabel, (agrees later grows consistent acyclic).2⟩

/-- The fields that two structs share are unified to a struct that both agree on. -/
theorem meet_ensures
    (sound : Sound recur)
    (proper : env.Proper)
    {left right : List (String × Ty)}
    (leftOrdered : (Ty.struct left).Ordered)
    (rightOrdered : (Ty.struct right).Ordered) :
    Ensures (meet recur left right) env (env.Unifies (.struct left) (.struct right)) := by
  cases leftOrdered with
  | struct leftSorted leftEach =>
  cases rightOrdered with
  | struct rightSorted rightEach =>
  have eachOrdered :
      ∀ field ∈ Ty.sharedFields left right, field.2.1.Ordered ∧ field.2.2.Ordered := by
    rintro ⟨label, first, second⟩ member
    obtain ⟨inLeft, found⟩ := Ty.mem_sharedFields.mp member
    exact ⟨leftEach _ inLeft, rightEach _ (mem_of_lookup found)⟩
  unfold meet
  split
  · exact .bind (note_ensures proper _ _ _) fun _ => .bind_environment .fail
  · rename_i notEmpty
    refine .bind (note_ensures proper _ _ _) fun noted => ?_
    refine .bind (mapM_ensures sound noted.proper eachOrdered) fun ⟨advances, agreed⟩ => ?_
    refine .pure
      { advances := noted.trans advances
        ordered := .struct ?_ ?_
        agrees := struct_agrees leftSorted rightSorted notEmpty agreed }
    · refine leftSorted.of_labels ?_
      rw [Ty.map_fst_of_forall₂ (agreed.imp fun _ _ isMet => isMet.1)]
      exact Ty.sharedFields_labels left right
    · intro met member
      obtain ⟨_, _, _, ordered, _⟩ := exists_of_forall₂ agreed member
      exact ordered

/-- Two arrays are unified by their components and then their lengths. -/
theorem array_ensures
    (sound : Sound recur)
    (proper : env.Proper)
    {component component' : Ty}
    (ordered : component.Ordered)
    (ordered' : component'.Ordered)
    (length length' : Length) :
    Ensures
      (do
        let component ← recur component component'
        let length ← unifyLength length length'
        pure (.array component length))
      env (env.Unifies (.array component length) (.array component' length')) := by
  refine .bind (sound proper ordered ordered') fun {met middle} unifies => ?_
  have middleProper := unifies.advances.proper
  refine .bind (unifyLength_ensures middleProper length length') fun ⟨advances, same⟩ => .pure ?_
  refine
    { advances := unifies.advances.trans advances
      ordered := .array _ unifies.ordered
      agrees := ?_ }
  intro later grows consistent acyclic
  obtain ⟨sameLeft, sameRight⟩ := same grows consistent
  have agrees := unifies.agrees.mono (advances.grows middleProper)
  obtain ⟨agreed, agreed'⟩ := agrees later grows consistent acyclic
  simp only [Environment.expand_array acyclic, sameLeft, sameRight]
  exact ⟨Ty.meet?_array agreed _, Ty.meet?_array agreed' _⟩

/-- Two functions are unified by their parameters and then their results. -/
theorem function_ensures
    (sound : Sound recur)
    (proper : env.Proper)
    {param result param' result' : Ty}
    (ordered : (Ty.function param result).Ordered)
    (ordered' : (Ty.function param' result').Ordered) :
    Ensures
      (do
        let param ← recur param param'
        let result ← recur result result'
        pure (.function param result))
      env (env.Unifies (.function param result) (.function param' result')) := by
  cases ordered with
  | function paramOrdered resultOrdered =>
  cases ordered' with
  | function paramOrdered' resultOrdered' =>
  refine .bind (sound proper paramOrdered paramOrdered') fun {metParam middle} params => ?_
  have middleProper := params.advances.proper
  refine .bind (sound middleProper resultOrdered resultOrdered') fun results => .pure ?_
  refine
    { advances := params.advances.trans results.advances
      ordered := .function params.ordered results.ordered
      agrees := ?_ }
  intro later grows consistent acyclic
  have paramAgrees := params.agrees.mono (results.advances.grows middleProper)
  obtain ⟨param, param'⟩ := paramAgrees later grows consistent acyclic
  obtain ⟨result, result'⟩ := results.agrees later grows consistent acyclic
  simp only [Environment.expand_function acyclic]
  exact ⟨Ty.meet?_function param result, Ty.meet?_function param' result'⟩

/-- `int` and `float` agree on `float`. -/
theorem widen_agrees (env : Environment) : env.Agrees Ty.int Ty.float Ty.float := by
  intro later _ _ acyclic
  simp only [Ty.int, Ty.float, Environment.expand_primitive acyclic]
  decide

/-- One step of unification is sound if the unification of smaller problems is. -/
theorem step_sound (sound : Sound recur) : Sound (step recur) := by
  intro env left right proper leftOrdered rightOrdered
  unfold step
  split
  · rename_i same
    subst same
    refine .bind (note_ensures proper _ _ _) fun noted => .pure ⟨noted, leftOrdered, .of_eq ?_ ?_⟩
    · exact fun _ _ => rfl
    · exact fun _ _ => rfl
  split
  case h_1 scope id _ =>
    refine .bind_environment ?_
    split
    · rename_i bound isBound
      have stands : env.standsFor? (.placeholder scope id) = some bound := isBound
      refine (sound proper (proper.ordered.binding? isBound) rightOrdered).imp fun unifies => ?_
      refine { unifies with agrees := unifies.agrees.congr_left fun grows acyclic => ?_ }
      have allGrows := (unifies.advances.grows proper).trans grows
      exact Environment.expand_of_standsFor? acyclic (allGrows.standsFor? stands)
    · rename_i unbound
      exact bind_ensures proper unbound scope rightOrdered
  case h_2 =>
    exact (sound proper rightOrdered leftOrdered).imp fun unifies => unifies.symm
  case h_3 =>
    refine .bind (definition_ensures _ _) ?_
    rintro _ _ ⟨rfl, rfl⟩
    refine .bind (note_ensures proper _ _ _) fun noted => ?_
    refine (sound noted.proper (proper.ordered.head leftOrdered) rightOrdered).imp fun unifies => ?_
    exact (unifies.after noted).of_head proper
  case h_4 =>
    refine .bind (definition_ensures _ _) ?_
    rintro _ _ ⟨rfl, rfl⟩
    refine .bind (note_ensures proper _ _ _) fun noted => ?_
    refine (sound noted.proper leftOrdered (proper.ordered.head rightOrdered)).imp fun unifies => ?_
    exact ((unifies.after noted).symm.of_head proper).symm
  case h_5 component length component' length' _ =>
    cases leftOrdered with
    | array _ ordered =>
    cases rightOrdered with
    | array _ ordered' =>
    refine .bind (note_ensures proper _ _ _) fun noted => ?_
    exact (array_ensures sound noted.proper ordered ordered' _ _).imp fun unifies =>
      unifies.after noted
  case h_6 =>
    exact meet_ensures sound proper leftOrdered rightOrdered
  case h_7 =>
    refine .bind (note_ensures proper _ _ _) fun noted => ?_
    exact (function_ensures sound noted.proper leftOrdered rightOrdered).imp fun unifies =>
      unifies.after noted
  case h_8 =>
    refine .bind (note_ensures proper _ _ _) fun noted => .pure ?_
    exact ⟨noted, .primitive _, widen_agrees _⟩
  case h_9 =>
    refine .bind (note_ensures proper _ _ _) fun noted => .pure ?_
    exact ⟨noted, .primitive _, (widen_agrees _).symm⟩
  case h_10 =>
    exact mismatch_ensures _ _ _

/-- Unification in any number of steps finds what two types agree on. -/
theorem within_sound (steps : Nat) : Sound (within steps) := by
  induction steps with
  | zero =>
      intro env left right _ _ _ ty final ended
      cases ended
  | succ steps inductionHypothesis => exact step_sound inductionHypothesis

end Unification

/-- Unification finds what two types agree on. -/
theorem unify_sound : Unification.Sound unify := by
  intro env left right proper leftOrdered rightOrdered ty final ended
  have first := Unification.within_sound Unification.usualNesting proper leftOrdered rightOrdered
  have second :=
    Unification.within_sound (Unification.limit env left right) proper leftOrdered rightOrdered
  unfold unify Action.orElse at ended
  split at ended
  · rename_i isOk
    cases ended
    exact first _ _ isOk
  · cases ended
  · exact second _ _ ended

/--
If two types can be unified, the resulting type expands to what they agree on.

Unification may bind variables on the way; all three types are expanded in the
environment that it leaves.  Structs list their fields in label order in every
type that is declared, passed to an operation or unified.
-/
theorem expand_unify_eq_meet?
    {env final : Environment}
    {left right ty : Ty}
    (reachable : env.ReachableWith .ordered)
    (acyclic : env.Acyclic)
    (leftOrdered : left.Ordered)
    (rightOrdered : right.Ordered)
    (unified : unify left right env = .ok ty final) :
    (final.expand left).meet? (final.expand right) = some (final.expand ty) := by
  have proper : env.Proper := ⟨reachable.reachable.consistent, reachable.satisfies⟩
  have unifies := unify_sound proper leftOrdered rightOrdered ty final unified
  obtain ⟨consistent, _, keepsAcyclic⟩ :=
    Environment.grows_of_binds proper.consistent unifies.advances.binds
  exact (unifies.agrees final (.refl final) consistent (keepsAcyclic acyclic)).1

/-- A declared struct and one with a placeholder agree on a struct of two floats. -/
theorem expand_unify_eq_meet?_point :
    ∃ env final : Environment,
      (env.ReachableWith .ordered ∧ env.Acyclic) ∧
      unify (.named .native "Point")
        (.struct [("x", Ty.float), ("y", .placeholder .native ⟨0⟩)]) env =
          .ok (.struct [("x", Ty.float), ("y", Ty.float)]) final ∧
      (final.expand (.named .native "Point")).meet?
          (final.expand (.struct [("x", Ty.float), ("y", .placeholder .native ⟨0⟩)])) =
        some (final.expand (.struct [("x", Ty.float), ("y", Ty.float)])) := by
  let point : Ty := .struct [("x", Ty.int), ("y", Ty.float)]
  let env : Environment :=
    Operation.declare (Environment.empty Options.standard) fun declared =>
      declared.declareType .native "Point" point
  have pointOrdered : point.Ordered := by
    refine .struct (List.pairwise_pair.mpr (by decide)) fun field member => ?_
    have isField : field = ("x", Ty.int) ∨ field = ("y", Ty.float) := by simpa using member
    rcases isField with rfl | rfl
    · exact .primitive _
    · exact .primitive _
  have reachable : env.ReachableWith .ordered :=
    ⟨Options.standard, [.declareType .native "Point" point], ⟨pointOrdered, trivial⟩, rfl⟩
  have stands {leaf next : Ty} (found : env.standsFor? leaf = some next) : next = point := by
    cases leaf with
    | placeholder scope id =>
        have unbound : env.binding? id = none := FrameStack.placeholder?_empty id
        exact absurd (unbound.symm.trans found) (by simp)
    | named scope name =>
        obtain ⟨⟨key, definition⟩, isDefined, rfl⟩ := Option.map_eq_some_iff.mp found
        obtain ⟨declaration, isFound, isValue⟩ :=
          Option.map_eq_some_iff.mp (Environment.local?_of_definition? isDefined)
        have member : declaration ∈ [⟨.native, "Point", point⟩] :=
          List.mem_of_find?_eq_some isFound
        rw [List.mem_singleton.mp member] at isValue
        exact isValue.symm
    | _ => cases found
  have acyclic : env.Acyclic := by
    refine .of_final fun {leaf next mentioned} found isLeaf => ?_
    rw [stands found] at isLeaf
    have isPrimitive : mentioned = Ty.int ∨ mentioned = Ty.float := by
      simpa [point, Ty.int, Ty.float] using isLeaf
    rcases isPrimitive with rfl | rfl
    · rfl
    · rfl
  have rightOrdered :
      (Ty.struct [("x", Ty.float), ("y", .placeholder .native ⟨0⟩)]).Ordered := by
    refine .struct (List.pairwise_pair.mpr (by decide)) fun field member => ?_
    have isField : field = ("x", Ty.float) ∨ field = ("y", .placeholder .native ⟨0⟩) := by
      simpa using member
    rcases isField with rfl | rfl
    · exact .primitive _
    · exact .placeholder _ _
  obtain ⟨final, unified⟩ := Outcome.eq_ok_of_value?
    (show
      (unify (.named .native "Point")
        (.struct [("x", Ty.float), ("y", .placeholder .native ⟨0⟩)]) env).value? =
          some (.struct [("x", Ty.float), ("y", Ty.float)]) by decide +kernel)
  refine ⟨env, final, ⟨reachable, acyclic⟩, unified, ?_⟩
  exact expand_unify_eq_meet? reachable acyclic (.named _ _) rightOrdered unified

end ShaderTyping
