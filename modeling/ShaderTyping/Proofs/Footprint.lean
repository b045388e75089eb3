import ShaderTyping.Proofs.Composition
import ShaderTyping.Proofs.Endings

namespace ShaderTyping

/-!
# What unification reaches

A type touches the variables that are met in it: in its structure, its bindings and its
definitions.  A binding that unification makes lets types touch more variables, but only such as
the two unified types touched from the start (`Environment.BindsWithin`).  So unification binds
no other variables, whether it succeeds or fails, and every type that touches none of those that
are bound is resolved as before (`unify_binds_only_touched`).
-/

open ShaderTyping.Action (Obeys)
open Environment (Binds)
open Relation (ReflTransGen)

/-- What a direct part of a type contributes, the type contributes. -/
theorem Ty.collect_subset_of_mem_children
    {leaf : Ty → List α}
    {length : Length → List α}
    {whole part : Ty}
    (isPart : part ∈ whole.children) :
    part.collect leaf length ⊆ whole.collect leaf length := by
  intro item inPart
  cases whole with
  | array component bound =>
      cases List.mem_singleton.mp isPart
      rw [collect_array]
      exact List.mem_append_left _ inPart
  | struct fields =>
      obtain ⟨field, isField, rfl⟩ := List.mem_map.mp isPart
      rw [collect_struct]
      exact List.mem_flatMap.mpr ⟨field, isField, inPart⟩
  | function param result =>
      rw [collect_function, List.mem_append]
      rcases List.mem_cons.mp isPart with rfl | isResult
      · exact Or.inl inPart
      · cases List.mem_singleton.mp isResult
        exact Or.inr inPart
  | union members =>
      rw [collect_union]
      exact List.mem_flatMap.mpr ⟨part, isPart, inPart⟩
  | _ => contradiction

namespace Environment

/-! ## Touched variables -/

/-- A length variable is met at a length or along its bindings. -/
inductive LengthTouches (env : Environment) : Length → LengthId → Prop where
  | here (id : LengthId) :
      LengthTouches env (.var id) id
  | through {id other : LengthId} {bound : Length} :
      env.frames.length? id = some bound →
      LengthTouches env bound other →
      LengthTouches env (.var id) other

/-- A variable is met in a type: in its structure, its bindings and its definitions. -/
inductive Touches (env : Environment) : Ty → Var → Prop where
  | placeholder {ty : Ty} {id : PlaceholderId} :
      ty.Mentions id →
      Touches env ty (.placeholder id)
  | length {ty : Ty} {length : Length} {id : LengthId} :
      length ∈ ty.lengths →
      env.LengthTouches length id →
      Touches env ty (.length id)
  | through {ty leaf next : Ty} {var : Var} :
      leaf ∈ ty.leaves →
      env.standsFor? leaf = some next →
      Touches env next var →
      Touches env ty var

/-- All variables that are met at a length are among the given ones. -/
def LengthTouchesOnly (env : Environment) (vars : Var → Prop) (length : Length) : Prop :=
  ∀ id, env.LengthTouches length id → vars (.length id)

/-- All variables that a type touches are among the given ones. -/
def TouchesOnly (env : Environment) (vars : Var → Prop) (ty : Ty) : Prop :=
  ∀ var, env.Touches ty var → vars var

variable {env later : Environment} {vars : Var → Prop}

/-- A type touches what its parts touch. -/
theorem Touches.of_mem_children
    {whole part : Ty}
    {var : Var}
    (isPart : part ∈ whole.children)
    (touches : env.Touches part var) :
    env.Touches whole var := by
  cases touches with
  | placeholder mentions => exact .placeholder (Ty.collect_subset_of_mem_children isPart mentions)
  | length isLength touches =>
      exact .length (Ty.collect_subset_of_mem_children isPart isLength) touches
  | through isLeaf stands touches =>
      exact .through (Ty.leaves_subset_of_mem_children isPart isLeaf) stands touches

/-- What is met at the end of a length is met at the length. -/
theorem LengthTouches.of_resolveLength
    {length : Length}
    {id : LengthId}
    (touches : env.LengthTouches (env.resolveLength length) id) :
    env.LengthTouches length id := by
  have within (steps : Nat) {length : Length}
      (touches : env.LengthTouches (env.resolveLengthWithin steps length) id) :
      env.LengthTouches length id := by
    induction steps generalizing length with
    | zero => cases length <;> exact touches
    | succ steps inductionHypothesis =>
        cases length with
        | known count => exact touches
        | var first =>
            rw [resolveLengthWithin] at touches
            cases isBound : env.frames.length? first with
            | none =>
                rw [isBound] at touches
                exact touches
            | some bound =>
                rw [isBound] at touches
                exact .through isBound (inductionHypothesis touches)
  cases length with
  | known count => exact touches
  | var first => exact within _ touches

namespace TouchesOnly

/-- A part touches no more than the whole. -/
theorem of_mem_children
    {whole part : Ty}
    (only : env.TouchesOnly vars whole)
    (isPart : part ∈ whole.children) :
    env.TouchesOnly vars part :=
  fun var touches => only var (touches.of_mem_children isPart)

/-- An array touches what is met at its length. -/
theorem length
    {component : Ty}
    {length : Length}
    (only : env.TouchesOnly vars (.array component length)) :
    env.LengthTouchesOnly vars length := by
  have isLength : length ∈ (Ty.array component length).lengths := by
    rw [Ty.lengths_array]
    exact List.mem_append_right _ (List.mem_singleton_self _)
  exact fun id touches => only _ (.length isLength touches)

/-- What a leaf stands for touches no more than the leaf. -/
theorem of_standsFor?
    {leaf next : Ty}
    (only : env.TouchesOnly vars leaf)
    (stands : env.standsFor? leaf = some next) :
    env.TouchesOnly vars next := by
  have isLeaf : leaf ∈ leaf.leaves := by
    cases leaf with
    | placeholder scope id => exact List.mem_singleton_self _
    | named scope name => exact List.mem_singleton_self _
    | _ => cases stands
  exact fun var touches => only var (.through isLeaf stands touches)

/-- What a placeholder is bound to touches no more than the placeholder. -/
theorem of_binding?
    {scope : ScopeId}
    {id : PlaceholderId}
    {bound : Ty}
    (only : env.TouchesOnly vars (.placeholder scope id))
    (isBound : env.binding? id = some bound) :
    env.TouchesOnly vars bound :=
  only.of_standsFor? isBound

/-- Where a type is followed to touches no more than the type. -/
theorem follow {ty : Ty} (only : env.TouchesOnly vars ty) : env.TouchesOnly vars (env.follow ty) :=
  follow_induction of_binding? only

/-- The head of a type touches no more than the type. -/
theorem head {ty : Ty} (only : env.TouchesOnly vars ty) : env.TouchesOnly vars (env.head ty) :=
  head_induction of_standsFor? only

/-- A placeholder that touches given variables only is among them. -/
theorem placeholder
    {scope : ScopeId}
    {id : PlaceholderId}
    (only : env.TouchesOnly vars (.placeholder scope id)) :
    vars (.placeholder id) := by
  refine only _ (.placeholder (Ty.mentions_iff_mem_leaves.mpr ⟨scope, ?_⟩))
  exact List.mem_singleton_self _

end TouchesOnly

/-! ## Bindings of touched variables -/

/--
Only given variables have been bound, and types that touched no others before still touch no
others.
-/
structure BindsWithin (vars : Var → Prop) (env later : Environment) : Prop where
  bound : ∀ {var}, later.isBound var = true → env.isBound var = true ∨ vars var
  lengthTouchesOnly :
    ∀ {length}, env.LengthTouchesOnly vars length → later.LengthTouchesOnly vars length
  touchesOnly : ∀ {ty}, env.TouchesOnly vars ty → later.TouchesOnly vars ty

/-- Binding within given variables is reflexive and transitive. -/
instance : IsPreorder Environment (BindsWithin vars) where
  refl _ := ⟨Or.inl, fun only => only, fun only => only⟩
  trans _ _ _ first second :=
    { bound := fun isBound => (second.bound isBound).elim first.bound Or.inr
      lengthTouchesOnly := fun only => second.lengthTouchesOnly (first.lengthTouchesOnly only)
      touchesOnly := fun only => second.touchesOnly (first.touchesOnly only) }

namespace BindsWithin

/-- Given variables may be bound to types and lengths that touch only given variables. -/
theorem of_bindings
    (declared : later.declared = env.declared)
    (bindings :
      ∀ {id ty}, later.binding? id = some ty →
        env.binding? id = some ty ∨ vars (.placeholder id) ∧ env.TouchesOnly vars ty)
    (lengths :
      ∀ {id length}, later.frames.length? id = some length →
        env.frames.length? id = some length ∨
          vars (.length id) ∧ env.LengthTouchesOnly vars length) :
    BindsWithin vars env later := by
  have touchesLength {length : Length} {id : LengthId} (touches : later.LengthTouches length id) :
      env.LengthTouches length id ∨ vars (.length id) := by
    induction touches with
    | here id => exact Or.inl (.here id)
    | through isBound _ inductionHypothesis =>
        rcases inductionHypothesis with touches | isGiven
        · rcases lengths isBound with before | ⟨_, only⟩
          · exact Or.inl (.through before touches)
          · exact Or.inr (only _ touches)
        · exact Or.inr isGiven
  have stands {leaf next : Ty} (found : later.standsFor? leaf = some next) :
      env.standsFor? leaf = some next ∨ env.TouchesOnly vars next := by
    cases leaf with
    | placeholder scope id => exact (bindings found).imp_right And.right
    | named scope name =>
        refine Or.inl ?_
        change (env.definition? scope name).map Prod.snd = some next
        rw [← definition?_congr declared]
        exact found
    | _ => cases found
  have touchesType {ty : Ty} {var : Var} (touches : later.Touches ty var) :
      env.Touches ty var ∨ vars var := by
    induction touches with
    | placeholder mentions => exact Or.inl (.placeholder mentions)
    | length isLength touches => exact (touchesLength touches).imp_left (.length isLength)
    | through isLeaf found _ inductionHypothesis =>
        rcases inductionHypothesis with touches | isGiven
        · rcases stands found with before | only
          · exact Or.inl (.through isLeaf before touches)
          · exact Or.inr (only _ touches)
        · exact Or.inr isGiven
  constructor
  · intro var isBound
    cases var with
    | placeholder id =>
        obtain ⟨ty, found⟩ := Option.isSome_iff_exists.mp isBound
        exact (bindings found).imp Option.isSome_of_eq_some And.left
    | length id =>
        obtain ⟨length, found⟩ := Option.isSome_iff_exists.mp isBound
        exact (lengths found).imp Option.isSome_of_eq_some And.left
    | parametric scope label => cases isBound
  · exact fun only id touches => (touchesLength touches).elim (only id) fun isGiven => isGiven
  · exact fun only var touches => (touchesType touches).elim (only var) fun isGiven => isGiven

/-- Writing down a step binds nothing. -/
theorem note (event : UnifyEvent) (left right : Operand) :
    BindsWithin vars env (env.traceUnify event left right) := by
  refine of_bindings (declared_traceUnify event left right env) ?_ ?_
  · intro id ty found
    rw [binding?, frames_traceUnify] at found
    exact Or.inl found
  · intro id length found
    rw [frames_traceUnify] at found
    exact Or.inl found

/-- Binding a given placeholder to a type that touches given variables only stays within them. -/
theorem bindPlaceholder
    {id : PlaceholderId}
    {ty : Ty}
    (isGiven : vars (.placeholder id))
    (only : env.TouchesOnly vars ty) :
    BindsWithin vars env (env.bindPlaceholder id ty) := by
  refine of_bindings rfl ?_ fun found => Or.inl found
  intro other bound found
  rw [binding?, Environment.bindPlaceholder, FrameStack.placeholder?_bindPlaceholder] at found
  split at found
  · rename_i same
    cases same
    cases found
    exact Or.inr ⟨isGiven, only⟩
  · exact Or.inl found

/-- Binding a given length variable to a length that touches given ones only stays within them. -/
theorem bindLength
    {id : LengthId}
    {length : Length}
    (isGiven : vars (.length id))
    (only : env.LengthTouchesOnly vars length) :
    BindsWithin vars env (env.bindLength id length) := by
  refine of_bindings rfl (fun found => Or.inl ?_) ?_
  · rwa [binding?_bindLength] at found
  intro other bound found
  rw [Environment.bindLength, FrameStack.length?_bindLength] at found
  split at found
  · rename_i same
    cases same
    cases found
    exact Or.inr ⟨isGiven, only⟩
  · exact Or.inl found

end BindsWithin

end Environment

/-! ## Unification -/

open Environment (BindsWithin)

variable {env : Environment} {vars : Var → Prop} {recur : Ty → Ty → Action UnifyError Ty}

/-- Unification of lengths binds only variables that they touch. -/
theorem unifyLength_bindsWithin
    {left right : Length}
    (leftOnly : env.LengthTouchesOnly vars left)
    (rightOnly : env.LengthTouchesOnly vars right) :
    Obeys (BindsWithin vars) (unifyLength left right) env := by
  have resolvedOnly {length : Length} (only : env.LengthTouchesOnly vars length) :
      env.LengthTouchesOnly vars (env.resolveLength length) :=
    fun id touches => only id touches.of_resolveLength
  have binds {id : LengthId} {length other : Length}
      (isVar : env.resolveLength length = .var id)
      (only : env.LengthTouchesOnly vars length)
      (otherOnly : env.LengthTouchesOnly vars other)
      (event : UnifyEvent)
      (first second : Operand) :
      BindsWithin vars env ((env.traceUnify event first second).bindLength id other) := by
    have isGiven : vars (.length id) := resolvedOnly only id (isVar ▸ .here id)
    have noted : BindsWithin vars env (env.traceUnify event first second) := .note event _ _
    have only := noted.lengthTouchesOnly otherOnly
    exact Trans.trans noted (BindsWithin.bindLength isGiven only)
  refine .bind_environment ?_
  dsimp only
  split
  · exact .pure _
  · split
    · rename_i isVar
      intro final ended
      cases ended
      exact binds isVar leftOnly (resolvedOnly rightOnly) _ _ _
    · rename_i isVar _
      intro final ended
      cases ended
      exact binds isVar rightOnly (resolvedOnly leftOnly) _ _ _
    · exact .fail _

namespace Unification

/-- Writing down a step of unification binds nothing. -/
theorem note_bindsWithin (event : UnifyEvent) (left right : Ty) :
    Obeys (BindsWithin vars) (note event left right : Action ε Unit) env :=
  .update (.note event _ _)

/-- Reporting a mismatch binds nothing. -/
theorem mismatch_bindsWithin (left right : Ty) :
    Obeys (BindsWithin vars) (mismatch left right : Action UnifyError α) env :=
  .bind (note_bindsWithin _ _ _) fun _ => .bind_environment (.fail _)

/-- Looking up what a reference stands for binds nothing. -/
theorem definition_bindsWithin (reference other : Ty) :
    Obeys (BindsWithin vars) (definition reference other) env := by
  refine .bind_environment ?_
  split
  · split
    · exact .fail _
    · exact mismatch_bindsWithin _ _
  · exact .pure _

/-- Binding a placeholder stays within what it and the other type touch. -/
theorem bind_bindsWithin
    {scope : ScopeId}
    {id : PlaceholderId}
    {other : Ty}
    (varOnly : env.TouchesOnly vars (.placeholder scope id))
    (otherOnly : env.TouchesOnly vars other) :
    Obeys (BindsWithin vars) (bind scope id other) env := by
  refine .bind_environment ?_
  dsimp only
  split
  · exact .pure _
  · split
    · exact .bind (note_bindsWithin _ _ _) fun _ => .fail _
    · refine .bind_related (note_bindsWithin _ _ _) fun _ noted => ?_
      have only := noted.touchesOnly otherOnly.follow
      exact .bind (.update (.bindPlaceholder varOnly.placeholder only)) fun _ => .pure _

/-- The unification of types that touch only given variables binds only given variables. -/
def StaysWithin (vars : Var → Prop) (recur : Ty → Ty → Action UnifyError Ty) : Prop :=
  ∀ {env : Environment} {left right : Ty},
    env.TouchesOnly vars left →
    env.TouchesOnly vars right →
    Obeys (BindsWithin vars) (recur left right) env

/-- Shared fields are unified one after the other, each in the environment left before. -/
theorem mapM_bindsWithin
    (stays : StaysWithin vars recur)
    {shared : List (String × Ty × Ty)}
    (only :
      ∀ field ∈ shared, env.TouchesOnly vars field.2.1 ∧ env.TouchesOnly vars field.2.2) :
    Obeys (BindsWithin vars)
      (shared.mapM fun (label, first, second) => do
        let ty ← recur first second
        pure (label, ty))
      env := by
  induction shared generalizing env with
  | nil => exact .pure _
  | cons field rest inductionHypothesis =>
      obtain ⟨⟨firstOnly, secondOnly⟩, restOnly⟩ := List.forall_mem_cons.mp only
      have fieldBinds :
          Obeys (BindsWithin vars)
            (do
              let ty ← recur field.2.1 field.2.2
              pure (field.1, ty))
            env :=
        .bind (stays firstOnly secondOnly) fun _ => .pure _
      rw [List.mapM_cons]
      refine .bind_related fieldBinds fun _ unified => ?_
      refine .bind (inductionHypothesis fun other isOther => ?_) fun _ => .pure _
      exact (restOnly other isOther).imp unified.touchesOnly unified.touchesOnly

/-- Unification of common fields stays within what both structs touch. -/
theorem meet_bindsWithin
    (stays : StaysWithin vars recur)
    {left right : List (String × Ty)}
    (leftOnly : env.TouchesOnly vars (.struct left))
    (rightOnly : env.TouchesOnly vars (.struct right)) :
    Obeys (BindsWithin vars) (meet recur left right) env := by
  unfold meet
  split
  · exact .bind (note_bindsWithin _ _ _) fun _ => .bind_environment (.fail _)
  · refine .bind_related (note_bindsWithin _ _ _) fun _ noted => ?_
    refine .bind (mapM_bindsWithin stays ?_) fun _ => .pure _
    rintro ⟨label, first, second⟩ isShared
    obtain ⟨inLeft, found⟩ := Ty.mem_sharedFields.mp isShared
    have firstOnly := leftOnly.of_mem_children (List.mem_map.mpr ⟨_, inLeft, rfl⟩)
    have secondOnly :=
      rightOnly.of_mem_children (List.mem_map.mpr ⟨_, mem_of_lookup found, rfl⟩)
    exact ⟨noted.touchesOnly firstOnly, noted.touchesOnly secondOnly⟩

/-- One step stays within the given variables if the unification of smaller problems does. -/
theorem step_staysWithin (stays : StaysWithin vars recur) : StaysWithin vars (step recur) := by
  intro env left right leftOnly rightOnly
  unfold step
  split
  · exact .bind (note_bindsWithin _ _ _) fun _ => .pure _
  split
  case h_1 =>
    refine .bind_environment ?_
    split
    · rename_i isBound
      exact stays (leftOnly.of_binding? isBound) rightOnly
    · exact bind_bindsWithin leftOnly rightOnly
  case h_2 => exact stays rightOnly leftOnly
  case h_3 =>
    refine .bind (definition_bindsWithin _ _) fun ended => ?_
    obtain ⟨rfl, rfl⟩ := definition_ensures _ _ _ _ ended
    refine .bind_related (note_bindsWithin _ _ _) fun _ noted => ?_
    exact stays (noted.touchesOnly leftOnly.head) (noted.touchesOnly rightOnly)
  case h_4 =>
    refine .bind (definition_bindsWithin _ _) fun ended => ?_
    obtain ⟨rfl, rfl⟩ := definition_ensures _ _ _ _ ended
    refine .bind_related (note_bindsWithin _ _ _) fun _ noted => ?_
    exact stays (noted.touchesOnly leftOnly) (noted.touchesOnly rightOnly.head)
  case h_5 =>
    refine .bind_related (note_bindsWithin _ _ _) fun _ noted => ?_
    have notedLeft := noted.touchesOnly leftOnly
    have notedRight := noted.touchesOnly rightOnly
    refine .bind_related
      (stays (notedLeft.of_mem_children (List.mem_singleton_self _))
        (notedRight.of_mem_children (List.mem_singleton_self _)))
      fun _ unified => ?_
    have leftLength := (unified.touchesOnly notedLeft).length
    have rightLength := (unified.touchesOnly notedRight).length
    exact .bind (unifyLength_bindsWithin leftLength rightLength) fun _ => .pure _
  case h_6 => exact meet_bindsWithin stays leftOnly rightOnly
  case h_7 =>
    have isResult {param result : Ty} : result ∈ (Ty.function param result).children :=
      List.mem_cons_of_mem _ (List.mem_singleton_self _)
    refine .bind_related (note_bindsWithin _ _ _) fun _ noted => ?_
    have notedLeft := noted.touchesOnly leftOnly
    have notedRight := noted.touchesOnly rightOnly
    refine .bind_related
      (stays (notedLeft.of_mem_children List.mem_cons_self)
        (notedRight.of_mem_children List.mem_cons_self))
      fun _ unified => ?_
    have leftResult := unified.touchesOnly (notedLeft.of_mem_children isResult)
    have rightResult := unified.touchesOnly (notedRight.of_mem_children isResult)
    exact .bind (stays leftResult rightResult) fun _ => .pure _
  case h_8 => exact .bind (note_bindsWithin _ _ _) fun _ => .pure _
  case h_9 => exact .bind (note_bindsWithin _ _ _) fun _ => .pure _
  case h_10 => exact mismatch_bindsWithin _ _

/-- Unification in any number of steps stays within what both types touch. -/
theorem within_staysWithin (steps : Nat) : StaysWithin vars (within steps) := by
  induction steps with
  | zero => exact fun _ _ => .exhausted
  | succ steps inductionHypothesis => exact step_staysWithin inductionHypothesis

end Unification

/-- Unification binds only variables that its types touch. -/
theorem unify_staysWithin : Unification.StaysWithin vars unify :=
  fun leftOnly rightOnly =>
    .orElse (Unification.within_staysWithin _ leftOnly rightOnly)
      (.bind_environment (Unification.within_staysWithin _ leftOnly rightOnly))

/-! ## What unification leaves -/

namespace Environment

variable {final : Environment}

/-- No variables were made, and nothing was written but bindings in the top frame. -/
structure OnlyBindingsWritten (env final : Environment) : Prop where
  fresh : final.fresh = env.fresh
  below : final.frames.below = env.frames.below
  inferred : final.frames.top.inferred = env.frames.top.inferred
  parameters : final.frames.top.parameters = env.frames.top.parameters
  genericLengths : final.frames.top.genericLengths = env.frames.top.genericLengths

namespace OnlyBindingsWritten

theorem trans
    (first : OnlyBindingsWritten env later)
    (second : OnlyBindingsWritten later final) :
    OnlyBindingsWritten env final where
  fresh := second.fresh.trans first.fresh
  below := second.below.trans first.below
  inferred := second.inferred.trans first.inferred
  parameters := second.parameters.trans first.parameters
  genericLengths := second.genericLengths.trans first.genericLengths

/-- A step of unification writes nothing that counts here. -/
theorem traceUnify (event : UnifyEvent) (left right : Operand) :
    OnlyBindingsWritten env (env.traceUnify event left right) := by
  rw [traceUnify_eq]
  exact ⟨rfl, rfl, rfl, rfl, rfl⟩

/-- What unification does writes bindings only. -/
theorem of_binds (steps : ReflTransGen Binds env final) : OnlyBindingsWritten env final := by
  induction steps with
  | refl => exact ⟨rfl, rfl, rfl, rfl, rfl⟩
  | tail _ step inductionHypothesis =>
      refine inductionHypothesis.trans ?_
      cases step with
      | note event left right => exact traceUnify event left right
      | placeholder event left right _ _ =>
          exact (traceUnify event left right).trans ⟨rfl, rfl, rfl, rfl, rfl⟩
      | length event left right _ _ =>
          exact (traceUnify event left right).trans ⟨rfl, rfl, rfl, rfl, rfl⟩

end OnlyBindingsWritten

/-- Only given variables were bound, and types that touch none of those are resolved as before. -/
structure BindsOnly (vars : Var → Prop) (env final : Environment) : Prop extends
    Grows env final, OnlyBindingsWritten env final where
  newlyBound : ∀ {var}, env.isBound var = false → final.isBound var = true → vars var
  resolve :
    ∀ {ty},
      (∀ var, env.isBound var = false → final.isBound var = true → ¬ env.Touches ty var) →
      final.resolve ty = env.resolve ty

/-- A type that touches no newly bound variable is resolved as before. -/
theorem Grows.resolve_eq
    (grows : env.Grows final)
    (consistent : env.frames.Consistent)
    (finalConsistent : final.frames.Consistent)
    {ty : Ty}
    (untouched :
      ∀ var, env.isBound var = false → final.isBound var = true → ¬ env.Touches ty var) :
    final.resolve ty = env.resolve ty := by
  induction ty using bindingInduction consistent with
  | step ty inductionHypothesis =>
      have stillUnbound {var : Var} (touches : env.Touches ty var)
          (unbound : env.isBound var = false) : final.isBound var = false :=
        Bool.eq_false_iff.mpr fun newlyBound => untouched var unbound newlyBound touches
      rw [resolve_eq_subst consistent, resolve_eq_subst finalConsistent]
      refine Ty.subst_congr_of_mem (fun length isLength => ?_) fun leaf isLeaf => ?_
      · refine grows.resolveLength_eq finalConsistent fun id ends => ?_
        have touches : env.LengthTouches length id := .of_resolveLength (ends ▸ .here id)
        have unbound := length?_of_resolveLength_eq_var consistent ends
        exact isBound_length_eq_false_iff.mp
          (stillUnbound (.length isLength touches) (isBound_length_eq_false_iff.mpr unbound))
      · cases Ty.isLeaf_of_mem_leaves isLeaf with
        | placeholder scope id =>
            simp only [Ty.subst_placeholder, resolution]
            cases found : env.binding? id with
            | some bound =>
                rw [grows.bindings found]
                refine inductionHypothesis isLeaf found fun var before newlyBound touches => ?_
                exact untouched var before newlyBound (.through isLeaf found touches)
            | none =>
                have mentions := Ty.mentions_iff_mem_leaves.mpr ⟨scope, isLeaf⟩
                have isUnbound :=
                  stillUnbound (.placeholder mentions) (isBound_placeholder_eq_false_iff.mpr found)
                rw [isBound_placeholder_eq_false_iff.mp isUnbound]
        | primitive | named | parametric =>
            simp only [Ty.subst_primitive, Ty.subst_named, Ty.subst_parametric, resolution]

end Environment

/--
Unification binds only variables that the unified types touch, through their structure, bindings
and definitions, whether it succeeds or fails.
-/
theorem unify_binds_only_touched
    {env final : Environment}
    {left right : Ty}
    (reachable : env.Reachable)
    (ended : (unify left right env).final? = some final) :
    env.BindsOnly (fun var => env.Touches left var ∨ env.Touches right var) final := by
  have consistent := reachable.consistent
  have steps := unify_binds left right env final ended
  obtain ⟨finalConsistent, grows, _⟩ := Environment.grows_of_binds consistent steps
  have within := unify_staysWithin (fun _ => Or.inl) (fun _ => Or.inr) final ended
  exact
    { grows, Environment.OnlyBindingsWritten.of_binds steps with
      newlyBound := fun unbound newlyBound =>
        (within.bound newlyBound).resolve_left (unbound ▸ Bool.false_ne_true)
      resolve := grows.resolve_eq consistent finalConsistent }

/-- Parameters agree, with a declared struct on one side, and then the results do not. -/
theorem unify_binds_only_touched_partially :
    let left : Ty := .function (.named .native "Samples") Ty.bool
    let right : Ty :=
      .function (.struct [("scale", Ty.float), ("values", .array Ty.int (.known 3))]) Ty.int
    ∃ env final : Environment,
      (env.Reachable ∧
        (unify left right env).final? = some final ∧
        (unify left right env).value? = none ∧
        [Var.placeholder ⟨0⟩, .placeholder ⟨1⟩, .placeholder ⟨2⟩, .length ⟨0⟩].map env.isBound =
          [false, false, false, false] ∧
        [Var.placeholder ⟨0⟩, .placeholder ⟨1⟩, .placeholder ⟨2⟩, .length ⟨0⟩].map final.isBound =
          [true, true, false, true]) ∧
      env.BindsOnly (fun var => env.Touches left var ∨ env.Touches right var) final := by
  intro left right
  let samples : Ty :=
    .struct
      [("scale", .placeholder .native ⟨0⟩),
        ("values", .array (.placeholder .native ⟨1⟩) (.var ⟨0⟩))]
  let shown := [Var.placeholder ⟨0⟩, .placeholder ⟨1⟩, .placeholder ⟨2⟩, .length ⟨0⟩]
  have computed :
      ((Operation.performAll
        [.freshPlaceholder .native, .freshPlaceholder .native, .freshPlaceholder .native,
          .freshLength, .declareType .native "Samples" samples, .push]
        (Environment.empty Options.standard)).bind fun env =>
          (unify left right env).final?.map fun final =>
            ((unify left right env).value?, shown.map env.isBound, shown.map final.isBound)) =
        some (none, [false, false, false, false], [true, true, false, true]) := by
    decide +kernel
  obtain ⟨env, performed, unified⟩ := Option.bind_eq_some_iff.mp computed
  obtain ⟨final, ended, shows⟩ := Option.map_eq_some_iff.mp unified
  simp only [Prod.mk.injEq] at shows
  obtain ⟨failed, before, after⟩ := shows
  have reachable : env.Reachable := ⟨_, _, performed⟩
  exact ⟨env, final, ⟨reachable, ended, failed, before, after⟩,
    unify_binds_only_touched reachable ended⟩

end ShaderTyping
