import ShaderTyping.Proofs.Agreement
import ShaderTyping.Proofs.MirroredEnvironments

namespace ShaderTyping

/-!
# Unification of types that are alike

Types that are alike differ only in references to constants that are written out, so they
agree without any binding: if unification comes to an answer, it is a type that is alike,
and nothing that can be read has changed (`within_stays`).
-/

/-! ## Actions that stay -/

namespace Action

/-- An action fails nowhere and changes nothing that can be read. -/
def Stays
    (holds : Environment → α → Prop)
    (action : Action ε α)
    (env : Environment) : Prop :=
  match action env with
  | .ok value later => env.ReadsLike later ∧ later.Sound ∧ holds later value
  | .error _ _ => False
  | .exhausted => True

namespace Stays

variable {holds : Environment → α → Prop} {result : Environment → β → Prop}
variable {env : Environment}

/-- Returning a value as stated changes nothing that is read. -/
theorem pure
    {value : α}
    (sound : env.Sound)
    (isResult : holds env value) :
    Stays holds (Pure.pure value : Action ε α) env :=
  ⟨.refl env, sound, isResult⟩

/-- Two actions in a row change nothing that is read if neither does. -/
theorem bind
    {first : Action ε α}
    {next : α → Action ε β}
    (stays : Stays holds first env)
    (continues :
      ∀ {value middle},
        env.ReadsLike middle →
        middle.Sound →
        holds middle value →
        Stays result (next value) middle) :
    Stays result (first >>= next) env := by
  change Stays result (Action.bind first next) env
  unfold Stays at stays ⊢
  unfold Action.bind
  cases ended : first env with
  | ok value middle =>
      rw [ended] at stays
      obtain ⟨shows, sound, isValue⟩ := stays
      have continued := continues shows sound isValue
      unfold Stays at continued
      dsimp only
      cases ended' : next value middle with
      | ok other later =>
          rw [ended'] at continued
          exact ⟨shows.trans continued.1, continued.2⟩
      | error cause later => rwa [ended'] at continued
      | exhausted => trivial
  | error cause middle => rwa [ended] at stays
  | exhausted => trivial

/-- What is stated of the value can be weakened. -/
theorem imp
    {weaker : Environment → α → Prop}
    {action : Action ε α}
    (stays : Stays holds action env)
    (implies :
      ∀ {later value},
        env.ReadsLike later → later.Sound → holds later value → weaker later value) :
    Stays weaker action env := by
  unfold Stays at stays ⊢
  cases ended : action env with
  | ok value later =>
      rw [ended] at stays
      exact ⟨stays.1, stays.2.1, implies stays.1 stays.2.1 stays.2.2⟩
  | error cause later => rwa [ended] at stays
  | exhausted => trivial

/-- Keeping a step in the trace changes nothing that can be read. -/
theorem note
    {next : Unit → Action ε β}
    {event : UnifyEvent}
    {left right : Ty}
    (sound : env.Sound)
    (continues :
      ∀ {middle}, env.ReadsLike middle → middle.Sound → Stays result (next ()) middle) :
    Stays result (Unification.note event left right >>= next) env := by
  have noted : Stays (fun _ _ => True) (Unification.note event left right : Action ε Unit) env :=
    ⟨.traceUnify event _ _ env, sound.traceUnify event _ _, trivial⟩
  exact bind noted fun shows sound _ => continues shows sound

end Stays

end Action

/-! ## Fields -/

namespace Environment.FieldsMatch

variable {env : Environment} {left left' right right' : List (String × Ty)}

/-- Fields that are alike are found under the same labels. -/
theorem lookup (alike : env.FieldsMatch left right) (label : String) :
    Option.Rel env.Matches (left.lookup label) (right.lookup label) := by
  induction alike with
  | nil => exact .none
  | @cons field field' _ _ related _ inductionHypothesis =>
      rw [List.lookup_cons, List.lookup_cons, related.1]
      cases label == field.1 with
      | true => exact .some related.2
      | false => exact inductionHypothesis

/-- Structs with fields that are alike share all their fields. -/
theorem sharedFields (alike : env.FieldsMatch left right) (sorted : Ty.Sorted left) :
    ((Ty.sharedFields left right).map fun shared => (shared.1, shared.2.1)) = left ∧
      ∀ shared ∈ Ty.sharedFields left right, env.Matches shared.2.1 shared.2.2 := by
  have found {label : String} {first : Ty} (member : (label, first) ∈ left) :
      ∃ second, right.lookup label = some second ∧ env.Matches first second := by
    have related := alike.lookup label
    rw [sorted.lookup_of_mem member] at related
    generalize right.lookup label = other at related
    cases related with
    | some alikeTypes => exact ⟨_, rfl, alikeTypes⟩
  constructor
  · rw [Ty.sharedFields, List.map_filterMap]
    refine (List.filterMap_congr fun field member => ?_).trans List.filterMap_some
    obtain ⟨second, isFound, _⟩ := found member
    rw [isFound]
    rfl
  · rintro ⟨label, first, second⟩ member
    obtain ⟨inLeft, isSecond⟩ := Ty.mem_sharedFields.mp member
    obtain ⟨other, isFound, alikeTypes⟩ := found inLeft
    cases isSecond.symm.trans isFound
    exact alikeTypes

end Environment.FieldsMatch

open ShaderTyping.Action (Stays)

/-- Lengths that are resolved alike agree. -/
theorem unifyLength_stays
    {env : Environment}
    (sound : env.Sound)
    {length length' : Length}
    (same : env.resolveLength length = env.resolveLength length') :
    Stays (fun later result => later.resolveLength result = later.resolveLength length)
      (unifyLength length length') env := by
  have agreed : unifyLength length length' env = .ok (env.resolveLength length) env := by
    rw [unifyLength, Action.environment_bind]
    exact congrFun (if_pos same) env
  unfold Stays
  rw [agreed]
  exact ⟨.refl env, sound, Environment.resolveLength_resolveLength sound.consistent length⟩

namespace Unification

variable {env : Environment} {recur : Ty → Ty → Action UnifyError Ty}

/-- Types that are alike agree without a change that can be read. -/
def StaysAlike (recur : Ty → Ty → Action UnifyError Ty) : Prop :=
  ∀ {env : Environment} {left right : Ty},
    env.Sound →
    env.Matches left right →
    Stays (fun later ty => later.Matches left ty) (recur left right) env

/-- A reference to a constant is expanded to a type that is alike. -/
theorem definition_stays
    (sound : env.Sound)
    {reference : Ty}
    (isReference : env.RefersToConstant reference)
    (other : Ty) :
    Stays (fun later found => later.Matches reference found) (definition reference other)
      env := by
  obtain ⟨alike, notNamed⟩ := sound.head_of_reference isReference
  unfold Stays
  rw [definition_eq_ok rfl notNamed]
  exact ⟨.refl env, sound, alike⟩

/-- Fields that are alike agree on fields that are alike. -/
theorem fields_stay
    (stays : StaysAlike recur)
    (sound : env.Sound)
    {shared : List (String × Ty × Ty)}
    (alike : ∀ field ∈ shared, env.Matches field.2.1 field.2.2) :
    Stays
      (fun later fields =>
        later.FieldsMatch (shared.map fun field => (field.1, field.2.1)) fields)
      (shared.mapM fun (label, first, second) => do
        let ty ← recur first second
        pure (label, ty))
      env := by
  induction shared generalizing env with
  | nil =>
      rw [List.mapM_nil]
      exact .pure sound .nil
  | cons field rest inductionHypothesis =>
      obtain ⟨first, others⟩ := List.forall_mem_cons.mp alike
      rw [List.mapM_cons]
      have typed :
          Stays
            (fun later (typed : String × Ty) =>
              typed.1 = field.1 ∧ later.Matches field.2.1 typed.2)
            (do
              let ty ← recur field.2.1 field.2.2
              pure (field.1, ty)) env :=
        .bind (stays sound first) fun _ sound alikeType => .pure sound ⟨rfl, alikeType⟩
      refine .bind typed fun shows sound isTyped => ?_
      refine .bind (inductionHypothesis sound fun other member =>
        (others other member).mono shows.grows sound.consistent) fun shows sound areFields => ?_
      exact .pure sound (.cons ⟨isTyped.1, isTyped.2.mono shows.grows sound.consistent⟩ areFields)

/-- Structs that are alike agree on a struct that is alike. -/
theorem meet_stays
    (stays : StaysAlike recur)
    (sound : env.Sound)
    {left right : List (String × Ty)}
    (notEmpty : left ≠ [])
    (sorted : Ty.Sorted left)
    (alike : env.FieldsMatch left right) :
    Stays (fun later ty => later.Matches (.struct left) ty) (meet recur left right) env := by
  obtain ⟨isLeft, eachAlike⟩ := alike.sharedFields sorted
  unfold meet
  split
  · rename_i isEmpty
    rw [isEmpty] at isLeft
    exact absurd isLeft.symm notEmpty
  · refine .note sound fun shows sound => ?_
    refine .bind (fields_stay stays sound fun field member =>
      (eachAlike field member).mono shows.grows sound.consistent) fun shows sound areFields => ?_
    rw [isLeft] at areFields
    exact .pure sound (.struct sorted areFields)

/-- One step stays types that are alike if smaller problems about such types stay. -/
theorem step_stays (stays : StaysAlike recur) : StaysAlike (step recur) := by
  intro env left right sound alike
  unfold step
  split
  · exact .note sound fun shows sound =>
      .pure sound (.refl alike.steady)
  rename_i different
  have isReference {reference other : Ty} {scope : ScopeId} {name : String}
      (isNamed : reference = .named scope name)
      (alike : env.Matches reference other)
      (different : reference ≠ other) :
      env.RefersToConstant reference := by
    subst isNamed
    by_contra noReference
    exact different (alike.eq_named noReference).symm
  split
  case h_1 => exact absurd alike.eq_placeholder.symm different
  case h_2 => exact absurd alike.symm.eq_placeholder different
  case h_3 =>
    have stayed := definition_stays sound (isReference rfl alike different) right
    refine .bind stayed fun shows sound found => ?_
    refine .note sound fun shows' sound => ?_
    have stillAlike := alike.mono (shows.trans shows').grows sound.consistent
    have stillFound := found.mono shows'.grows sound.consistent
    refine (stays sound (stillFound.symm.trans stillAlike)).imp fun shows sound agreed => ?_
    exact (stillFound.mono shows.grows sound.consistent).trans agreed
  case h_4 =>
    have stayed := definition_stays sound (isReference rfl alike.symm (Ne.symm different)) left
    refine .bind stayed fun shows sound found => ?_
    refine .note sound fun shows' sound => ?_
    have stillAlike := alike.mono (shows.trans shows').grows sound.consistent
    have stillFound := found.mono shows'.grows sound.consistent
    exact stays sound (stillAlike.trans stillFound)
  case h_5 =>
    obtain ⟨alikeComponents, sameLengths⟩ := alike.of_array
    refine .note sound fun shows sound => ?_
    have stillAlike := alikeComponents.mono shows.grows sound.consistent
    refine .bind (stays sound stillAlike) fun shows' sound component => ?_
    have stillSame := (shows.trans shows').grows.resolveLength_congr sound.consistent sameLengths
    refine .bind (unifyLength_stays sound stillSame) fun shows sound length => ?_
    exact .pure sound (.array (component.mono shows.grows sound.consistent) length.symm)
  case h_6 fields fields' =>
    obtain ⟨sorted, alikeFields⟩ := alike.of_struct
    refine meet_stays stays sound (fun isEmpty => different ?_) sorted alikeFields
    cases isEmpty
    cases alikeFields
    rfl
  case h_7 =>
    obtain ⟨alikeParams, alikeResults⟩ := alike.of_function
    refine .note sound fun shows sound => ?_
    have stillAlike := alikeParams.mono shows.grows sound.consistent
    refine .bind (stays sound stillAlike) fun shows' sound param => ?_
    have stillAlike' := alikeResults.mono (shows.trans shows').grows sound.consistent
    refine .bind (stays sound stillAlike') fun shows sound result => ?_
    exact .pure sound (.function (param.mono shows.grows sound.consistent) result)
  case h_8 => cases alike.same
  case h_9 => cases alike.same
  case h_10 =>
    rename_i notNamed _ notNamed' notArrays notStructs notFunctions _ _
    have shape := alike.sameShape (Environment.not_refersToConstant notNamed)
      (Environment.not_refersToConstant notNamed')
    cases shape with
    | array => exact (notArrays _ _ _ _ rfl rfl).elim
    | struct => exact (notStructs _ _ rfl rfl).elim
    | function => exact (notFunctions _ _ _ _ rfl rfl).elim
    | _ => exact absurd rfl different

/-- Unification of types that are alike in any number of steps changes nothing that is read. -/
theorem within_stays (steps : Nat) : StaysAlike (within steps) := by
  induction steps with
  | zero => exact fun _ _ => trivial
  | succ steps inductionHypothesis => exact step_stays inductionHypothesis

end Unification

end ShaderTyping
