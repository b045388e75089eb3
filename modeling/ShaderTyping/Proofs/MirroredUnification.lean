import ShaderTyping.Proofs.AlikeUnification
import ShaderTyping.Proofs.Endings
import ShaderTyping.Proofs.MirroredActions

namespace ShaderTyping

/-!
# Unification in mirrored environments

Unification expands a reference when it meets one, so where one program has a reference
to a constant and the other one has the constant itself, it takes different steps.
`within_parallel` shows that this makes no difference for what it comes to.  One of the
environments may have two equal types where the other one has to take them apart; that
these agree is known from the types that are alike in one environment (`within_stays`).
-/

open ShaderTyping.Environment (Mirroring Run Matches)
open ShaderTyping.Action (Parallel Stays)

/-! ## Shared fields -/

/-- Fields that two pairs of structs share. -/
structure Environment.SharedMatch
    (env : Environment)
    (shared shared' : String × Ty × Ty) : Prop where
  label : shared'.1 = shared.1
  first : env.Matches shared.2.1 shared'.2.1
  second : env.Matches shared.2.2 shared'.2.2

/-- Shared fields that are alike stay alike. -/
theorem Environment.SharedMatch.mono
    {env later : Environment}
    {shared shared' : String × Ty × Ty}
    (alike : env.SharedMatch shared shared')
    (grows : env.Grows later)
    (consistent : later.frames.Consistent) :
    later.SharedMatch shared shared' :=
  ⟨alike.label, alike.first.mono grows consistent, alike.second.mono grows consistent⟩

/-- Shared fields of structs with fields that are alike, one by one. -/
theorem Environment.FieldsMatch.sharedFields_alike
    {env : Environment}
    {left left' right right' : List (String × Ty)}
    (alikeLeft : env.FieldsMatch left left')
    (alikeRight : env.FieldsMatch right right') :
    List.Forall₂ env.SharedMatch (Ty.sharedFields left right) (Ty.sharedFields left' right') := by
  induction alikeLeft with
  | nil => exact .nil
  | @cons field field' rest rest' related _ inductionHypothesis =>
      obtain ⟨_, first⟩ := field
      obtain ⟨label, first'⟩ := field'
      obtain ⟨rfl, alikeFirst⟩ := related
      have found := alikeRight.lookup label
      simp only [Ty.sharedFields, List.filterMap_cons] at inductionHypothesis ⊢
      generalize right.lookup label = second, right'.lookup label = second' at found
      cases found with
      | none => exact inductionHypothesis
      | some alikeSecond => exact .cons ⟨rfl, alikeFirst, alikeSecond⟩ inductionHypothesis

/-! ## Bindings -/

namespace Environment

variable {change : ExprId → Nat → Ty → Ty} {levels : Nat} {env env' : Environment}

/-- It does not matter whether a step is written down before or after a binding. -/
theorem bindPlaceholder_traceUnify
    (event : UnifyEvent)
    (left right : Operand)
    (id : PlaceholderId)
    (ty : Ty)
    (env : Environment) :
    (env.traceUnify event left right).bindPlaceholder id ty =
      (env.bindPlaceholder id ty).traceUnify event left right := by
  cases traced : env.options.trace <;> simp [traceUnify, Environment.bindPlaceholder, traced]

/-- An unbound length variable may be bound to another length. -/
theorem Sound.bindLength
    (sound : env.Sound)
    {id : LengthId}
    {length : Length}
    (isVar : env.resolveLength (.var id) = .var id)
    (resolved : env.resolveLength length = length)
    (different : length ≠ .var id) :
    (env.bindLength id length).Sound ∧ env.Grows (env.bindLength id length) := by
  have bound : Run env
      ((env.traceUnify .identity (.length length) (.length length)).bindLength id
        (env.resolveLength length)) :=
    .binds (.length .identity _ _ isVar (by rwa [resolved]))
  rw [resolved] at bound
  have shows :
      ((env.traceUnify .identity (.length length) (.length length)).bindLength id length).ReadsLike
        (env.bindLength id length) := by
    rw [traceUnify_eq]
    exact ⟨rfl, rfl, rfl, rfl, rfl⟩
  refine
    ⟨(sound.of_run bound).of_readsLike shows ?_, (bound.grows sound.consistent).trans shows.grows⟩
  refine sound.consistent.bindLength ?_ different ?_
  · exact length?_of_resolveLength_eq_var sound.consistent isVar
  · exact fun other isOther =>
      length?_of_resolveLength_eq_var sound.consistent (resolved.trans isOther)

namespace Mirroring

variable (mirrors : Mirroring change levels env env')
include mirrors

/-- Binding a placeholder to types that are alike keeps environments mirrored. -/
theorem bindPlaceholder
    {id : PlaceholderId}
    {ty ty' : Ty}
    (unbound : env.binding? id = none)
    (notFound : env.occurs id ty = false)
    (alike : env.Matches ty ty') :
    env.Grows (env.bindPlaceholder id ty) ∧
      Mirroring change levels (env.bindPlaceholder id ty) (env'.bindPlaceholder id ty') := by
  have notFound' : env'.occurs id ty' = false := (mirrors.occurs unbound alike).trans notFound
  obtain ⟨sound, grows⟩ := mirrors.sound.bindPlaceholder unbound notFound
  obtain ⟨sound', _⟩ := mirrors.sound'.bindPlaceholder (mirrors.unbound unbound) notFound'
  exact ⟨grows, mirrors.write (.placeholder id alike) grows sound sound'⟩

/-- The same after keeping a step in each of the traces. -/
theorem bindPlaceholder_noted
    {id : PlaceholderId}
    {ty ty' : Ty}
    (unbound : env.binding? id = none)
    (notFound : env.occurs id ty = false)
    (alike : env.Matches ty ty')
    (event event' : UnifyEvent)
    (left left' right right' : Operand) :
    env.Grows ((env.traceUnify event left right).bindPlaceholder id ty) ∧
      Mirroring change levels ((env.traceUnify event left right).bindPlaceholder id ty)
        ((env'.traceUnify event' left' right').bindPlaceholder id ty') := by
  obtain ⟨grows, bound⟩ := mirrors.bindPlaceholder unbound notFound alike
  rw [bindPlaceholder_traceUnify, bindPlaceholder_traceUnify]
  exact ⟨grows.trans (ReadsLike.traceUnify event left right _).grows,
    (bound.note event left right).note' event' left' right'⟩

/-- Binding a length variable to one length keeps environments mirrored. -/
theorem bindLength
    {id : LengthId}
    {length : Length}
    (isVar : env.resolveLength (.var id) = .var id)
    (resolved : env.resolveLength length = length)
    (different : length ≠ .var id) :
    env.Grows (env.bindLength id length) ∧
      Mirroring change levels (env.bindLength id length) (env'.bindLength id length) := by
  obtain ⟨sound, grows⟩ := mirrors.sound.bindLength isVar resolved different
  obtain ⟨sound', _⟩ :=
    mirrors.sound'.bindLength ((mirrors.resolveLength _).trans isVar)
      ((mirrors.resolveLength _).trans resolved) different
  exact ⟨grows, mirrors.write (.length id length) grows sound sound'⟩

end Mirroring

end Environment

namespace Action.Parallel

variable {mayStop : Prop} {change : ExprId → Nat → Ty → Ty} {levels : Nat}
variable {env env' : Environment} {related : Environment → α → β → Prop}

/-- Keeping steps in the traces makes no difference. -/
theorem note
    {next : Unit → Action ε α}
    {next' : Unit → Action ε' β}
    {event event' : UnifyEvent}
    {left left' right right' : Ty}
    (mirrors : Mirroring change levels env env')
    (continues :
      ∀ {middle middle'},
        env.Grows middle →
        Mirroring change levels middle middle' →
        Parallel mayStop change levels related (next ()) (next' ()) middle middle') :
    Parallel mayStop change levels related (Unification.note event left right >>= next)
      (Unification.note event' left' right' >>= next') env env' := by
  have grows := (Environment.ReadsLike.traceUnify event (.type left) (.type right) env).grows
  exact bind_update grows (continues grows ((mirrors.note _ _ _).note' _ _ _))

/-- Two actions that stay run in parallel. -/
theorem of_stays
    {holds : Environment → α → Prop}
    {holds' : Environment → β → Prop}
    {action : Action ε α}
    {action' : Action ε' β}
    (mirrors : Mirroring change levels env env')
    (stays : Stays holds action env)
    (stays' : Stays holds' action' env')
    (values :
      ∀ {later later' value value'},
        env.Grows later →
        Mirroring change levels later later' →
        holds later value →
        holds' later' value' →
        related later value value') :
    Parallel True change levels related action action' env env' := by
  unfold Stays at stays stays'
  unfold Parallel
  generalize action env = outcome at stays
  generalize action' env' = outcome' at stays'
  cases outcome with
  | exhausted => exact .stopped _ trivial
  | error cause later => exact stays.elim
  | ok value later =>
      cases outcome' with
      | exhausted => exact .stopped' _ trivial
      | error cause later => exact stays'.elim
      | ok value' later' =>
          obtain ⟨shows, sound, isValue⟩ := stays
          obtain ⟨shows', sound', isValue'⟩ := stays'
          have mirrors := mirrors.of_readsLike shows sound shows' sound'
          exact .ok shows.grows mirrors (values shows.grows mirrors isValue isValue')

end Action.Parallel

/-- Lengths that are resolved alike are unified alike. -/
theorem unifyLength_parallel
    {change : ExprId → Nat → Ty → Ty}
    {levels : Nat}
    {mayStop : Prop}
    {env env' : Environment}
    (mirrors : Mirroring change levels env env')
    {left left' right right' : Length}
    (sameLeft : env.resolveLength left = env.resolveLength left')
    (sameRight : env.resolveLength right = env.resolveLength right') :
    Parallel mayStop change levels
      (fun later length length' => later.resolveLength length = later.resolveLength length')
      (unifyLength left right) (unifyLength left' right') env env' := by
  have sameLeft' : env'.resolveLength left' = env.resolveLength left :=
    (mirrors.resolveLength left').trans sameLeft.symm
  have sameRight' : env'.resolveLength right' = env.resolveLength right :=
    (mirrors.resolveLength right').trans sameRight.symm
  have bound {id : LengthId} {other length : Length} {event : UnifyEvent} {first second : Operand}
      (isVar : env.resolveLength other = .var id)
      (resolved : env.resolveLength length = length)
      (different : length ≠ .var id) :
      Parallel mayStop change levels
        (fun later length length' => later.resolveLength length = later.resolveLength length')
        (do
          Action.update (Environment.traceUnify event first second)
          Action.update (Environment.bindLength id length)
          pure length : Action UnifyError Length)
        (do
          Action.update (Environment.traceUnify event first second)
          Action.update (Environment.bindLength id length)
          pure length : Action UnifyError Length)
        env env' := by
    have shows := Environment.ReadsLike.traceUnify event first second env
    have noted := (mirrors.note event first second).note' event first second
    have isVar : env.resolveLength (.var id) = .var id := by
      rw [← isVar, Environment.resolveLength_resolveLength mirrors.sound.consistent]
    have same := shows.resolveLength mirrors.sound.consistent noted.sound.consistent
    obtain ⟨grows, written⟩ :=
      noted.bindLength ((same _).trans isVar) ((same _).trans resolved) different
    exact .bind_update shows.grows (.bind_update grows (.pure written rfl))
  have resolved := Environment.resolveLength_resolveLength mirrors.sound.consistent
  unfold unifyLength
  refine .bind_environment ?_
  rw [sameLeft', sameRight']
  dsimp only
  split
  · exact .pure mirrors rfl
  · rename_i different
    split
    · rename_i isVar
      exact bound isVar (resolved right) fun same => different (isVar.trans same.symm)
    · rename_i isVar _
      exact bound isVar (resolved left) fun same => different (same.trans isVar.symm)
    · exact .fail mirrors

/-- Types of one shape both stand for themselves or neither does. -/
theorem Environment.SameShape.isSolid_eq
    {env : Environment}
    {ty ty' : Ty}
    (shape : env.SameShape ty ty') :
    ty'.isSolid = ty.isSolid := by
  cases shape <;> rfl

namespace Unification

variable {change : ExprId → Nat → Ty → Ty} {levels : Nat} {mayStop : Prop}
variable {env env' : Environment} {recur recur' : Ty → Ty → Action UnifyError Ty}

/-- Types that are alike are unified to types that are alike, or in both environments not at all. -/
def RunsAlike
    (change : ExprId → Nat → Ty → Ty)
    (levels : Nat)
    (recur recur' : Ty → Ty → Action UnifyError Ty) : Prop :=
  ∀ {env env' : Environment} {left left' right right' : Ty},
    Mirroring change levels env env' →
    env.Matches left left' →
    env.Matches right right' →
    Parallel True change levels Matches (recur left right) (recur' left' right') env env'

/-- Mismatches are parallel. -/
theorem mismatch_parallel
    {related : Environment → α → β → Prop}
    (mirrors : Mirroring change levels env env')
    (left left' right right' : Ty) :
    Parallel mayStop change levels related (mismatch left right) (mismatch left' right') env env' :=
  .note mirrors fun _ mirrors => .bind_environment (.fail mirrors)

/-- References that are alike are expanded to types that are alike. -/
theorem definition_parallel
    (mirrors : Mirroring change levels env env')
    {reference reference' : Ty}
    (alike : env.Matches reference reference')
    (other other' : Ty) :
    Parallel mayStop change levels Matches (definition reference other)
      (definition reference' other') env env' := by
  have heads := mirrors.head alike
  have shape := mirrors.sameShape_head alike
  unfold definition
  refine .bind_environment ?_
  generalize env.head reference = found, env'.head reference' = found' at heads shape ⊢
  cases shape with
  | named scope name =>
      simp only [mirrors.definition?]
      split
      · exact .fail mirrors
      · exact mismatch_parallel mirrors _ _ _ _
  | _ => exact .pure mirrors heads

/-- Binding a placeholder to types that are alike is parallel. -/
theorem bind_parallel
    (mirrors : Mirroring change levels env env')
    (scope : ScopeId)
    {id : PlaceholderId}
    (unbound : env.binding? id = none)
    {other other' : Ty}
    (alike : env.Matches other other') :
    Parallel mayStop change levels Matches (bind scope id other) (bind scope id other')
      env env' := by
  have followed := mirrors.follow alike
  have sameVar :
      env'.follow other' = .placeholder scope id ↔ env.follow other = .placeholder scope id :=
    ⟨fun isVar => (isVar ▸ followed).symm.eq_placeholder,
      fun isVar => (isVar ▸ followed).eq_placeholder⟩
  unfold bind
  refine .bind_environment ?_
  dsimp only
  split
  · rename_i isVar
    rw [if_pos (sameVar.mpr isVar)]
    exact .pure mirrors followed
  · rename_i different
    rw [if_neg (sameVar.not.mpr different), mirrors.occurs unbound followed]
    split
    · exact .note mirrors fun _ mirrors => .fail mirrors
    · rename_i notFound
      obtain ⟨grows, bound⟩ :=
        mirrors.bindPlaceholder_noted unbound (Bool.eq_false_iff.mpr notFound) followed
          (.bind id (env.follow other)) (.bind id (env'.follow other'))
          (.type (.placeholder scope id)) (.type (.placeholder scope id))
          (.type (env.follow other)) (.type (env'.follow other'))
      exact Outcome.Parallel.ok grows bound (followed.mono grows bound.sound.consistent)

/-- Unification of fields that are alike is parallel, and the labels stay. -/
theorem fields_parallel
    (runs : RunsAlike change levels recur recur')
    (mirrors : Mirroring change levels env env')
    {shared shared' : List (String × Ty × Ty)}
    (alike : List.Forall₂ env.SharedMatch shared shared') :
    Parallel True change levels
      (fun later fields fields' =>
        later.FieldsMatch fields fields' ∧ fields.map Prod.fst = shared.map Prod.fst)
      (shared.mapM fun (label, first, second) => do
        let ty ← recur first second
        pure (label, ty))
      (shared'.mapM fun (label, first, second) => do
        let ty ← recur' first second
        pure (label, ty))
      env env' := by
  induction shared generalizing shared' env env' with
  | nil =>
      cases alike
      rw [List.mapM_nil, List.mapM_nil]
      exact .pure mirrors ⟨.nil, rfl⟩
  | cons field rest inductionHypothesis =>
      cases alike with
      | @cons _ field' _ rest' first others =>
          obtain ⟨sameLabel, firstAlike, secondAlike⟩ := first
          rw [List.mapM_cons, List.mapM_cons]
          have typed :
              Parallel True change levels
                (fun later (typed typed' : String × Ty) =>
                  (typed.1 = field.1 ∧ typed'.1 = field.1) ∧ later.Matches typed.2 typed'.2)
                (do
                  let ty ← recur field.2.1 field.2.2
                  pure (field.1, ty))
                (do
                  let ty ← recur' field'.2.1 field'.2.2
                  pure (field'.1, ty)) env env' :=
            .bind (runs mirrors firstAlike secondAlike) fun _ mirrors alikeType =>
              .pure mirrors ⟨⟨rfl, sameLabel⟩, alikeType⟩
          refine .bind typed fun grows mirrors isTyped => ?_
          have stillAlike := others.imp fun _ _ related =>
            related.mono grows mirrors.sound.consistent
          refine .bind (inductionHypothesis mirrors stillAlike) fun grows mirrors areFields => ?_
          obtain ⟨⟨label, label'⟩, alikeType⟩ := isTyped
          refine .pure mirrors ⟨.cons ⟨label'.trans label.symm, ?_⟩ areFields.1, ?_⟩
          · exact alikeType.mono grows mirrors.sound.consistent
          · rw [List.map_cons, List.map_cons, label, areFields.2]

/-- Unification of structs that are alike is parallel if that of types is. -/
theorem meet_parallel
    (runs : RunsAlike change levels recur recur')
    (mirrors : Mirroring change levels env env')
    {left left' right right' : List (String × Ty)}
    (sorted : Ty.Sorted left)
    (alikeLeft : env.FieldsMatch left left')
    (alikeRight : env.FieldsMatch right right') :
    Parallel True change levels Matches (meet recur left right) (meet recur' left' right')
      env env' := by
  have sharedSorted := Ty.sharedFields_sorted sorted right
  have alike := alikeLeft.sharedFields_alike alikeRight
  unfold meet
  generalize Ty.sharedFields left right = shared, Ty.sharedFields left' right' = shared'
    at sharedSorted alike ⊢
  cases alike with
  | nil => exact .note mirrors fun _ mirrors => .bind_environment (.fail mirrors)
  | cons first others =>
      refine .note mirrors fun grows mirrors => ?_
      have stillAlike := (List.Forall₂.cons first others).imp fun _ _ related =>
        related.mono grows mirrors.sound.consistent
      refine .bind (fields_parallel runs mirrors stillAlike) fun _ mirrors areFields => ?_
      obtain ⟨alikeFields, labels⟩ := areFields
      exact .pure mirrors (.struct (sharedSorted.of_labels (by rw [labels])) alikeFields)

/-- Primitives are widened or do not agree, whatever else unification does. -/
theorem step_primitive
    {kind kind' : Primitive}
    (different : kind ≠ kind') :
    (∀ recur, step recur (.primitive kind) (.primitive kind') = do
      note .widen (.primitive kind) (.primitive kind')
      pure Ty.float) ∨
    ∀ recur, step recur (.primitive kind) (.primitive kind') =
      mismatch (.primitive kind) (.primitive kind') := by
  cases kind <;> cases kind' <;>
    first
    | exact Or.inl fun _ => rfl
    | exact Or.inr fun _ => rfl
    | exact absurd rfl different

/-- Unification of arrays that are alike is parallel if that of types is. -/
theorem array_parallel
    (runs : RunsAlike change levels recur recur')
    (mirrors : Mirroring change levels env env')
    {component component' other other' : Ty}
    {length length' otherLength otherLength' : Length}
    (alike : env.Matches component component')
    (sameLength : env.resolveLength length = env.resolveLength length')
    (otherAlike : env.Matches other other')
    (otherSame : env.resolveLength otherLength = env.resolveLength otherLength')
    (different : Ty.array component length ≠ .array other otherLength)
    (different' : Ty.array component' length' ≠ .array other' otherLength') :
    Parallel True change levels Matches
      (step recur (.array component length) (.array other otherLength))
      (step recur' (.array component' length') (.array other' otherLength')) env env' := by
  unfold step
  rw [if_neg different, if_neg different']
  refine .note mirrors fun grows mirrors => ?_
  have alike := alike.mono grows mirrors.sound.consistent
  have otherAlike := otherAlike.mono grows mirrors.sound.consistent
  refine .bind (runs mirrors alike otherAlike) fun grows' mirrors met => ?_
  have later := grows.trans grows'
  have sameLength := later.resolveLength_congr mirrors.sound.consistent sameLength
  have otherSame := later.resolveLength_congr mirrors.sound.consistent otherSame
  refine .bind (unifyLength_parallel mirrors sameLength otherSame) fun grows mirrors metLength => ?_
  exact .pure mirrors (.array (met.mono grows mirrors.sound.consistent) metLength)

/-- Unification of functions that are alike is parallel if that of types is. -/
theorem function_parallel
    (runs : RunsAlike change levels recur recur')
    (mirrors : Mirroring change levels env env')
    {param param' result result' other other' otherResult otherResult' : Ty}
    (alike : env.Matches param param')
    (resultAlike : env.Matches result result')
    (otherAlike : env.Matches other other')
    (otherResultAlike : env.Matches otherResult otherResult')
    (different : Ty.function param result ≠ .function other otherResult)
    (different' : Ty.function param' result' ≠ .function other' otherResult') :
    Parallel True change levels Matches
      (step recur (.function param result) (.function other otherResult))
      (step recur' (.function param' result') (.function other' otherResult')) env env' := by
  unfold step
  rw [if_neg different, if_neg different']
  refine .note mirrors fun grows mirrors => ?_
  have alike := alike.mono grows mirrors.sound.consistent
  have otherAlike := otherAlike.mono grows mirrors.sound.consistent
  refine .bind (runs mirrors alike otherAlike) fun grows' mirrors met => ?_
  have later := grows.trans grows'
  have resultAlike := resultAlike.mono later mirrors.sound.consistent
  have otherResultAlike := otherResultAlike.mono later mirrors.sound.consistent
  refine .bind (runs mirrors resultAlike otherResultAlike) fun grows mirrors metResult => ?_
  exact .pure mirrors (.function (met.mono grows mirrors.sound.consistent) metResult)

/-- Two types of which neither is a placeholder or a reference are taken apart alike. -/
theorem step_parallel_of_sameShape
    (runs : RunsAlike change levels recur recur')
    (mirrors : Mirroring change levels env env')
    {left left' right right' : Ty}
    (leftShape : env.SameShape left left')
    (rightShape : env.SameShape right right')
    (leftSolid : left.isSolid = true)
    (rightSolid : right.isSolid = true)
    (different : left ≠ right)
    (different' : left' ≠ right') :
    Parallel True change levels Matches (step recur left right) (step recur' left' right')
      env env' := by
  have refused {left left' right right' : Ty} :
      Parallel True change levels Matches (mismatch left right) (mismatch left' right') env env' :=
    mismatch_parallel mirrors _ _ _ _
  cases leftShape with
  | placeholder | named => contradiction
  | primitive kind =>
      cases rightShape with
      | placeholder | named => contradiction
      | primitive kind' =>
          have differentKinds : kind ≠ kind' := fun same => different (same ▸ rfl)
          rcases step_primitive differentKinds with widened | isRefused
          · rw [widened, widened]
            exact .note mirrors fun _ mirrors => .pure mirrors (.refl (.primitive _))
          · rw [isRefused, isRefused]
            exact refused
      | _ => exact refused
  | array alikeComponents sameLengths =>
      cases rightShape with
      | placeholder | named => contradiction
      | array alikeComponents' sameLengths' =>
          exact array_parallel runs mirrors alikeComponents sameLengths alikeComponents'
            sameLengths' different different'
      | _ => exact refused
  | struct sorted alikeFields =>
      cases rightShape with
      | placeholder | named => contradiction
      | struct sorted' alikeFields' =>
          unfold step
          rw [if_neg different, if_neg different']
          exact meet_parallel runs mirrors sorted alikeFields alikeFields'
      | _ => exact refused
  | function alikeParams alikeResults =>
      cases rightShape with
      | placeholder | named => contradiction
      | function alikeParams' alikeResults' =>
          exact function_parallel runs mirrors alikeParams alikeResults alikeParams' alikeResults'
            different different'
      | _ => exact refused
  | @union members constant =>
      cases rightShape with
      | placeholder | named => contradiction
      | @union members' constant' =>
          have isRefused (recur : Ty → Ty → Action UnifyError Ty) :
              step recur (.union members) (.union members') = mismatch _ _ := if_neg different
          rw [isRefused, isRefused]
          exact refused
      | _ => exact refused
  | parametric scope label =>
      cases rightShape with
      | placeholder | named => contradiction
      | parametric scope' label' =>
          have isRefused (recur : Ty → Ty → Action UnifyError Ty) :
              step recur (.parametric scope label) (.parametric scope' label') = mismatch _ _ :=
            if_neg different
          rw [isRefused, isRefused]
          exact refused
      | _ => exact refused

/-! ## Expanding references -/

/-- A reference is expanded, unless the other side is a placeholder. -/
theorem step_named
    {scope : ScopeId}
    {name : String}
    {right : Ty}
    (notPlaceholder : right.isPlaceholder = false)
    (different : .named scope name ≠ right)
    (recur : Ty → Ty → Action UnifyError Ty) :
    step recur (.named scope name) right = (do
      let found ← definition (.named scope name) right
      note (.expand (.named scope name) found) (.named scope name) right
      recur found right) := by
  cases right with
  | placeholder => contradiction
  | _ => exact if_neg different

/-- A reference on the right is expanded, unless the left side comes first. -/
theorem step_named_right
    {scope : ScopeId}
    {name : String}
    {left : Ty}
    (isSolid : left.isSolid = true)
    (recur : Ty → Ty → Action UnifyError Ty) :
    step recur left (.named scope name) = (do
      let found ← definition (.named scope name) left
      note (.expand (.named scope name) found) left (.named scope name)
      recur left found) := by
  cases left with
  | placeholder | named => contradiction
  | _ => exact if_neg (by simp)

/-- A step that is about to expand a reference to a constant, on the left or on the right. -/
def ExpandsConstant (env : Environment) (left right : Ty) : Prop :=
  env.RefersToConstant left ∧ right.isPlaceholder = false ∨
    left.isSolid = true ∧ env.RefersToConstant right

/-- Expanding a reference to a constant leads to a problem about types that are alike. -/
theorem exists_expanded
    (sound : env.Sound)
    {left right : Ty}
    (leftSteady : left.Steady)
    (rightSteady : right.Steady)
    (different : left ≠ right)
    (expands : ExpandsConstant env left right) :
    ∃ event found found',
      env.Matches left found ∧
        env.Matches right found' ∧
          ∀ recur : Ty → Ty → Action UnifyError Ty,
            step recur left right env =
              recur found found' (env.traceUnify event (.type left) (.type right)) := by
  rcases expands with ⟨isReference, notPlaceholder⟩ | ⟨isSolid, isReference⟩
  · obtain ⟨alike, notNamed⟩ := sound.head_of_reference isReference
    refine ⟨.expand left (env.head left), env.head left, right, alike, .refl rightSteady, ?_⟩
    intro recur
    obtain ⟨scope, name, rfl, _⟩ := isReference
    rw [step_named notPlaceholder different]
    change Action.bind (definition _ _) _ env = _
    rw [Action.bind, definition_eq_ok rfl notNamed]
    rfl
  · obtain ⟨alike, notNamed⟩ := sound.head_of_reference isReference
    refine ⟨.expand right (env.head right), left, env.head right, .refl leftSteady, alike, ?_⟩
    intro recur
    obtain ⟨scope, name, rfl, _⟩ := isReference
    rw [step_named_right isSolid]
    change Action.bind (definition _ _) _ env = _
    rw [Action.bind, definition_eq_ok rfl notNamed]
    rfl

section Steps

variable {steps steps' : Nat} {left left' right right' : Ty}

/-- Types that agree without a change do so in both environments. -/
theorem within_parallel_of_matches
    (mirrors : Mirroring change levels env env')
    (alikeLeft : env.Matches left left')
    (alikeRight : env.Matches right right')
    (agree : env.Matches left right) :
    Parallel True change levels Matches (within steps left right) (within steps' left' right')
      env env' := by
  have agree' := mirrors.alike_iff.mpr (alikeLeft.symm.trans (agree.trans alikeRight))
  refine .of_stays mirrors (within_stays steps mirrors.sound agree)
    (within_stays steps' mirrors.sound' agree') ?_
  intro later later' ty ty' grows mirrors isTy isTy'
  have alike := alikeLeft.mono grows mirrors.sound.consistent
  exact (isTy.symm.trans alike).trans (mirrors.alike_iff.mp isTy')

/-- A step with a placeholder on the left is parallel, bound or not. -/
theorem placeholder_parallel
    (runs : RunsAlike change levels recur recur')
    (mirrors : Mirroring change levels env env')
    {scope : ScopeId}
    {id : PlaceholderId}
    (alike : env.Matches right right')
    (different : .placeholder scope id ≠ right)
    (different' : .placeholder scope id ≠ right') :
    Parallel True change levels Matches (step recur (.placeholder scope id) right)
      (step recur' (.placeholder scope id) right') env env' := by
  unfold step
  rw [if_neg different, if_neg different']
  refine .bind_environment ?_
  rcases mirrors.binding_cases id with
    ⟨unbound, unbound'⟩ | ⟨bound, bound', found, found', alikeBound⟩
  · rw [unbound, unbound']
    exact bind_parallel mirrors scope unbound alike
  · rw [found, found']
    exact runs mirrors alikeBound alike

/-- A step with a placeholder on the right only swaps the sides. -/
theorem step_swapped
    {scope : ScopeId}
    {id : PlaceholderId}
    (notPlaceholder : left.isPlaceholder = false)
    (different : left ≠ .placeholder scope id) :
    step recur left (.placeholder scope id) = recur (.placeholder scope id) left := by
  cases left with
  | placeholder => contradiction
  | _ => exact if_neg different

/-- A reference on the left that is none to a constant is expanded in both environments. -/
theorem named_parallel
    (runs : RunsAlike change levels recur recur')
    (mirrors : Mirroring change levels env env')
    {scope : ScopeId}
    {name : String}
    (alike : env.Matches right right')
    (notPlaceholder : right.isPlaceholder = false)
    (different : .named scope name ≠ right)
    (different' : .named scope name ≠ right') :
    Parallel True change levels Matches (step recur (.named scope name) right)
      (step recur' (.named scope name) right') env env' := by
  rw [step_named notPlaceholder different,
    step_named (alike.isPlaceholder_eq.trans notPlaceholder) different']
  refine .bind (definition_parallel mirrors (.refl (.named scope name)) _ _)
    fun grows mirrors found => ?_
  refine .note mirrors fun grows' mirrors => ?_
  exact runs mirrors (found.mono grows' mirrors.sound.consistent)
    (alike.mono (grows.trans grows') mirrors.sound.consistent)

/-- A reference on the right that is none to a constant is expanded in both environments. -/
theorem named_parallel_right
    (runs : RunsAlike change levels recur recur')
    (mirrors : Mirroring change levels env env')
    {scope : ScopeId}
    {name : String}
    (alike : env.Matches left left')
    (isSolid : left.isSolid = true)
    (isSolid' : left'.isSolid = true) :
    Parallel True change levels Matches (step recur left (.named scope name))
      (step recur' left' (.named scope name)) env env' := by
  rw [step_named_right isSolid, step_named_right isSolid']
  refine .bind (definition_parallel mirrors (.refl (.named scope name)) _ _)
    fun grows mirrors found => ?_
  refine .note mirrors fun grows' mirrors => ?_
  exact runs mirrors (alike.mono (grows.trans grows') mirrors.sound.consistent)
    (found.mono grows' mirrors.sound.consistent)

/-- Where no reference to a constant is expanded, both environments take the same step. -/
theorem step_parallel
    (runs : RunsAlike change levels recur recur')
    (mirrors : Mirroring change levels env env')
    (alikeLeft : env.Matches left left')
    (alikeRight : env.Matches right right')
    (different : left ≠ right)
    (different' : left' ≠ right')
    (expandsNot : ¬ ExpandsConstant env left right)
    (expandsNot' : ¬ ExpandsConstant env' left' right') :
    Parallel True change levels Matches (step recur left right) (step recur' left' right')
      env env' := by
  have sameForm := alikeLeft.isPlaceholder_eq
  have sameForm' := alikeRight.isPlaceholder_eq
  cases leftForm : left.isPlaceholder with
  | true =>
      cases left with
      | placeholder scope id =>
          cases alikeLeft.eq_placeholder
          exact placeholder_parallel runs mirrors alikeRight different different'
      | _ => contradiction
  | false =>
  rw [leftForm] at sameForm
  cases rightForm : right.isPlaceholder with
  | true =>
      cases right with
      | placeholder scope id =>
          cases alikeRight.eq_placeholder
          rw [step_swapped leftForm different, step_swapped sameForm different']
          exact runs mirrors alikeRight alikeLeft
      | _ => contradiction
  | false =>
  rw [rightForm] at sameForm'
  have leftShape : env.SameShape left left' :=
    alikeLeft.sameShape (fun reference => expandsNot (Or.inl ⟨reference, rightForm⟩))
      fun reference => expandsNot' (Or.inl ⟨mirrors.refersToConstant_iff.mpr reference, sameForm'⟩)
  cases leftSolid : left.isSolid with
  | false =>
      cases leftShape with
      | named scope name =>
          exact named_parallel runs mirrors alikeRight rightForm different different'
      | _ => contradiction
  | true =>
  have leftSolid' := leftShape.isSolid_eq.trans leftSolid
  have rightShape : env.SameShape right right' :=
    alikeRight.sameShape (fun reference => expandsNot (Or.inr ⟨leftSolid, reference⟩))
      fun reference => expandsNot' (Or.inr ⟨leftSolid', mirrors.refersToConstant_iff.mpr reference⟩)
  cases rightSolid : right.isSolid with
  | false =>
      cases rightShape with
      | named scope name =>
          exact named_parallel_right runs mirrors alikeLeft leftSolid leftSolid'
      | _ => contradiction
  | true =>
      exact step_parallel_of_sameShape runs mirrors leftShape rightShape leftSolid rightSolid
        different different'

end Steps

/-- Whatever steps are granted, two unifications of types that are alike come to the same. -/
theorem within_parallel (steps steps' : Nat) :
    RunsAlike change levels (within steps) (within steps') := by
  induction total : steps + steps' using Nat.strong_induction_on generalizing steps steps' with
  | h total smaller =>
      intro env env' left left' right right' mirrors alikeLeft alikeRight
      by_cases agree : env.Matches left right
      · exact within_parallel_of_matches mirrors alikeLeft alikeRight agree
      have different : left ≠ right := fun same => agree (same ▸ .refl alikeLeft.steady)
      have different' : left' ≠ right' := fun same =>
        agree (alikeLeft.trans (same ▸ alikeRight.symm))
      cases steps with
      | zero => exact .stopped _ trivial
      | succ fewer =>
          cases steps' with
          | zero => exact .stopped' _ trivial
          | succ fewer' =>
              by_cases expands : ExpandsConstant env left right
              · obtain ⟨event, found, found', alike, alike', expanded⟩ :=
                  exists_expanded mirrors.sound alikeLeft.steady alikeRight.steady different expands
                have shows := Environment.ReadsLike.traceUnify event (.type left) (.type right) env
                have noted := mirrors.note event (.type left) (.type right)
                have mono {ty ty' : Ty} (alike : env.Matches ty ty') :=
                  alike.mono shows.grows noted.sound.consistent
                have continued := smaller (fewer + (fewer' + 1)) (by omega) _ _ rfl noted
                  (mono (alike.symm.trans alikeLeft)) (mono (alike'.symm.trans alikeRight))
                unfold Parallel at continued ⊢
                rw [within, expanded]
                exact continued.of_grows shows.grows
              by_cases expands' : ExpandsConstant env' left' right'
              · obtain ⟨event, found, found', alike, alike', expanded⟩ :=
                  exists_expanded mirrors.sound' alikeLeft.steady' alikeRight.steady' different'
                    expands'
                have continued := smaller (fewer + 1 + fewer') (by omega) _ _ rfl
                  (mirrors.note' event (.type left') (.type right'))
                  (alikeLeft.trans (mirrors.alike_iff.mp alike))
                  (alikeRight.trans (mirrors.alike_iff.mp alike'))
                unfold Parallel at continued ⊢
                rw [within, within, expanded]
                exact continued
              exact step_parallel (smaller (fewer + fewer') (by omega) _ _ rfl) mirrors alikeLeft
                alikeRight different different' expands expands'

end Unification

end ShaderTyping
