import ShaderTyping.Proofs.Representatives
import ShaderTyping.Proofs.SuccessfulUnification
import ShaderTyping.Proofs.UntracedRuns

namespace ShaderTyping

/-!
# Unification in either order

Two environments are twins if they bind the same classes of types, whatever represents a
class (`Environment.Twins`).  When unification succeeds in an environment, it succeeds in a
twin on types that end alike, in either order, and the environments stay twins
(`Unification.Reflected`, `within_reflects`).  An environment is its own twin, so
unification succeeds on two types exactly if it does on the swapped ones
(`unify_succeeds_iff_swapped`).  That needs a condition on references: one that stands for
an unbound placeholder is not recognised as that placeholder
(`unify_succeeds_in_one_order`).
-/

open Unification

namespace Environment

/-! ## The same success in a twin -/

/-- Unification succeeds in another environment and leaves a twin of the given one. -/
def Mirrors
    (scopeOf : PlaceholderId → ScopeId)
    (final other : Environment)
    (left right : Ty) : Prop :=
  ∃ otherFinal, other.Finishes left right otherFinal ∧ Twins scopeOf final otherFinal

namespace Mirrors

variable {scopeOf : PlaceholderId → ScopeId} {final other : Environment} {left right : Ty}

/-- Bindings of the left type are followed. -/
theorem of_follow
    (consistent : other.frames.Consistent)
    (same : other.follow left = other.follow right → ∀ ty, Mirrors scopeOf final other ty ty)
    (mirrors : Mirrors scopeOf final other (other.follow left) right) :
    Mirrors scopeOf final other left right := by
  induction left using bindingInduction consistent with
  | step left inductionHypothesis =>
      cases left with
      | placeholder scope id =>
          cases isBound : other.binding? id with
          | none => rwa [follow_unbound consistent isBound] at mirrors
          | some bound =>
              by_cases isRight : .placeholder scope id = right
              · exact isRight ▸ same (congrArg other.follow isRight) _
              · have isLeaf : .placeholder scope id ∈ (Ty.placeholder scope id).leaves := by simp
                rw [follow_bound consistent isBound] at same mirrors
                obtain ⟨otherFinal, finishes, twins⟩ :=
                  inductionHypothesis isLeaf isBound same mirrors
                exact ⟨otherFinal, finishes.bound isBound isRight, twins⟩
      | _ => rwa [follow_eq_self rfl] at mirrors

/-- Bindings of both types are followed, whichever of the two comes first in the end. -/
theorem of_followed
    (consistent : other.frames.Consistent)
    (same : other.follow left = other.follow right → ∀ ty, Mirrors scopeOf final other ty ty)
    (leftFollowed : (other.follow left).isPlaceholder = false)
    (mirrors : Mirrors scopeOf final other (other.follow left) (other.follow right))
    (swapped : Mirrors scopeOf final other (other.follow right) (other.follow left)) :
    Mirrors scopeOf final other left right := by
  refine of_follow consistent same ?_
  cases isRight : right.isPlaceholder with
  | false => rwa [follow_eq_self isRight] at mirrors
  | true =>
      have again : other.follow (other.follow left) = other.follow left :=
        follow_eq_self leftFollowed
      have fromRight : Mirrors scopeOf final other right (other.follow left) := by
        refine of_follow consistent (fun met => same ?_) swapped
        rw [met, again]
      obtain ⟨otherFinal, finishes, twins⟩ := fromRight
      exact ⟨otherFinal, finishes.swapped leftFollowed isRight, twins⟩

/-- References on both sides are replaced by what is at their heads. -/
theorem of_heads
    (quiet : other.options.trace = false)
    (different : left ≠ right)
    (leftPlaceholder : left.isPlaceholder = false)
    (rightPlaceholder : right.isPlaceholder = false)
    {first second : Ty}
    (leftHead : other.head left = first)
    (rightHead : other.head right = second)
    (firstSolid : first.isSolid = true)
    (secondSolid : second.isSolid = true)
    (mirrors : Mirrors scopeOf final other first second) :
    Mirrors scopeOf final other left right := by
  have firstNamed := Ty.ne_named_of_isSolid firstSolid
  have fromHead : Mirrors scopeOf final other first right := by
    cases isSolid : right.isSolid with
    | true =>
        rw [head_eq_self (standsFor?_of_isSolid isSolid)] at rightHead
        rwa [rightHead]
    | false =>
        obtain ⟨otherFinal, finishes, twins⟩ := mirrors
        cases right with
        | named scope name =>
            exact
              ⟨otherFinal,
                finishes.expandRight quiet rightHead (Ty.ne_named_of_isSolid secondSolid)
                  (Ty.isPlaceholder_of_isSolid firstSolid) firstNamed,
                twins⟩
        | _ => contradiction
  cases isSolid : left.isSolid with
  | true =>
      rw [head_eq_self (standsFor?_of_isSolid isSolid)] at leftHead
      rwa [leftHead]
  | false =>
      obtain ⟨otherFinal, finishes, twins⟩ := fromHead
      cases left with
      | named scope name =>
          exact
            ⟨otherFinal,
              finishes.expandLeft quiet leftHead firstNamed rightPlaceholder different,
              twins⟩
      | _ => contradiction

/-- Types that end at neither a placeholder nor a reference are unified as their endings are. -/
theorem of_endings
    (regular : other.Regular scopeOf)
    {first second : Ty}
    (leftEnding : other.ending left = first)
    (rightEnding : other.ending right = second)
    (firstSolid : first.isSolid = true)
    (secondSolid : second.isSolid = true)
    (same : first = second → ∀ ty, Mirrors scopeOf final other ty ty)
    (mirrors : Mirrors scopeOf final other first second)
    (swapped : Mirrors scopeOf final other second first) :
    Mirrors scopeOf final other left right := by
  have sameEnding (isSame : other.follow left = other.follow right) : first = second := by
    rw [← leftEnding, ← rightEnding, ← regular.ending_follow, isSame, regular.ending_follow]
  have leftFollowed := regular.follow_of_isSolid (leftEnding ▸ firstSolid)
  have rightFollowed := regular.follow_of_isSolid (rightEnding ▸ secondSolid)
  rw [leftEnding] at leftFollowed
  rw [rightEnding] at rightFollowed
  have atSame (isSame : other.follow left = other.follow right) := same (sameEnding isSame)
  refine of_followed regular.consistent atSame leftFollowed.1 ?_ ?_
  · by_cases isSame : other.follow left = other.follow right
    · rw [isSame]
      exact same (sameEnding isSame) _
    · exact of_heads regular.quiet isSame leftFollowed.1 rightFollowed.1 leftFollowed.2
        rightFollowed.2 firstSolid secondSolid mirrors
  · by_cases isSame : other.follow right = other.follow left
    · rw [isSame]
      exact same (sameEnding isSame.symm) _
    · exact of_heads regular.quiet isSame rightFollowed.1 leftFollowed.1 rightFollowed.2
        leftFollowed.2 secondSolid firstSolid swapped

/-- Types with the same ending are unified without a change. -/
theorem of_same_ending
    (twins : Twins scopeOf final other)
    (same : other.ending left = other.ending right) :
    Mirrors scopeOf final other left right := by
  have regular := twins.otherRegular
  have self (ty : Ty) : Mirrors scopeOf final other ty ty :=
    ⟨other, .self regular.quiet ty, twins⟩
  have ends := regular.ends left
  generalize isEnding : other.ending left = found at same ends
  cases ends with
  | @unbound scope id isFollowed unbound =>
      refine of_follow regular.consistent (fun _ => self) ?_
      rw [isFollowed]
      exact ⟨other, .met regular.quiet unbound (regular.follow_of_ending same.symm).1, twins⟩
  | dangling isFollowed _ =>
      have rightFollowed := regular.follow_of_named same.symm
      refine of_followed regular.consistent (fun _ => self) (isFollowed ▸ rfl) ?_ ?_
      · rw [isFollowed, rightFollowed]
        exact self _
      · rw [isFollowed, rightFollowed]
        exact self _
  | solid _ isSolid =>
      exact of_endings regular isEnding same.symm isSolid isSolid (fun _ => self) (self _) (self _)

end Mirrors

/--
A placeholder is about to be bound to what a type leads to.  In the twin the two types to be
unified end apart, the left one at an unbound placeholder.
-/
structure Pending
    (scopeOf : PlaceholderId → ScopeId)
    (env other : Environment)
    (id id' : PlaceholderId)
    (ty left right : Ty) : Prop where
  twins : Twins scopeOf env other
  tidy : ty.Tidy scopeOf
  rightTidy : right.Tidy scopeOf
  unbound : env.binding? id = none
  notFound : env.occurs id (env.follow ty) = false
  unbound' : other.binding? id' = none
  leftEnding : other.ending left = .placeholder (scopeOf id') id'
  apart : other.ending left ≠ other.ending right
  alikeVar : env.Alike scopeOf other (.placeholder (scopeOf id) id) left
  alike : env.Alike scopeOf other ty right

namespace Pending

variable {env other : Environment} {id id' : PlaceholderId} {ty left right : Ty}

/-- Where the followed types differ and the placeholder does not occur, a binding is pending. -/
theorem of_different
    (twins : Twins scopeOf env other)
    (tidy : ty.Tidy scopeOf)
    (unbound : env.binding? id = none)
    (different : env.follow ty ≠ .placeholder (scopeOf id) id)
    (notFound : env.occurs id (env.follow ty) = false)
    (leftTidy : left.Tidy scopeOf)
    (rightTidy : right.Tidy scopeOf)
    (alikeVar : env.Alike scopeOf other (.placeholder (scopeOf id) id) left)
    (alike : env.Alike scopeOf other ty right) :
    ∃ id', Pending scopeOf env other id id' ty left right := by
  have varEnding := ending_unbound unbound (scopeOf id)
  have isVar := (twins.isPlaceholder_iff alikeVar).mp (by rw [varEnding]; rfl)
  obtain ⟨id', leftEnding⟩ := twins.otherRegular.exists_ending leftTidy.inScope isVar
  refine ⟨id', twins, tidy, rightTidy, unbound, notFound,
    (twins.otherRegular.follow_of_ending leftEnding).2, leftEnding, fun same => ?_, alikeVar, alike⟩
  have sameEnding := (twins.ending_eq_iff alikeVar alike).mpr same
  rw [varEnding] at sameEnding
  exact different (twins.regular.follow_of_ending sameEnding.symm).1

variable (pending : Pending scopeOf env other id id' ty left right)
include pending

/-- The left type is followed to its placeholder in the twin. -/
theorem leftFollowed : other.follow left = .placeholder (scopeOf id') id' :=
  (pending.twins.otherRegular.follow_of_ending pending.leftEnding).1

/-- The left type is not followed to where the right one is. -/
theorem follow_ne
    {value : Ty}
    (isRight : other.follow value = other.follow right) :
    other.follow left ≠ other.follow value := by
  have regular := pending.twins.otherRegular
  intro same
  refine pending.apart ?_
  rw [← regular.ending_follow left, same, isRight, regular.ending_follow]

/-- The occurs check finds no more in the twin. -/
theorem notFound' : other.occurs id' (other.follow right) = false := by
  have ⟨regular, otherRegular, _, _⟩ := pending.twins
  have followedTidy := regular.tidy_follow pending.tidy
  have followedTidy' := otherRegular.tidy_follow pending.rightTidy
  by_contra found
  rw [Bool.not_eq_false,
    otherRegular.occurs_eq_true_iff pending.unbound' followedTidy'.inScope,
    ← pending.leftEnding] at found
  have inRight := found.congr (otherRegular.ending_follow right).symm
  have inTy := (pending.twins.harbors_iff pending.alikeVar pending.alike).mpr inRight
  rw [ending_unbound pending.unbound (scopeOf id)] at inTy
  have isFound := (regular.occurs_eq_true_iff pending.unbound followedTidy.inScope).mpr
    (inTy.congr (regular.ending_follow ty))
  rw [pending.notFound] at isFound
  contradiction

/-- The placeholder to be bound is like that of the twin. -/
theorem alikeVar' :
    env.Alike scopeOf other (.placeholder (scopeOf id) id) (.placeholder (scopeOf id') id') :=
  pending.alikeVar.congr_right
    ((ending_unbound pending.unbound' _).trans pending.leftEnding.symm)

/-- In the twin the placeholder of the left type is bound. -/
theorem mirrors_left
    {value : Ty}
    (isRight : other.follow value = other.follow right) :
    Mirrors scopeOf (env.bindPlaceholder id (env.follow ty)) other left value := by
  have ⟨regular, otherRegular, _, _⟩ := pending.twins
  have alike : env.Alike scopeOf other (env.follow ty) (other.follow right) :=
    (pending.alike.congr (regular.ending_follow ty)).congr_right (otherRegular.ending_follow right)
  have notFound' := pending.notFound'
  have bound := pending.twins.bindBoth pending.alikeVar' alike (regular.tidy_follow pending.tidy)
    (otherRegular.tidy_follow pending.rightTidy) pending.unbound pending.unbound'
    pending.notFound notFound'
  have isDistinct := pending.follow_ne isRight
  refine .of_follow otherRegular.consistent (fun same => absurd same isDistinct) ?_
  rw [pending.leftFollowed] at isDistinct ⊢
  rw [← isRight] at notFound' bound
  exact
    ⟨_, .bind otherRegular.quiet otherRegular.consistent pending.unbound' isDistinct notFound',
      bound⟩

/-- If the right type ends at a placeholder as well, it is the one that is bound in the twin. -/
theorem mirrors_joined
    (isJoined : (other.follow right).isPlaceholder = true) :
    Mirrors scopeOf (env.bindPlaceholder id (env.follow ty)) other (other.follow right) left := by
  have ⟨regular, otherRegular, _, _⟩ := pending.twins
  have rightEnding : other.ending right = other.follow right := by
    cases isRight : other.follow right with
    | placeholder scope joined =>
        have unboundRight := binding?_of_follow_eq otherRegular.consistent isRight
        rw [← otherRegular.ending_follow, isRight, ending_unbound unboundRight]
    | _ =>
        rw [isRight] at isJoined
        contradiction
  rw [← rightEnding] at isJoined
  obtain ⟨joined', isJoined'⟩ :=
    otherRegular.exists_ending pending.rightTidy.inScope isJoined
  obtain ⟨joined, isJoinedHere⟩ := regular.exists_ending pending.tidy.inScope
    ((pending.twins.isPlaceholder_iff pending.alike).mpr isJoined)
  have joinedUnbound' := (otherRegular.follow_of_ending isJoined').2
  have isDistinct : Ty.placeholder (scopeOf joined') joined' ≠ other.follow left := by
    rw [← isJoined', rightEnding]
    exact (pending.follow_ne rfl).symm
  have idTidy : (Ty.placeholder (scopeOf id') id').Tidy scopeOf := .placeholder id'
  have joinedNotFound : other.occurs joined' (other.follow left) = false := by
    by_contra found
    rw [pending.leftFollowed, Bool.not_eq_false,
      otherRegular.occurs_eq_true_iff joinedUnbound' idTidy.inScope] at found
    refine isDistinct ?_
    rw [pending.leftFollowed]
    exact found.eq_ending otherRegular (ending_unbound pending.unbound' _)
  rw [← rightEnding, isJoined']
  refine ⟨_, .bind otherRegular.quiet otherRegular.consistent joinedUnbound' isDistinct
    joinedNotFound, ?_⟩
  have alike : env.Alike scopeOf other (env.follow ty) (other.follow right) :=
    (pending.alike.congr (regular.ending_follow ty)).congr_right (otherRegular.ending_follow right)
  rw [pending.leftFollowed] at joinedNotFound ⊢
  exact pending.twins.bindAcross pending.alikeVar' alike
    ((regular.ending_follow ty).trans isJoinedHere)
    ((otherRegular.ending_follow right).trans isJoined')
    (regular.tidy_follow pending.tidy) pending.unbound pending.notFound joinedNotFound

/-- In the other order either placeholder may be the one that is bound in the twin. -/
theorem mirrors_right :
    Mirrors scopeOf (env.bindPlaceholder id (env.follow ty)) other right left := by
  have otherRegular := pending.twins.otherRegular
  refine .of_follow otherRegular.consistent
    (fun same => absurd same.symm (pending.follow_ne rfl)) ?_
  cases isJoined : (other.follow right).isPlaceholder with
  | false =>
      have isRight : other.follow (other.follow right) = other.follow right :=
        follow_eq_self isJoined
      obtain ⟨otherFinal, finishes, twins⟩ := pending.mirrors_left isRight
      have isPlaceholder : left.isPlaceholder = true :=
        isPlaceholder_of_follow (by rw [pending.leftFollowed]; rfl)
      exact ⟨otherFinal, finishes.swapped isJoined isPlaceholder, twins⟩
  | true => exact pending.mirrors_joined isJoined

end Pending

end Environment

namespace Unification

open ShaderTyping.Action (Ensures)
open Environment (Twins Alike Mirrors FinishesAll JoinsLengths)

variable {scopeOf : PlaceholderId → ScopeId} {env : Environment} {left right : Ty}

/-- Twins unify what ends alike, in either order, and stay twins. -/
structure Reflected
    (scopeOf : PlaceholderId → ScopeId)
    (env : Environment)
    (left right : Ty)
    (final : Environment) : Prop where
  mirrors :
    ∀ {other : Environment} {left' right' : Ty},
      Twins scopeOf env other →
      left'.Tidy scopeOf →
      right'.Tidy scopeOf →
      env.Alike scopeOf other left left' →
      env.Alike scopeOf other right right' →
      Mirrors scopeOf final other left' right' ∧ Mirrors scopeOf final other right' left'

namespace Reflected

variable {final : Environment}

/-- What is reflected in one order is reflected in the other. -/
theorem swapped (reflected : Reflected scopeOf env left right final) :
    Reflected scopeOf env right left final where
  mirrors twins leftTidy rightTidy alike alike' :=
    (reflected.mirrors twins rightTidy leftTidy alike' alike).symm

/-- Only where the left type ends matters. -/
theorem congr_left
    {found : Ty}
    (reflected : Reflected scopeOf env found right final)
    (sameEnding : env.ending found = env.ending left) :
    Reflected scopeOf env left right final where
  mirrors twins leftTidy rightTidy alike alike' :=
    reflected.mirrors twins leftTidy rightTidy (alike.congr sameEnding) alike'

/-- Twins unify the same types. -/
theorem of_twins
    {other : Environment}
    (reflected : Reflected scopeOf env left right final)
    (twins : Twins scopeOf env other)
    (leftTidy : left.Tidy scopeOf)
    (rightTidy : right.Tidy scopeOf) :
    Mirrors scopeOf final other left right ∧ Mirrors scopeOf final other right left :=
  reflected.mirrors twins leftTidy rightTidy (.refl leftTidy.inScope) (.refl rightTidy.inScope)

/-- The environment that is left is a twin of one that unification can leave, so it is regular. -/
theorem regular
    (reflected : Reflected scopeOf env left right final)
    (isRegular : env.Regular scopeOf)
    (leftTidy : left.Tidy scopeOf)
    (rightTidy : right.Tidy scopeOf) :
    final.Regular scopeOf := by
  obtain ⟨⟨otherFinal, _, twins⟩, _⟩ := reflected.of_twins (.refl isRegular) leftTidy rightTidy
  exact twins.regular

/-- Solid types are unified in a twin as they are, and so is what ends at them. -/
theorem of_solid
    (leftSolid : left.isSolid = true)
    (rightSolid : right.isSolid = true)
    (different : left ≠ right)
    (mirrors :
      ∀ {other}, Twins scopeOf env other →
        Mirrors scopeOf final other left right ∧ Mirrors scopeOf final other right left) :
    Reflected scopeOf env left right final := by
  refine ⟨fun {other left' right'} twins _ _ alike alike' => ?_⟩
  have isLeft : env.ending left = left :=
    Environment.ending_eq_self (Environment.standsFor?_of_isSolid leftSolid)
  have isRight : env.ending right = right :=
    Environment.ending_eq_self (Environment.standsFor?_of_isSolid rightSolid)
  have leftEnding := twins.ending_eq alike (by
    rw [isLeft]
    exact Ty.isPlaceholder_of_isSolid leftSolid)
  have rightEnding := twins.ending_eq alike' (by
    rw [isRight]
    exact Ty.isPlaceholder_of_isSolid rightSolid)
  rw [isLeft] at leftEnding
  rw [isRight] at rightEnding
  obtain ⟨forward, backward⟩ := mirrors twins
  constructor
  · exact .of_endings twins.otherRegular leftEnding rightEnding leftSolid rightSolid
      (fun same => absurd same different) forward backward
  · exact .of_endings twins.otherRegular rightEnding leftEnding rightSolid leftSolid
      (fun same => absurd same.symm different) backward forward

/-- Types with the same ending are unified without a change. -/
theorem of_same_ending (same : env.ending left = env.ending right) :
    Reflected scopeOf env left right env := by
  refine ⟨fun {other left' right'} twins _ _ alike alike' => ?_⟩
  have same' := (twins.ending_eq_iff alike alike').mp same
  exact ⟨.of_same_ending twins same', .of_same_ending twins same'.symm⟩

end Reflected

/-- Where the action succeeds, it is reflected in twins. -/
def Reflects
    (scopeOf : PlaceholderId → ScopeId)
    (recur : Ty → Ty → Action UnifyError Ty) : Prop :=
  ∀ {env : Environment} {left right : Ty},
    env.Regular scopeOf →
    left.Tidy scopeOf →
    right.Tidy scopeOf →
    Ensures (recur left right) env fun _ final => Reflected scopeOf env left right final

variable {recur : Ty → Ty → Action UnifyError Ty}

/-- Where no steps are kept, writing one down changes nothing. -/
theorem note_stays
    (quiet : env.options.trace = false)
    (event : UnifyEvent)
    (left right : Ty) :
    Ensures (note event left right : Action ε Unit) env fun _ middle => middle = env := by
  intro _ middle ended
  rw [note_of_quiet quiet] at ended
  cases ended
  rfl

/-- Looking up a reference gives its head, which is no reference, and changes nothing. -/
theorem definition_finds (reference other : Ty) :
    Ensures (definition reference other) env fun found middle =>
      middle = env ∧ found = env.head reference ∧ ∀ scope name, found ≠ .named scope name := by
  refine .bind_environment ?_
  split
  · split
    · exact .fail
    · exact mismatch_ensures _ _ _
  · rename_i notNamed
    exact .pure ⟨rfl, rfl, notNamed⟩

/-- Binding a placeholder is reflected. -/
theorem bind_reflects
    (regular : env.Regular scopeOf)
    {id : PlaceholderId}
    (unbound : env.binding? id = none)
    (tidy : right.Tidy scopeOf) :
    Ensures (bind (scopeOf id) id right) env fun _ final =>
      Reflected scopeOf env (.placeholder (scopeOf id) id) right final := by
  refine .bind_environment ?_
  dsimp only
  split
  · rename_i isVar
    refine .pure (.of_same_ending ?_)
    rw [← regular.ending_follow right, isVar]
  · rename_i different
    split
    · exact .bind (note_stays regular.quiet _ _ _) fun _ => .fail
    · rename_i notFound
      refine .bind (note_stays regular.quiet _ _ _) ?_
      rintro _ _ rfl ty final ended
      cases ended
      refine ⟨fun {other left' right'} twins leftTidy rightTidy alikeVar alike => ?_⟩
      obtain ⟨id', pending⟩ := Environment.Pending.of_different twins tidy unbound different
        (Bool.eq_false_iff.mpr notFound) leftTidy rightTidy alikeVar alike
      exact ⟨pending.mirrors_left rfl, pending.mirrors_right⟩

/-- Unification of arrays is reflected if that of types is. -/
theorem array_reflects
    (reflects : Reflects scopeOf recur)
    (regular : env.Regular scopeOf)
    {component component' : Ty}
    {length length' : Length}
    (leftTidy : (Ty.array component length).Tidy scopeOf)
    (rightTidy : (Ty.array component' length').Tidy scopeOf)
    (different : Ty.array component length ≠ .array component' length') :
    Ensures
      (do
        let component ← recur component component'
        let length ← unifyLength length length'
        pure (Ty.array component length))
      env fun _ final =>
        Reflected scopeOf env (.array component length) (.array component' length') final := by
  have tidy : component.Tidy scopeOf := leftTidy.of_mem_children (List.mem_singleton_self _)
  have tidy' : component'.Tidy scopeOf := rightTidy.of_mem_children (List.mem_singleton_self _)
  refine .bind (reflects regular tidy tidy') fun {met middle} reflected => ?_
  have middleRegular := reflected.regular regular tidy tidy'
  refine .bind (Environment.unifyLength_joins middleRegular.quiet _ _) fun joins => .pure ?_
  refine .of_solid rfl rfl different fun {other} twins => ?_
  have quiet := twins.otherRegular.quiet
  obtain ⟨⟨forward, finishes, middleTwins⟩, ⟨backward, finishes', middleTwins'⟩⟩ :=
    reflected.of_twins twins tidy tidy'
  constructor
  · obtain ⟨otherFinal, otherJoins, finalTwins⟩ := (joins.mirrored middleTwins).1
    have lengths := otherJoins.exists_unifyLength middleTwins.otherRegular.quiet
    exact ⟨otherFinal, .array quiet different finishes lengths, finalTwins⟩
  · obtain ⟨otherFinal, otherJoins, finalTwins⟩ := (joins.mirrored middleTwins').2
    have lengths := otherJoins.exists_unifyLength middleTwins'.otherRegular.quiet
    exact ⟨otherFinal, .array quiet different.symm finishes' lengths, finalTwins⟩

/-- Unification of functions is reflected if that of types is. -/
theorem function_reflects
    (reflects : Reflects scopeOf recur)
    (regular : env.Regular scopeOf)
    {param result param' result' : Ty}
    (leftTidy : (Ty.function param result).Tidy scopeOf)
    (rightTidy : (Ty.function param' result').Tidy scopeOf)
    (different : Ty.function param result ≠ .function param' result') :
    Ensures
      (do
        let param ← recur param param'
        let result ← recur result result'
        pure (Ty.function param result))
      env fun _ final =>
        Reflected scopeOf env (.function param result) (.function param' result') final := by
  have paramTidy : param.Tidy scopeOf := leftTidy.of_mem_children (by simp [Ty.children])
  have resultTidy : result.Tidy scopeOf := leftTidy.of_mem_children (by simp [Ty.children])
  have paramTidy' : param'.Tidy scopeOf := rightTidy.of_mem_children (by simp [Ty.children])
  have resultTidy' : result'.Tidy scopeOf := rightTidy.of_mem_children (by simp [Ty.children])
  refine .bind (reflects regular paramTidy paramTidy') fun {met middle} params => ?_
  have middleRegular := params.regular regular paramTidy paramTidy'
  refine .bind (reflects middleRegular resultTidy resultTidy') fun results => .pure ?_
  refine .of_solid rfl rfl different fun {other} twins => ?_
  have quiet := twins.otherRegular.quiet
  obtain ⟨⟨forward, finishes, middleTwins⟩, ⟨backward, finishes', middleTwins'⟩⟩ :=
    params.of_twins twins paramTidy paramTidy'
  constructor
  · obtain ⟨⟨otherFinal, finishesResult, finalTwins⟩, _⟩ :=
      results.of_twins middleTwins resultTidy resultTidy'
    exact ⟨otherFinal, .function quiet different finishes finishesResult, finalTwins⟩
  · obtain ⟨_, ⟨otherFinal, finishesResult, finalTwins⟩⟩ :=
      results.of_twins middleTwins' resultTidy resultTidy'
    exact ⟨otherFinal, .function quiet different.symm finishes' finishesResult, finalTwins⟩

/-- That `int` widens to `float` is reflected: both orders are tried. -/
theorem widen_reflected : Reflected scopeOf env Ty.int Ty.float env := by
  refine .of_solid rfl rfl (by decide) fun {other} twins => ?_
  obtain ⟨forward, backward⟩ := Environment.Finishes.widen twins.otherRegular.quiet
  exact ⟨⟨other, forward, twins⟩, ⟨other, backward, twins⟩⟩

/-- The two sides of a shared field in the other order. -/
def swapSides (shared : String × Ty × Ty) : String × Ty × Ty :=
  (shared.1, shared.2.2, shared.2.1)

/-- Shared fields are unified in twins as well, whichever of the sides comes first. -/
theorem mapM_reflects
    (reflects : Reflects scopeOf recur)
    {shared : List (String × Ty × Ty)}
    (regular : env.Regular scopeOf)
    (tidy : ∀ field ∈ shared, field.2.1.Tidy scopeOf ∧ field.2.2.Tidy scopeOf) :
    Ensures
      (shared.mapM fun (label, first, second) => do
        let ty ← recur first second
        pure (label, ty))
      env
      fun _ final =>
        ∀ {other}, Twins scopeOf env other →
          (∃ otherFinal, other.FinishesAll shared otherFinal ∧ Twins scopeOf final otherFinal) ∧
            ∃ otherFinal,
              other.FinishesAll (shared.map swapSides) otherFinal ∧
                Twins scopeOf final otherFinal := by
  induction shared generalizing env with
  | nil =>
      rw [List.mapM_nil]
      exact .pure fun {other} twins => ⟨⟨other, .nil other, twins⟩, ⟨other, .nil other, twins⟩⟩
  | cons field rest inductionHypothesis =>
      obtain ⟨firstTidy, secondTidy⟩ := tidy field List.mem_cons_self
      have first :
          Ensures
            (do
              let ty ← recur field.2.1 field.2.2
              pure (field.1, ty))
            env
            fun _ middle => Reflected scopeOf env field.2.1 field.2.2 middle :=
        .bind (reflects regular firstTidy secondTidy) fun reflected => .pure reflected
      rw [List.mapM_cons]
      refine .bind first fun {met middle} reflected => ?_
      have middleRegular := reflected.regular regular firstTidy secondTidy
      have others := inductionHypothesis middleRegular fun other member =>
        tidy other (List.mem_cons_of_mem _ member)
      refine .bind others fun {fields final} reflectedRest => .pure fun {other} twins => ?_
      obtain ⟨⟨forward, finishes, middleTwins⟩, ⟨backward, finishes', middleTwins'⟩⟩ :=
        reflected.of_twins twins firstTidy secondTidy
      constructor
      · obtain ⟨otherFinal, finishesRest, finalTwins⟩ := (reflectedRest middleTwins).1
        exact ⟨otherFinal, .cons field.1 finishes finishesRest, finalTwins⟩
      · obtain ⟨otherFinal, finishesRest, finalTwins⟩ := (reflectedRest middleTwins').2
        exact ⟨otherFinal, .cons field.1 finishes' finishesRest, finalTwins⟩

/-- Unification of structs is reflected if that of types is. -/
theorem meet_reflects
    (reflects : Reflects scopeOf recur)
    (regular : env.Regular scopeOf)
    {left right : List (String × Ty)}
    (leftTidy : (Ty.struct left).Tidy scopeOf)
    (rightTidy : (Ty.struct right).Tidy scopeOf)
    (different : Ty.struct left ≠ .struct right) :
    Ensures (meet recur left right) env fun _ final =>
      Reflected scopeOf env (.struct left) (.struct right) final := by
  have leftSorted : Ty.Sorted left := by
    cases leftTidy.ordered with
    | struct sorted _ => exact sorted
  have rightSorted : Ty.Sorted right := by
    cases rightTidy.ordered with
    | struct sorted _ => exact sorted
  have eachTidy :
      ∀ field ∈ Ty.sharedFields left right,
        field.2.1.Tidy scopeOf ∧ field.2.2.Tidy scopeOf := by
    rintro ⟨label, first, second⟩ member
    obtain ⟨inLeft, found⟩ := Ty.mem_sharedFields.mp member
    constructor
    · exact leftTidy.of_mem_children (List.mem_map_of_mem inLeft)
    · exact rightTidy.of_mem_children (List.mem_map_of_mem (mem_of_lookup found))
  have swappedFields : Ty.sharedFields right left = (Ty.sharedFields left right).map swapSides :=
    Ty.sharedFields_swap leftSorted rightSorted
  unfold meet
  split
  · exact .bind (note_stays regular.quiet _ _ _) fun _ => .bind_environment .fail
  · rename_i notEmpty
    refine .bind (note_stays regular.quiet _ _ _) ?_
    rintro _ _ rfl
    refine .bind (mapM_reflects reflects regular eachTidy) fun mirrored => .pure ?_
    refine .of_solid rfl rfl different fun {other} twins => ?_
    have quiet := twins.otherRegular.quiet
    obtain ⟨⟨forward, finishes, finalTwins⟩, ⟨backward, finishes', finalTwins'⟩⟩ := mirrored twins
    rw [← swappedFields] at finishes'
    refine ⟨⟨forward, .struct quiet different notEmpty finishes, finalTwins⟩, ?_⟩
    refine ⟨backward, .struct quiet different.symm ?_ finishes', finalTwins'⟩
    rw [swappedFields]
    exact fun isEmpty => notEmpty (List.map_eq_nil_iff.mp isEmpty)

/-- One step of unification is reflected in twins if the unification of smaller problems is. -/
theorem step_reflects (reflects : Reflects scopeOf recur) : Reflects scopeOf (step recur) := by
  intro env left right regular leftTidy rightTidy
  unfold step
  split
  · rename_i same
    subst same
    refine .bind (note_stays regular.quiet _ _ _) ?_
    rintro _ _ rfl
    exact .pure (.of_same_ending rfl)
  rename_i different
  split
  case h_1 scope id =>
    refine .bind_environment ?_
    split
    · rename_i bound isBound
      have stands : env.standsFor? (.placeholder scope id) = some bound := isBound
      refine (reflects regular (regular.tidy stands) rightTidy).imp fun reflected => ?_
      exact reflected.congr_left (regular.ending_bound isBound _).symm
    · rename_i unbound
      rw [leftTidy.inScope.eq_scopeOf]
      exact bind_reflects regular unbound rightTidy
  case h_2 =>
    exact (reflects regular rightTidy leftTidy).imp fun reflected => reflected.swapped
  case h_3 =>
    refine .bind (definition_finds _ _) ?_
    rintro _ _ ⟨rfl, rfl, notNamed⟩
    refine .bind (note_stays regular.quiet _ _ _) ?_
    rintro _ _ rfl
    obtain ⟨tidy, sameEnding⟩ := regular.head_of_ne leftTidy notNamed
    exact (reflects regular tidy rightTidy).imp fun reflected => reflected.congr_left sameEnding
  case h_4 =>
    refine .bind (definition_finds _ _) ?_
    rintro _ _ ⟨rfl, rfl, notNamed⟩
    refine .bind (note_stays regular.quiet _ _ _) ?_
    rintro _ _ rfl
    obtain ⟨tidy, sameEnding⟩ := regular.head_of_ne rightTidy notNamed
    exact (reflects regular leftTidy tidy).imp fun reflected =>
      (reflected.swapped.congr_left sameEnding).swapped
  case h_5 =>
    refine .bind (note_stays regular.quiet _ _ _) ?_
    rintro _ _ rfl
    exact array_reflects reflects regular leftTidy rightTidy different
  case h_6 =>
    exact meet_reflects reflects regular leftTidy rightTidy different
  case h_7 =>
    refine .bind (note_stays regular.quiet _ _ _) ?_
    rintro _ _ rfl
    exact function_reflects reflects regular leftTidy rightTidy different
  case h_8 =>
    refine .bind (note_stays regular.quiet _ _ _) ?_
    rintro _ _ rfl
    exact .pure widen_reflected
  case h_9 =>
    refine .bind (note_stays regular.quiet _ _ _) ?_
    rintro _ _ rfl
    exact .pure widen_reflected.swapped
  case h_10 =>
    exact mismatch_ensures _ _ _

/-- Unification in any number of steps is reflected. -/
theorem within_reflects (steps : Nat) : Reflects scopeOf (within steps) := by
  induction steps with
  | zero =>
      intro env left right _ _ _ ty final ended
      cases ended
  | succ steps inductionHypothesis => exact step_reflects inductionHypothesis

end Unification

variable {env : Environment} {left right : Ty}

/-- Unification that succeeds in one order succeeds in the other. -/
theorem unify_swapped
    {scopeOf : PlaceholderId → ScopeId}
    (regular : env.Regular scopeOf)
    (leftTidy : left.Tidy scopeOf)
    (rightTidy : right.Tidy scopeOf)
    (succeeds : ∃ ty final, unify left right env = .ok ty final) :
    ∃ ty final, unify right left env = .ok ty final := by
  obtain ⟨ty, final, ended⟩ := succeeds
  rw [(unify_eq_within regular.consistent regular.acyclic left right).2 _ le_rfl] at ended
  have reflected := within_reflects _ regular leftTidy rightTidy ty final ended
  obtain ⟨_, ⟨otherFinal, finishes, _⟩⟩ := reflected.of_twins (.refl regular) leftTidy rightTidy
  obtain ⟨met, isOk⟩ := finishes.exists_unify regular.consistent regular.acyclic
  exact ⟨met, otherFinal, isOk⟩

/-- Unification succeeds with and without a trace alike. -/
theorem unify_succeeds_untraced :
    (∃ ty final, unify left right env.untraced = .ok ty final) ↔
      ∃ ty final, unify left right env = .ok ty final := by
  rw [unify_ignoresTrace left right env]
  cases unify left right env with
  | ok ty final => exact ⟨fun _ => ⟨ty, final, rfl⟩, fun _ => ⟨ty, final.untraced, rfl⟩⟩
  | error cause final => exact ⟨nofun, nofun⟩
  | exhausted => exact ⟨nofun, nofun⟩

/--
Unification always answers, and it succeeds in one order exactly if it succeeds in the other one,
as long as no reference stands for an unbound placeholder.

Bindings and definitions never lead back to themselves, and each placeholder has one scope.  Structs
list their fields in label order in every type that is declared, passed to an operation or unified.
-/
theorem unify_succeeds_iff_swapped
    {scopeOf : PlaceholderId → ScopeId}
    (reachable : env.ReachableWith .ordered)
    (acyclic : env.Acyclic)
    (inScope : ∀ leaf next, env.standsFor? leaf = some next → next.ScopedBy scopeOf)
    (heads : ∀ scope name, (env.head (.named scope name)).isPlaceholder = false)
    (leftTidy : left.Tidy scopeOf)
    (rightTidy : right.Tidy scopeOf) :
    unify left right env ≠ .exhausted ∧
      unify right left env ≠ .exhausted ∧
      ((∃ ty final, unify left right env = .ok ty final) ↔
        ∃ ty final, unify right left env = .ok ty final) := by
  have consistent := reachable.reachable.consistent
  have satisfies := reachable.satisfies
  have sameStands : ∀ leaf, env.untraced.standsFor? leaf = env.standsFor? leaf :=
    Environment.standsFor?_congr rfl fun _ => rfl
  have regular : env.untraced.Regular scopeOf := by
    refine
      { quiet := rfl
        consistent := consistent
        acyclic := acyclic.congr sameStands
        tidy := fun {leaf next} stands => ?_
        heads := fun scope name => ?_ }
    · rw [sameStands] at stands
      refine ⟨?_, inScope leaf next stands⟩
      cases leaf with
      | placeholder scope id => exact satisfies.binding? stands
      | named scope name =>
          obtain ⟨⟨key, definition⟩, isDefined, rfl⟩ := Option.map_eq_some_iff.mp stands
          exact satisfies.definition? isDefined
      | _ => cases stands
    · rw [Environment.head_untraced]
      exact heads scope name
  refine ⟨(unify_eq_within consistent acyclic left right).1,
    (unify_eq_within consistent acyclic right left).1, ?_⟩
  have untraced :
      (∃ ty final, unify left right env.untraced = .ok ty final) ↔
        ∃ ty final, unify right left env.untraced = .ok ty final :=
    ⟨unify_swapped regular leftTidy rightTidy, unify_swapped regular rightTidy leftTidy⟩
  exact unify_succeeds_untraced.symm.trans (untraced.trans unify_succeeds_untraced)

/-- As long as nothing is bound, leaves stand for declared types. -/
theorem Environment.exists_declaration_of_standsFor?
    (unbound : ∀ id, env.binding? id = none)
    {leaf next : Ty}
    (stands : env.standsFor? leaf = some next) :
    ∃ declaration ∈ env.declared.types.entries, declaration.value = next := by
  cases leaf with
  | placeholder scope id => exact absurd ((unbound id).symm.trans stands) (by simp)
  | named scope name =>
      obtain ⟨⟨key, definition⟩, isDefined, rfl⟩ := Option.map_eq_some_iff.mp stands
      obtain ⟨declaration, isFound, isValue⟩ :=
        Option.map_eq_some_iff.mp (local?_of_definition? isDefined)
      exact ⟨declaration, List.mem_of_find?_eq_some isFound, isValue⟩
  | _ => cases stands

/--
A placeholder that is bound to another one in one order and the other way round in the other order,
next to a declared struct.
-/
theorem unify_succeeds_iff_swapped_joined :
    ∃ env : Environment,
      (env.ReachableWith .ordered ∧ env.Acyclic ∧
        ∀ scope name, (env.head (.named scope name)).isPlaceholder = false) ∧
      (∃ ty final,
        unify (.function (.placeholder .native ⟨0⟩) (.placeholder .native ⟨1⟩))
          (.function (.placeholder .native ⟨1⟩) (.named .native "Point")) env = .ok ty final) ∧
      ∃ ty final,
        unify (.function (.placeholder .native ⟨1⟩) (.named .native "Point"))
          (.function (.placeholder .native ⟨0⟩) (.placeholder .native ⟨1⟩)) env = .ok ty final := by
  let point : Ty := .struct [("x", Ty.int), ("y", Ty.float)]
  let env : Environment :=
    Operation.declare (Environment.empty Options.standard) fun declared =>
      declared.declareType .native "Point" point
  have pointOrdered : point.Ordered := by
    refine .struct (List.pairwise_pair.mpr (by decide)) fun field member => ?_
    have isField : field = ("x", Ty.int) ∨ field = ("y", Ty.float) := by simpa using member
    rcases isField with rfl | rfl
    · exact .primitive _
    · exact .primitive _
  have reachable : env.ReachableWith .ordered :=
    ⟨Options.standard, [.declareType .native "Point" point], ⟨pointOrdered, trivial⟩, rfl⟩
  have unbound : ∀ id, env.binding? id = none := FrameStack.placeholder?_empty
  have isPoint {leaf next : Ty} (stands : env.standsFor? leaf = some next) : next = point := by
    obtain ⟨declaration, isDeclared, isValue⟩ :=
      Environment.exists_declaration_of_standsFor? unbound stands
    have member : declaration ∈ [⟨.native, "Point", point⟩] := isDeclared
    rw [← isValue, List.mem_singleton.mp member]
  have acyclic : env.Acyclic := by
    refine Environment.acyclic_of_no_references unbound fun declaration isDeclared => ?_
    have member : declaration ∈ [⟨.native, "Point", point⟩] := isDeclared
    rw [List.mem_singleton.mp member]
    decide
  have inScope (leaf next : Ty) (stands : env.standsFor? leaf = some next) :
      next.ScopedBy fun _ => .native := by
    rw [isPoint stands]
    simp [Ty.ScopedBy, point, Ty.int, Ty.float]
  have heads (scope : ScopeId) (name : String) :
      (env.head (.named scope name)).isPlaceholder = false :=
    Environment.head_induction (motive := fun ty => ty.isPlaceholder = false)
      (fun _ stands => isPoint stands ▸ rfl) rfl
  have leftTidy :
      (Ty.function (.placeholder .native ⟨0⟩) (.placeholder .native ⟨1⟩)).Tidy
        fun _ => .native :=
    .function (.placeholder ⟨0⟩) (.placeholder ⟨1⟩)
  have rightTidy :
      (Ty.function (.placeholder .native ⟨1⟩) (.named .native "Point")).Tidy
        fun _ => .native :=
    .function (.placeholder ⟨1⟩) (.named _ _)
  obtain ⟨final, unified⟩ := Outcome.eq_ok_of_value?
    (show
      (unify (.function (.placeholder .native ⟨0⟩) (.placeholder .native ⟨1⟩))
        (.function (.placeholder .native ⟨1⟩) (.named .native "Point")) env).value? =
          some (.function (.placeholder .native ⟨1⟩) (.named .native "Point")) by decide +kernel)
  have symmetric :=
    (unify_succeeds_iff_swapped reachable acyclic inScope heads leftTidy rightTidy).2.2
  exact
    ⟨env, ⟨reachable, acyclic, heads⟩, ⟨_, final, unified⟩, symmetric.mp ⟨_, final, unified⟩⟩

/--
Without the condition on references the order matters: here `A` and `B` are declared as two
placeholders.  In one order `A` is bound to the reference `B`, whose own placeholder is then taken
to occur in `A`.  In the other order `B` is bound to the reference `A`, and `A` is met again.
-/
theorem unify_succeeds_in_one_order :
    ∃ env : Environment, ∃ left right : Ty,
      (env.ReachableWith .ordered ∧ env.Acyclic ∧
        (∀ leaf next, env.standsFor? leaf = some next → next.ScopedBy fun _ => .native) ∧
        (left.Tidy fun _ => .native) ∧ right.Tidy fun _ => .native) ∧
      (∃ ty final, unify right left env = .ok ty final) ∧
      ¬ ∃ ty final, unify left right env = .ok ty final := by
  let env : Environment :=
    Operation.declare
      (Operation.declare (Environment.empty Options.standard) fun declared =>
        declared.declareType .native "A" (.placeholder .native ⟨0⟩))
      fun declared => declared.declareType .native "B" (.placeholder .native ⟨1⟩)
  let left : Ty := .function (.named .native "A") (.placeholder .native ⟨1⟩)
  let right : Ty := .function (.named .native "B") (.named .native "A")
  have reachable : env.ReachableWith .ordered :=
    ⟨Options.standard,
      [.declareType .native "A" (.placeholder .native ⟨0⟩),
        .declareType .native "B" (.placeholder .native ⟨1⟩)],
      ⟨.placeholder _ _, .placeholder _ _, trivial⟩, rfl⟩
  have unbound : ∀ id, env.binding? id = none := FrameStack.placeholder?_empty
  have isPlaceholder {declaration : Declaration Ty}
      (isDeclared : declaration ∈ env.declared.types.entries) :
      ∃ id, declaration.value = .placeholder .native id := by
    have member : declaration ∈
        [⟨.native, "A", .placeholder .native ⟨0⟩⟩, ⟨.native, "B", .placeholder .native ⟨1⟩⟩] :=
      isDeclared
    rcases List.mem_pair.mp member with rfl | rfl
    · exact ⟨_, rfl⟩
    · exact ⟨_, rfl⟩
  have acyclic : env.Acyclic := by
    refine Environment.acyclic_of_no_references unbound fun declaration isDeclared => ?_
    obtain ⟨id, isValue⟩ := isPlaceholder isDeclared
    rw [isValue]
    rfl
  have inScope (leaf next : Ty) (stands : env.standsFor? leaf = some next) :
      next.ScopedBy fun _ => .native := by
    obtain ⟨declaration, isDeclared, isValue⟩ :=
      Environment.exists_declaration_of_standsFor? unbound stands
    obtain ⟨id, isVar⟩ := isPlaceholder isDeclared
    rw [← isValue, isVar]
    exact (Ty.Tidy.placeholder id).inScope
  have leftTidy : left.Tidy fun _ => .native :=
    .function (.named _ _) (.placeholder ⟨1⟩)
  have rightTidy : right.Tidy fun _ => .native :=
    .function (.named _ _) (.named _ _)
  obtain ⟨final, unified⟩ := Outcome.eq_ok_of_value?
    (show (unify right left env).value? =
      some (.function (.named .native "A") (.named .native "A")) by decide +kernel)
  have refused : (unify left right env).value? = none := by decide +kernel
  refine ⟨env, left, right, ⟨reachable, acyclic, inScope, leftTidy, rightTidy⟩,
    ⟨_, final, unified⟩, ?_⟩
  rintro ⟨ty, otherFinal, isOk⟩
  rw [isOk] at refused
  contradiction

end ShaderTyping
