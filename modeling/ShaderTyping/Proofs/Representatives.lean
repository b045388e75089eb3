import ShaderTyping.Proofs.Endings

namespace ShaderTyping

/-!
# Environments that differ in their representatives

Two unbound placeholders become one by binding either of them to the other, and types then end at
the one that is left.  `Environment.Twins` says of two environments that they differ in nothing
else: types end at the same type in both or at unbound placeholders in both, and the same types
end at one placeholder.  Twins stay twins under bindings of corresponding variables, whichever of
two variables is bound in each of them, and the occurs check answers the same in both.
-/

/--
Two ways to represent items: what represents an item and is no variable is the same in both, and
they represent the same items alike.
-/
structure Mirrored (valid : ι → Prop) (isVar : β → Prop) (first second : ι → β) : Prop where
  eq_of_first : ∀ {item}, valid item → ¬ isVar (first item) → second item = first item
  eq_of_second : ∀ {item}, valid item → ¬ isVar (second item) → first item = second item
  alike :
    ∀ {item other}, valid item → valid other →
      (first item = first other ↔ second item = second other)

namespace Mirrored

variable {valid : ι → Prop} {isVar : β → Prop} {first second first' second' : ι → β}

theorem refl (represent : ι → β) : Mirrored valid isVar represent represent where
  eq_of_first _ _ := rfl
  eq_of_second _ _ := rfl
  alike _ _ := Iff.rfl

theorem symm (mirrored : Mirrored valid isVar first second) :
    Mirrored valid isVar second first where
  eq_of_first := mirrored.eq_of_second
  eq_of_second := mirrored.eq_of_first
  alike isValid isValid' := (mirrored.alike isValid isValid').symm

/-- An item is represented by a variable in both ways or in neither. -/
theorem isVar_iff
    (mirrored : Mirrored valid isVar first second)
    {item : ι}
    (isValid : valid item) :
    isVar (first item) ↔ isVar (second item) := by
  constructor
  · intro isFirst
    by_contra notSecond
    exact notSecond (mirrored.eq_of_second isValid notSecond ▸ isFirst)
  · intro isSecond
    by_contra notFirst
    exact notFirst (mirrored.eq_of_first isValid notFirst ▸ isSecond)

variable [DecidableEq β]

/-- Items may be given the representative of another one in both ways. -/
theorem assign
    (mirrored : Mirrored valid isVar first second)
    (source target : ι)
    (isSource : valid source)
    (isTarget : valid target)
    (firstAssigned :
      ∀ {item}, valid item →
        first' item = if first item = first source then first target else first item)
    (secondAssigned :
      ∀ {item}, valid item →
        second' item = if second item = second source then second target else second item) :
    Mirrored valid isVar first' second' := by
  -- Either way, an item is represented as an item of the same class was before.
  have represented {item : ι} (isValid : valid item) :
      ∃ other, valid other ∧ first' item = first other ∧ second' item = second other := by
    by_cases same : first item = first source
    · have same' := (mirrored.alike isValid isSource).mp same
      refine ⟨target, isTarget, ?_, ?_⟩
      · rw [firstAssigned isValid, if_pos same]
      · rw [secondAssigned isValid, if_pos same']
    · have different := fun same' => same ((mirrored.alike isValid isSource).mpr same')
      refine ⟨item, isValid, ?_, ?_⟩
      · rw [firstAssigned isValid, if_neg same]
      · rw [secondAssigned isValid, if_neg different]
  refine ⟨fun isValid => ?_, fun isValid => ?_, fun isValid isValid' => ?_⟩
  · obtain ⟨other, otherValid, isFirst, isSecond⟩ := represented isValid
    rw [isFirst, isSecond]
    exact mirrored.eq_of_first otherValid
  · obtain ⟨other, otherValid, isFirst, isSecond⟩ := represented isValid
    rw [isFirst, isSecond]
    exact mirrored.eq_of_second otherValid
  · obtain ⟨other, otherValid, isFirst, isSecond⟩ := represented isValid
    obtain ⟨other', otherValid', isFirst', isSecond'⟩ := represented isValid'
    rw [isFirst, isSecond, isFirst', isSecond']
    exact mirrored.alike otherValid otherValid'

/-- Two classes of variables may be joined under either of their representatives. -/
theorem join
    (mirrored : Mirrored valid isVar first second)
    (source target : ι)
    (isSource : valid source)
    (isTarget : valid target)
    (sourceVar : isVar (first source))
    (targetVar : isVar (first target))
    (firstAssigned :
      ∀ {item}, valid item →
        first' item = if first item = first source then first target else first item)
    (secondAssigned :
      ∀ {item}, valid item →
        second' item = if second item = second target then second source else second item) :
    Mirrored valid isVar first' second' := by
  have targetVar' := (mirrored.isVar_iff isTarget).mp targetVar
  have sourceVar' := (mirrored.isVar_iff isSource).mp sourceVar
  refine ⟨?_, ?_, ?_⟩
  · intro item isValid notVar
    grind [mirrored.eq_of_first isValid]
  · intro item isValid notVar
    grind [mirrored.eq_of_second isValid]
  · intro item other isValid isValid'
    have items := mirrored.alike isValid isValid'
    have itemSource := mirrored.alike isValid isSource
    have itemTarget := mirrored.alike isValid isTarget
    have otherSource := mirrored.alike isValid' isSource
    have otherTarget := mirrored.alike isValid' isTarget
    rw [firstAssigned isValid, firstAssigned isValid', secondAssigned isValid,
      secondAssigned isValid']
    grind

end Mirrored

namespace Environment

/-- Regular environments in which types and lengths end alike, up to the choice of variables. -/
structure Twins (scopeOf : PlaceholderId → ScopeId) (env other : Environment) : Prop where
  regular : env.Regular scopeOf
  otherRegular : other.Regular scopeOf
  types :
    Mirrored (Ty.ScopedBy scopeOf) (fun ty => ty.isPlaceholder = true) env.ending other.ending
  lengths :
    Mirrored (fun _ => True) (fun length => ∃ id, length = .var id)
      env.resolveLength other.resolveLength

/-- Two types that end alike in two environments: both end as some third type does. -/
def Alike (scopeOf : PlaceholderId → ScopeId) (env other : Environment) (ty ty' : Ty) : Prop :=
  ∃ item : Ty, item.ScopedBy scopeOf ∧
    env.ending item = env.ending ty ∧ other.ending item = other.ending ty'

namespace Alike

variable {scopeOf : PlaceholderId → ScopeId} {env other : Environment} {ty ty' : Ty}

theorem refl (inScope : ty.ScopedBy scopeOf) : env.Alike scopeOf other ty ty :=
  ⟨ty, inScope, rfl, rfl⟩

theorem symm (alike : env.Alike scopeOf other ty ty') : other.Alike scopeOf env ty' ty := by
  obtain ⟨item, inScope, isEnding, isEnding'⟩ := alike
  exact ⟨item, inScope, isEnding', isEnding⟩

/-- Only where a type ends matters. -/
theorem congr
    (alike : env.Alike scopeOf other ty ty')
    {found : Ty}
    (sameEnding : env.ending found = env.ending ty) :
    env.Alike scopeOf other found ty' := by
  obtain ⟨item, inScope, isEnding, isEnding'⟩ := alike
  exact ⟨item, inScope, isEnding.trans sameEnding.symm, isEnding'⟩

/-- A type that ends at the same type is alike too. -/
theorem congr_right
    (alike : env.Alike scopeOf other ty ty')
    {found : Ty}
    (sameEnding : other.ending found = other.ending ty') :
    env.Alike scopeOf other ty found :=
  (alike.symm.congr sameEnding).symm

end Alike

namespace Twins

variable {scopeOf : PlaceholderId → ScopeId} {env other : Environment}

theorem refl (regular : env.Regular scopeOf) : Twins scopeOf env env :=
  ⟨regular, regular, .refl _, .refl _⟩

variable (twins : Twins scopeOf env other)
include twins

theorem symm : Twins scopeOf other env :=
  ⟨twins.otherRegular, twins.regular, twins.types.symm, twins.lengths.symm⟩

variable {ty ty' : Ty}

/-- A type that ends at no placeholder ends at the same type in a twin. -/
theorem ending_eq
    (alike : env.Alike scopeOf other ty ty')
    (notPlaceholder : (env.ending ty).isPlaceholder = false) :
    other.ending ty' = env.ending ty := by
  obtain ⟨item, inScope, isEnding, isEnding'⟩ := alike
  rw [← isEnding] at notPlaceholder ⊢
  rw [← isEnding']
  exact twins.types.eq_of_first inScope (notPlaceholder ▸ Bool.false_ne_true)

/-- Types that are alike both end at placeholders or neither does. -/
theorem isPlaceholder_iff
    (alike : env.Alike scopeOf other ty ty') :
    (env.ending ty).isPlaceholder = true ↔ (other.ending ty').isPlaceholder = true := by
  obtain ⟨item, inScope, isEnding, isEnding'⟩ := alike
  rw [← isEnding, ← isEnding']
  exact twins.types.isVar_iff inScope

/-- Two types end at the same type in both twins or in neither. -/
theorem ending_eq_iff
    {second second' : Ty}
    (alike : env.Alike scopeOf other ty ty')
    (alike' : env.Alike scopeOf other second second') :
    env.ending ty = env.ending second ↔ other.ending ty' = other.ending second' := by
  obtain ⟨item, inScope, isEnding, isEnding'⟩ := alike
  obtain ⟨item', inScope', isEnding₂, isEnding₂'⟩ := alike'
  rw [← isEnding, ← isEnding', ← isEnding₂, ← isEnding₂']
  exact twins.types.alike inScope inScope'

/-- What a type harbors in an environment, it harbors in a twin. -/
theorem harbors
    {var var' : Ty}
    (alikeVar : env.Alike scopeOf other var var')
    (inScope : ty.ScopedBy scopeOf)
    (harbors : env.Harbors (env.ending var) ty) :
    other.Harbors (other.ending var') ty := by
  generalize isEnding : env.ending var = target at harbors
  induction harbors with
  | @here ty isTarget =>
      have same := (twins.ending_eq_iff (.refl inScope) alikeVar).mp (isTarget.trans isEnding.symm)
      exact .here same
  | @part ty leaf isLeaf _ inductionHypothesis =>
      have leafInScope := (twins.regular.inScope_ending inScope).of_mem_leaves isLeaf
      have inside := inductionHypothesis leafInScope
      cases isFound : (env.ending ty).isPlaceholder with
      | false =>
          rw [← twins.ending_eq (.refl inScope) isFound] at isLeaf
          exact .part isLeaf inside
      | true =>
          refine inside.congr ?_
          refine (twins.ending_eq_iff (.refl inScope) (.refl leafInScope)).mp ?_
          cases isPlaceholder : env.ending ty with
          | placeholder scope id =>
              rw [isPlaceholder, Ty.leaves_placeholder, List.mem_singleton] at isLeaf
              rw [isLeaf, ← isPlaceholder, twins.regular.ending_ending]
          | _ =>
              rw [isPlaceholder] at isFound
              contradiction

/-- Placeholders that are alike are endings inside the same types. -/
theorem harbors_iff
    {var var' : Ty}
    (alikeVar : env.Alike scopeOf other var var')
    (alike : env.Alike scopeOf other ty ty') :
    env.Harbors (env.ending var) ty ↔ other.Harbors (other.ending var') ty' := by
  obtain ⟨item, inScope, isEnding, isEnding'⟩ := alike
  constructor
  · intro inTy
    exact (twins.harbors alikeVar inScope (inTy.congr isEnding)).congr isEnding'.symm
  · intro inTy
    have inItem := inTy.congr isEnding'
    exact (twins.symm.harbors alikeVar.symm inScope inItem).congr isEnding.symm

variable {id id' : PlaceholderId}

/-- Bindings of placeholders concern no lengths, so twins stay twins if types still end alike. -/
theorem bindPlaceholders
    (tidy : ty.Tidy scopeOf)
    (tidy' : ty'.Tidy scopeOf)
    (unbound : env.binding? id = none)
    (unbound' : other.binding? id' = none)
    (notFound : env.occurs id ty = false)
    (notFound' : other.occurs id' ty' = false)
    (types :
      Mirrored (Ty.ScopedBy scopeOf) (fun ty => ty.isPlaceholder = true)
        (env.bindPlaceholder id ty).ending (other.bindPlaceholder id' ty').ending) :
    Twins scopeOf (env.bindPlaceholder id ty) (other.bindPlaceholder id' ty') where
  regular := twins.regular.bindPlaceholder tidy unbound notFound
  otherRegular := twins.otherRegular.bindPlaceholder tidy' unbound' notFound'
  types := types
  lengths := by
    rw [funext (twins.regular.resolveLength_bindPlaceholder tidy unbound notFound),
      funext (twins.otherRegular.resolveLength_bindPlaceholder tidy' unbound' notFound')]
    exact twins.lengths

/-- Two twins stay twins if placeholders that end alike are bound to types that end alike. -/
theorem bindBoth
    (alikeVar :
      env.Alike scopeOf other (.placeholder (scopeOf id) id) (.placeholder (scopeOf id') id'))
    (alike : env.Alike scopeOf other ty ty')
    (tidy : ty.Tidy scopeOf)
    (tidy' : ty'.Tidy scopeOf)
    (unbound : env.binding? id = none)
    (unbound' : other.binding? id' = none)
    (notFound : env.occurs id ty = false)
    (notFound' : other.occurs id' ty' = false) :
    Twins scopeOf (env.bindPlaceholder id ty) (other.bindPlaceholder id' ty') := by
  obtain ⟨source, isSource, sourceEnding, sourceEnding'⟩ := alikeVar
  obtain ⟨target, isTarget, targetEnding, targetEnding'⟩ := alike
  rw [ending_unbound unbound] at sourceEnding
  rw [ending_unbound unbound'] at sourceEnding'
  refine twins.bindPlaceholders tidy tidy' unbound unbound' notFound notFound'
    (twins.types.assign source target isSource isTarget ?_ ?_)
  · intro item inScope
    rw [twins.regular.ending_bindPlaceholder tidy unbound notFound inScope, sourceEnding,
      targetEnding]
  · intro item inScope
    rw [twins.otherRegular.ending_bindPlaceholder tidy' unbound' notFound' inScope, sourceEnding',
      targetEnding']

/-- Two twins stay twins if two unbound placeholders are joined in them in opposite directions. -/
theorem bindAcross
    {joined joined' : PlaceholderId}
    (alikeVar :
      env.Alike scopeOf other (.placeholder (scopeOf id) id) (.placeholder (scopeOf id') id'))
    (alike : env.Alike scopeOf other ty ty')
    (isJoined : env.ending ty = .placeholder (scopeOf joined) joined)
    (isJoined' : other.ending ty' = .placeholder (scopeOf joined') joined')
    (tidy : ty.Tidy scopeOf)
    (unbound : env.binding? id = none)
    (notFound : env.occurs id ty = false)
    (notFound' : other.occurs joined' (.placeholder (scopeOf id') id') = false) :
    Twins scopeOf (env.bindPlaceholder id ty)
      (other.bindPlaceholder joined' (.placeholder (scopeOf id') id')) := by
  obtain ⟨source, isSource, sourceEnding, sourceEnding'⟩ := alikeVar
  obtain ⟨target, isTarget, targetEnding, targetEnding'⟩ := alike
  have joinedUnbound' := (twins.otherRegular.follow_of_ending isJoined').2
  have idTidy' : (Ty.placeholder (scopeOf id') id').Tidy scopeOf := .placeholder id'
  rw [ending_unbound unbound] at sourceEnding
  have isVar : (env.ending source).isPlaceholder = true := sourceEnding ▸ rfl
  have isVarTarget : (env.ending target).isPlaceholder = true := by
    rw [targetEnding, isJoined]
    rfl
  refine twins.bindPlaceholders tidy idTidy' unbound joinedUnbound' notFound notFound'
    (twins.types.join source target isSource isTarget isVar isVarTarget ?_ ?_)
  · intro item inScope
    rw [twins.regular.ending_bindPlaceholder tidy unbound notFound inScope, sourceEnding,
      targetEnding]
  · intro item inScope
    rw [twins.otherRegular.ending_bindPlaceholder idTidy' joinedUnbound' notFound' inScope,
      sourceEnding', targetEnding', isJoined']

variable {first second : Length} {lengthId lengthId' : LengthId}

/-- Bindings of lengths concern no placeholders, so twins stay twins if lengths are still alike. -/
theorem bindLengths
    {first' second' : Length}
    (isVar : env.resolveLength first = .var lengthId)
    (isVar' : other.resolveLength first' = .var lengthId')
    (different : env.resolveLength second ≠ .var lengthId)
    (different' : other.resolveLength second' ≠ .var lengthId')
    (lengths :
      Mirrored (fun _ => True) (fun length => ∃ id, length = .var id)
        (env.bindLength lengthId (env.resolveLength second)).resolveLength
        (other.bindLength lengthId' (other.resolveLength second')).resolveLength) :
    Twins scopeOf (env.bindLength lengthId (env.resolveLength second))
      (other.bindLength lengthId' (other.resolveLength second')) where
  regular := twins.regular.bindLength isVar different
  otherRegular := twins.otherRegular.bindLength isVar' different'
  types := by
    rw [funext (twins.regular.ending_bindLength isVar different),
      funext (twins.otherRegular.ending_bindLength isVar' different')]
    exact twins.types
  lengths := lengths

/-- Binding the same lengths in both environments keeps twins twins. -/
theorem bindLengthBoth
    (isVar : env.resolveLength first = .var lengthId)
    (isVar' : other.resolveLength first = .var lengthId')
    (different : env.resolveLength second ≠ .var lengthId)
    (different' : other.resolveLength second ≠ .var lengthId') :
    Twins scopeOf (env.bindLength lengthId (env.resolveLength second))
      (other.bindLength lengthId' (other.resolveLength second)) := by
  refine twins.bindLengths isVar isVar' different different'
    (twins.lengths.assign first second trivial trivial ?_ ?_)
  · intro length _
    rw [twins.regular.resolveLength_bindLength isVar different, isVar]
  · intro length _
    rw [twins.otherRegular.resolveLength_bindLength isVar' different', isVar']

/-- Binding two lengths to each other, in one order or the other, keeps twins twins. -/
theorem bindLengthAcross
    (isVar : env.resolveLength first = .var lengthId)
    (isVar' : other.resolveLength second = .var lengthId')
    (different : env.resolveLength second ≠ .var lengthId)
    (different' : other.resolveLength first ≠ .var lengthId') :
    Twins scopeOf (env.bindLength lengthId (env.resolveLength second))
      (other.bindLength lengthId' (other.resolveLength first)) := by
  have isVarSecond := (twins.lengths.isVar_iff trivial).mpr ⟨lengthId', isVar'⟩
  refine twins.bindLengths isVar isVar' different different'
    (twins.lengths.join first second trivial trivial ⟨lengthId, isVar⟩ isVarSecond ?_ ?_)
  · intro length _
    rw [twins.regular.resolveLength_bindLength isVar different, isVar]
  · intro length _
    rw [twins.otherRegular.resolveLength_bindLength isVar' different', isVar']

end Twins

/-- The ways in which two lengths are made to agree. -/
inductive JoinsLengths (env : Environment) (left right : Length) : Environment → Prop where
  | same :
      env.resolveLength left = env.resolveLength right →
      JoinsLengths env left right env
  | left {id : LengthId} :
      env.resolveLength left = .var id →
      env.resolveLength right ≠ .var id →
      JoinsLengths env left right (env.bindLength id (env.resolveLength right))
  | right {id : LengthId} :
      env.resolveLength right = .var id →
      (∀ other, env.resolveLength left ≠ .var other) →
      JoinsLengths env left right (env.bindLength id (env.resolveLength left))

/-- Unification of lengths joins them. -/
theorem unifyLength_joins
    {env : Environment}
    (quiet : env.options.trace = false)
    (left right : Length) :
    Action.Ensures (unifyLength left right) env fun _ final =>
      env.JoinsLengths left right final := by
  refine .bind_environment ?_
  dsimp only
  split
  · rename_i same
    exact .pure (.same same)
  · rename_i different
    split
    · rename_i id isVar
      intro length final ended
      cases ended
      rw [traceUnify_of_quiet quiet]
      exact .left isVar fun same => different (isVar.trans same.symm)
    · rename_i id isVar notVar
      intro length final ended
      cases ended
      rw [traceUnify_of_quiet quiet]
      exact .right isVar notVar
    · exact .fail

/-- Lengths that are joined in some environment can be unified. -/
theorem JoinsLengths.exists_unifyLength
    {env final : Environment}
    (quiet : env.options.trace = false)
    {left right : Length}
    (joins : env.JoinsLengths left right final) :
    ∃ length, unifyLength left right env = .ok length final := by
  have noted (event : UnifyEvent) (left right : Operand) :
      env.traceUnify event left right = env :=
    traceUnify_of_quiet quiet event left right
  simp only [unifyLength, Action.environment_bind]
  cases joins with
  | same same =>
      rw [if_pos same]
      exact ⟨_, rfl⟩
  | @left id isVar different =>
      rw [if_neg fun same => different (same.symm.trans isVar), isVar]
      refine ⟨_, Action.bind_eq_ok.mpr ⟨(), env, ?_, rfl⟩⟩
      exact congrArg (Outcome.ok ()) (noted _ _ _)
  | @right id isVar notVar =>
      rw [if_neg fun same => notVar id (same.trans isVar), isVar]
      cases isKnown : env.resolveLength left with
      | var other => exact absurd isKnown (notVar other)
      | known count =>
          refine ⟨_, Action.bind_eq_ok.mpr ⟨(), env, ?_, rfl⟩⟩
          exact congrArg (Outcome.ok ()) (noted _ _ _)

/-- Lengths that are made to agree can be made to agree in a twin, in whatever order. -/
theorem JoinsLengths.mirrored
    {scopeOf : PlaceholderId → ScopeId}
    {env final other : Environment}
    {left right : Length}
    (joins : env.JoinsLengths left right final)
    (twins : Twins scopeOf env other) :
    (∃ otherFinal, other.JoinsLengths left right otherFinal ∧ Twins scopeOf final otherFinal) ∧
      ∃ otherFinal, other.JoinsLengths right left otherFinal ∧ Twins scopeOf final otherFinal := by
  have alike :
      env.resolveLength left = env.resolveLength right ↔
        other.resolveLength left = other.resolveLength right :=
    twins.lengths.alike trivial trivial
  cases joins with
  | same same =>
      have same' := alike.mp same
      exact ⟨⟨other, .same same', twins⟩, ⟨other, .same same'.symm, twins⟩⟩
  | @left id isVar different =>
      obtain ⟨id', isVar'⟩ := (twins.lengths.isVar_iff trivial).mp ⟨id, isVar⟩
      have apart : other.resolveLength left ≠ other.resolveLength right :=
        fun same => different ((alike.mpr same).symm.trans isVar)
      have different' : other.resolveLength right ≠ .var id' := isVar' ▸ apart.symm
      have bound := twins.bindLengthBoth isVar isVar' different different'
      refine ⟨⟨_, .left isVar' different', bound⟩, ?_⟩
      cases isRight : other.resolveLength right with
      | known count => exact ⟨_, .right isVar' fun otherId => isRight ▸ nofun, bound⟩
      | var joined =>
          have different'' : other.resolveLength left ≠ .var joined := isRight ▸ apart
          exact
            ⟨_, .left isRight different'',
              twins.bindLengthAcross isVar isRight different different''⟩
  | @right id isVar notVar =>
      obtain ⟨id', isVar'⟩ := (twins.lengths.isVar_iff trivial).mp ⟨id, isVar⟩
      have isSame : other.resolveLength left = env.resolveLength left :=
        twins.lengths.eq_of_first trivial fun ⟨other, isVar⟩ => notVar other isVar
      have notVar' (otherId : LengthId) : other.resolveLength left ≠ .var otherId :=
        isSame ▸ notVar otherId
      have bound := twins.bindLengthBoth isVar isVar' (notVar id) (notVar' id')
      exact ⟨⟨_, .right isVar' notVar', bound⟩, ⟨_, .left isVar' (notVar' id'), bound⟩⟩

end Environment

end ShaderTyping
