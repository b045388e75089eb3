import ShaderTyping.Proofs.Reachable

namespace ShaderTyping

/-!
# Expanding without cycles

Expanding follows bindings and definitions within a number of steps and does not
go twice into the same definition.  If neither leads back to itself, types have a
rank that falls along them (`Ranks`), and both precautions are idle: expanding
satisfies the equations of the unbounded recursion.  Looking only at the head of a
type, now or in an earlier environment, does not change what the type expands to.
-/

namespace Environment

/-- No leaf leads back to itself through bindings and definitions. -/
def Acyclic (env : Environment) : Prop :=
  Table.Acyclic env.standsFor? fun ty leaf => leaf ∈ ty.leaves

variable {env : Environment}

/-- Declared types without references lead nowhere as long as nothing is bound. -/
theorem acyclic_of_no_references
    (unbound : ∀ id, env.binding? id = none)
    (plain : ∀ declaration ∈ env.declared.types.entries, declaration.value.references = []) :
    env.Acyclic := by
  refine .of_final fun {leaf next mentioned} found isLeaf => ?_
  cases mentioned with
  | placeholder scope id => exact unbound id
  | named scope name =>
      cases leaf with
      | placeholder leafScope id => exact absurd ((unbound id).symm.trans found) (by simp)
      | named leafScope leafName =>
          obtain ⟨⟨key, definition⟩, isDefined, rfl⟩ := Option.map_eq_some_iff.mp found
          obtain ⟨declaration, isFound, isValue⟩ :=
            Option.map_eq_some_iff.mp (local?_of_definition? isDefined)
          have noReferences := plain declaration (List.mem_of_find?_eq_some isFound)
          have isReference : (scope, name) ∈ declaration.value.references :=
            List.mem_filterMap.mpr ⟨_, isValue ▸ isLeaf, rfl⟩
          rw [noReferences] at isReference
          contradiction
      | _ => cases found
  | _ => rfl

/-! ## Ranks -/

/-- A rank of types that falls along bindings and definitions. -/
def Ranks (env : Environment) (rank : Ty → Nat) : Prop :=
  ∀ ⦃ty leaf next⦄,
    leaf ∈ ty.leaves →
    env.standsFor? leaf = some next →
    rank next < rank ty

namespace Ranks

variable {rank : Ty → Nat} {ty : Ty}

/-- The binding of a placeholder inside a type has a lower rank than the type. -/
theorem binding
    (ranks : env.Ranks rank)
    {scope : ScopeId}
    {id : PlaceholderId}
    (isLeaf : .placeholder scope id ∈ ty.leaves)
    {bound : Ty}
    (found : env.binding? id = some bound) :
    rank bound < rank ty :=
  ranks isLeaf (show env.standsFor? (.placeholder scope id) = some bound from found)

/-- The definition of a reference inside a type has a lower rank than the type. -/
theorem definition
    (ranks : env.Ranks rank)
    {scope : ScopeId}
    {name : String}
    (isLeaf : .named scope name ∈ ty.leaves)
    {key : AliasKey}
    {definition : Ty}
    (found : env.definition? scope name = some (key, definition)) :
    rank definition < rank ty :=
  ranks isLeaf (show env.standsFor? _ = some definition by simp [standsFor?, found])

end Ranks

/-- The listed declared types rank at least as high as a type. -/
def RankAbove
    (env : Environment)
    (rank : Ty → Nat)
    (listed : List AliasKey)
    (ty : Ty) : Prop :=
  ∀ ⦃scope name key definition⦄,
    env.definition? scope name = some (key, definition) →
    key ∈ listed →
    rank ty ≤ rank definition

namespace RankAbove

variable {rank : Ty → Nat} {listed : List AliasKey} {ty : Ty}

/-- A type is below an empty list of definitions. -/
theorem nil : env.RankAbove rank [] ty :=
  fun _ _ _ _ _ member => absurd member List.not_mem_nil

/-- What has no higher rank than a type is below the same definitions. -/
theorem of_le
    (above : env.RankAbove rank listed ty)
    {next : Ty}
    (isLess : rank next ≤ rank ty) :
    env.RankAbove rank listed next :=
  fun _ _ _ _ found member => isLess.trans (above found member)

variable {scope : ScopeId} {name : String} {key : AliasKey} {definition : Ty}

/-- A declared type that ranks lower is not listed. -/
theorem contains_eq_false
    (above : env.RankAbove rank listed ty)
    (found : env.definition? scope name = some (key, definition))
    (isLess : rank definition < rank ty) :
    listed.contains key = false := by
  by_contra isListed
  have isAbove := above found (by simpa using isListed)
  exact absurd isLess (Nat.not_lt.mpr isAbove)

/-- A declared type that ranks lower may be listed before its definition is entered. -/
theorem cons
    (above : env.RankAbove rank listed ty)
    (found : env.definition? scope name = some (key, definition))
    (isLess : rank definition < rank ty) :
    env.RankAbove rank (key :: listed) definition := by
  intro otherScope otherName other otherDefinition isOther member
  rcases List.mem_cons.mp member with rfl | before
  · cases definition_unique found isOther
    exact Nat.le_refl _
  · exact isLess.le.trans (above isOther before)

end RankAbove

/-- The ranks of types along bindings and definitions. -/
theorem exists_expansionRank (acyclic : env.Acyclic) :
    ∃ rank : Ty → Nat,
      (∀ ty, rank ty ≤ env.bindingCount + env.aliasCount) ∧ env.Ranks rank := by
  obtain ⟨rank, bounded, falls⟩ :=
    acyclic.exists_rank
      (Frame.values Frame.placeholders env.frames.frames ++
        env.declared.types.entries.map Declaration.value)
      (by
        intro leaf next found
        rw [List.mem_append]
        cases leaf with
        | placeholder scope id => exact Or.inl (Frame.mem_values found)
        | named scope name =>
            obtain ⟨⟨key, definition⟩, isDefined, rfl⟩ := Option.map_eq_some_iff.mp found
            obtain ⟨declaration, isFound, isValue⟩ :=
              Option.map_eq_some_iff.mp (local?_of_definition? isDefined)
            refine Or.inr (List.mem_map.mpr ⟨declaration, ?_, isValue⟩)
            exact List.mem_of_find?_eq_some isFound
        | _ => cases found)
  rw [List.length_append, Frame.length_values, List.length_map] at bounded
  exact ⟨rank, bounded, fun _ leaf _ isLeaf found => falls ⟨leaf, isLeaf, found⟩⟩

/--
Neither the steps nor the definitions around a type matter.

The definitions around a type rank at least as high as the type itself, and those
inside it rank lower, so none of them is met again.
-/
theorem expandWithin_congr
    {rank : Ty → Nat}
    (ranks : env.Ranks rank)
    {first second : Nat}
    {expanding expanding' : List AliasKey}
    {ty : Ty}
    (inFirst : rank ty < first)
    (inSecond : rank ty < second)
    (above : env.RankAbove rank expanding ty)
    (above' : env.RankAbove rank expanding' ty) :
    env.expandWithin first expanding ty = env.expandWithin second expanding' ty := by
  induction first generalizing second expanding expanding' ty with
  | zero => exact absurd inFirst (Nat.not_lt_zero _)
  | succ first inductionHypothesis =>
      obtain ⟨second, rfl⟩ : ∃ fewer, second = fewer + 1 :=
        ⟨second - 1, by omega⟩
      refine Ty.subst_congr (fun _ => rfl) fun leaf isLeaf => ?_
      cases Ty.isLeaf_of_mem_leaves isLeaf with
      | primitive kind => rfl
      | parametric scope label => rfl
      | placeholder scope id =>
          simp only [Ty.subst_placeholder]
          cases found : env.binding? id with
          | none => rfl
          | some bound =>
              have isLess := ranks.binding isLeaf found
              exact inductionHypothesis (by omega) (by omega) (above.of_le isLess.le)
                (above'.of_le isLess.le)
      | named scope name =>
          simp only [Ty.subst_named]
          cases found : env.definition? scope name with
          | none => rfl
          | some entry =>
              obtain ⟨key, definition⟩ := entry
              have isLess := ranks.definition isLeaf found
              have notFirst := above.contains_eq_false found isLess
              have notSecond := above'.contains_eq_false found isLess
              simp only [notFirst, notSecond, Bool.false_eq_true, if_false]
              exact inductionHypothesis (by omega) (by omega) (above.cons found isLess)
                (above'.cons found isLess)

/-- What expanding puts for the leaves and lengths of a type. -/
def expansion (env : Environment) : Substitution where
  named := fun scope name =>
    match env.definition? scope name with
    | some (_, definition) => env.expand definition
    | none => .named scope name
  placeholder := fun scope id =>
    match env.binding? id with
    | some bound => env.expand bound
    | none => .placeholder scope id
  parametric := .parametric
  length := env.resolveLength

/-- Expanding a type expands what its leaves stand for. -/
theorem expand_eq_subst
    (acyclic : env.Acyclic)
    (ty : Ty) :
    env.expand ty = ty.subst env.expansion := by
  obtain ⟨rank, bounded, ranks⟩ := exists_expansionRank acyclic
  have enough (ty : Ty) : rank ty < env.walkLimit := by
    have isBounded := bounded ty
    rw [walkLimit, Nat.succ_mul, Nat.mul_succ]
    omega
  have inside {expanding : List AliasKey} {part : Ty}
      (above : env.RankAbove rank expanding part) :
      env.expandWithin env.walkLimit expanding part = env.expand part :=
    expandWithin_congr ranks (enough part) (Nat.lt_succ_of_lt (enough part)) above .nil
  rw [expand, expandWithin]
  refine Ty.subst_congr (fun _ => rfl) fun leaf isLeaf => ?_
  cases Ty.isLeaf_of_mem_leaves isLeaf with
  | primitive kind => rfl
  | parametric scope label => rfl
  | placeholder scope id =>
      simp only [Ty.subst_placeholder, expansion]
      cases found : env.binding? id with
      | none => rfl
      | some bound => exact inside .nil
  | named scope name =>
      simp only [Ty.subst_named, expansion]
      cases found : env.definition? scope name with
      | none => rfl
      | some entry =>
          obtain ⟨key, definition⟩ := entry
          simp only [List.contains_nil, Bool.false_eq_true, if_false]
          exact inside (RankAbove.nil.cons found (ranks.definition isLeaf found))

/-- A leaf expands to what the type that it stands for expands to. -/
theorem expand_of_standsFor?
    (acyclic : env.Acyclic)
    {leaf next : Ty}
    (found : env.standsFor? leaf = some next) :
    env.expand leaf = env.expand next := by
  rw [expand_eq_subst acyclic leaf]
  cases leaf with
  | placeholder scope id =>
      have isBound : env.binding? id = some next := found
      simp only [Ty.subst_placeholder, expansion, isBound]
  | named scope name =>
      obtain ⟨⟨key, definition⟩, isDefined, rfl⟩ := Option.map_eq_some_iff.mp found
      simp only [Ty.subst_named, expansion, isDefined]
  | _ => cases found

section Parts

variable (acyclic : env.Acyclic)
include acyclic

/-- An array is expanded in its component and its length. -/
theorem expand_array (component : Ty) (length : Length) :
    env.expand (.array component length) =
      .array (env.expand component) (env.resolveLength length) := by
  rw [expand_eq_subst acyclic, Ty.subst_array, ← expand_eq_subst acyclic]
  rfl

/-- A function is expanded in its parameter and its result. -/
theorem expand_function (param result : Ty) :
    env.expand (.function param result) =
      .function (env.expand param) (env.expand result) := by
  rw [expand_eq_subst acyclic, Ty.subst_function, ← expand_eq_subst acyclic,
    ← expand_eq_subst acyclic]

/-- A struct is expanded field by field. -/
theorem expand_struct (fields : List (String × Ty)) :
    env.expand (.struct fields) =
      .struct (fields.map fun field => (field.1, env.expand field.2)) := by
  rw [expand_eq_subst acyclic, Ty.subst_struct]
  refine congrArg Ty.struct (List.map_congr_left fun field _ => ?_)
  rw [← expand_eq_subst acyclic]

/-- A primitive is expanded to itself. -/
theorem expand_primitive (kind : Primitive) :
    env.expand (.primitive kind) = .primitive kind := by
  rw [expand_eq_subst acyclic, Ty.subst_primitive]

end Parts

/-! ## Later environments -/

/-- What a reference stands for depends on the declarations only. -/
theorem definition?_congr
    {other : Environment}
    (same : other.declared = env.declared)
    (scope : ScopeId)
    (name : String) :
    other.definition? scope name = env.definition? scope name := by
  unfold definition?
  rw [same]

/-- What is declared and bound in an environment is so in a later one. -/
structure Grows (env later : Environment) : Prop where
  declared : later.declared = env.declared
  bindings : ∀ {id ty}, env.binding? id = some ty → later.binding? id = some ty
  lengths :
    ∀ {id length},
      env.frames.length? id = some length → later.frames.length? id = some length

namespace Grows

variable {middle later : Environment}

theorem refl (env : Environment) : Grows env env where
  declared := rfl
  bindings := fun found => found
  lengths := fun found => found

theorem trans (first : env.Grows middle) (second : middle.Grows later) : env.Grows later where
  declared := second.declared.trans first.declared
  bindings := fun found => second.bindings (first.bindings found)
  lengths := fun found => second.lengths (first.lengths found)

/-- What a leaf stands for it stands for later too. -/
theorem standsFor?
    (grows : env.Grows later)
    {leaf next : Ty}
    (found : env.standsFor? leaf = some next) :
    later.standsFor? leaf = some next := by
  cases leaf with
  | placeholder scope id => exact grows.bindings found
  | named scope name =>
      change (later.definition? scope name).map Prod.snd = some next
      rw [definition?_congr grows.declared]
      exact found
  | _ => cases found

/-- What is unbound later was unbound before. -/
theorem isBound_eq_false
    (grows : env.Grows later)
    {var : Var}
    (unbound : later.isBound var = false) :
    env.isBound var = false := by
  cases var with
  | placeholder id =>
      rw [isBound_placeholder_eq_false_iff, Option.eq_none_iff_forall_ne_some] at unbound ⊢
      exact fun bound found => unbound bound (grows.bindings found)
  | length id =>
      rw [isBound_length_eq_false_iff, Option.eq_none_iff_forall_ne_some] at unbound ⊢
      exact fun bound found => unbound bound (grows.lengths found)
  | parametric scope label => rfl

/-- Binding an unbound variable keeps all that was bound. -/
theorem of_binds
    (consistent : env.frames.Consistent)
    (step : Binds env later) :
    env.Grows later := by
  have noted (event : UnifyEvent) (left right : Operand) :
      env.Grows (env.traceUnify event left right) := by
    rw [traceUnify_eq]
    exact { refl env with }
  cases step with
  | note event left right => exact noted event left right
  | @placeholder id ty event left right unbound _ =>
      refine (noted event left right).trans
        { declared := rfl, bindings := ?_, lengths := fun found => found }
      intro other bound found
      have different : other ≠ id := by
        rintro rfl
        rw [binding?, frames_traceUnify] at found
        rw [binding?, found] at unbound
        contradiction
      change FrameStack.placeholder? (FrameStack.bindPlaceholder id ty _) other = some bound
      rw [FrameStack.placeholder?_bindPlaceholder, if_neg different]
      exact found
  | @length id first second event left right isVar _ =>
      refine (noted event left right).trans
        { declared := rfl, bindings := fun found => found, lengths := ?_ }
      intro other bound found
      have different : other ≠ id := by
        rintro rfl
        rw [frames_traceUnify, length?_of_resolveLength_eq_var consistent isVar] at found
        contradiction
      change FrameStack.length? (FrameStack.bindLength id _ _) other = some bound
      rw [FrameStack.length?_bindLength, if_neg different]
      exact found

/-- What an earlier environment follows at the head of a type expands to the same. -/
theorem expand_follow
    (grows : env.Grows later)
    (acyclic : later.Acyclic)
    (ty : Ty) :
    later.expand (env.follow ty) = later.expand ty := by
  have within (steps : Nat) (ty : Ty) :
      later.expand (env.followWithin steps ty) = later.expand ty := by
    induction steps generalizing ty with
    | zero => cases ty <;> rfl
    | succ steps inductionHypothesis =>
        cases ty with
        | placeholder scope id =>
            rw [followWithin]
            cases found : env.binding? id with
            | none => rfl
            | some bound =>
                have stands : later.standsFor? (.placeholder scope id) = some bound :=
                  grows.bindings found
                rw [expand_of_standsFor? acyclic stands]
                exact inductionHypothesis bound
        | _ => rfl
  unfold follow
  split
  · exact within _ ty
  · rfl

/-- The head of a type expands later to what the type expands to. -/
theorem expand_head
    (grows : env.Grows later)
    (acyclic : later.Acyclic)
    (ty : Ty) :
    later.expand (env.head ty) = later.expand ty := by
  have within (steps : Nat) (seen : List AliasKey) (ty : Ty) :
      later.expand (env.headWithin steps seen ty) = later.expand ty := by
    induction steps generalizing seen ty with
    | zero => exact grows.expand_follow acyclic ty
    | succ steps inductionHypothesis =>
        have followed := grows.expand_follow acyclic ty
        rw [headWithin]
        split
        · rename_i scope name isNamed
          rw [isNamed] at followed
          split
          · rename_i key definition isDefined
            split
            · exact followed
            · have stands : later.standsFor? (.named scope name) = some definition :=
                grows.standsFor? (by simp [Environment.standsFor?, isDefined])
              rw [inductionHypothesis, ← expand_of_standsFor? acyclic stands]
              exact followed
          · exact followed
        · exact followed
  exact within _ [] ty

/-- What an earlier environment follows of a length is resolved to the same. -/
theorem resolveLength_resolveLength
    (grows : env.Grows later)
    (consistent : later.frames.Consistent)
    (length : Length) :
    later.resolveLength (env.resolveLength length) = later.resolveLength length := by
  have within (steps : Nat) (length : Length) :
      later.resolveLength (env.resolveLengthWithin steps length) =
        later.resolveLength length := by
    induction steps generalizing length with
    | zero => cases length <;> rfl
    | succ steps inductionHypothesis =>
        cases length with
        | known count => rfl
        | var id =>
            rw [resolveLengthWithin]
            cases found : env.frames.length? id with
            | none => rfl
            | some bound =>
                rw [resolveLength_var consistent, grows.lengths found]
                exact inductionHypothesis bound
  cases length with
  | known count => rfl
  | var id => exact within _ _

end Grows

/-- Binding closes no cycle, because of the occurs check. -/
theorem Binds.acyclic
    {final : Environment}
    (step : Binds env final)
    (consistent : env.frames.Consistent)
    (acyclic : env.Acyclic) :
    final.Acyclic := by
  have unchanged
      {other : Environment}
      (sameDeclared : other.declared = env.declared)
      (sameBindings : ∀ id, other.binding? id = env.binding? id) :
      other.Acyclic := by
    refine Table.Acyclic.of_le acyclic fun {leaf next} found => ?_
    cases leaf with
    | placeholder scope id => exact (sameBindings id).symm.trans found
    | named scope name =>
        change (other.definition? scope name).map Prod.snd = some next at found
        rw [definition?_congr sameDeclared] at found
        exact found
    | _ => cases found
  cases step with
  | note event left right =>
      refine unchanged (declared_traceUnify event left right env) fun id => ?_
      rw [binding?, frames_traceUnify]
      rfl
  | length event left right =>
      refine unchanged (declared_traceUnify event left right env) fun other => ?_
      rw [binding?, bindLength, frames_traceUnify]
      exact FrameStack.read_write_of_eq rfl
  | @placeholder id ty event left right _ notFound =>
      refine Table.Acyclic.of_new acyclic (fun leaf => ∃ scope, leaf = .placeholder scope id)
        (· ∈ ty.leaves) ?_ ?_
      · rintro leaf target ⟨next, found, isLeaf⟩
        cases leaf with
        | placeholder scope other =>
            change FrameStack.placeholder? (FrameStack.bindPlaceholder id ty _) other =
              some next at found
            rw [frames_traceUnify, FrameStack.placeholder?_bindPlaceholder] at found
            split at found
            · rename_i same
              cases found
              exact Or.inr ⟨⟨scope, congrArg _ same⟩, isLeaf⟩
            · exact Or.inl ⟨next, found, isLeaf⟩
        | named scope name =>
            change ((env.traceUnify event left right).definition? scope name).map Prod.snd =
              some next at found
            rw [definition?_congr (declared_traceUnify event left right env)] at found
            exact Or.inl ⟨next, found, isLeaf⟩
        | _ => cases found
      · rintro mentioned _ isMentioned ⟨scope, rfl⟩ path
        exact not_reaches_of_occurs_eq_false consistent notFound scope
          ⟨mentioned, isMentioned, path⟩

/-- What unification does with bindings, one change after the other. -/
theorem grows_of_binds
    {final : Environment}
    (consistent : env.frames.Consistent)
    (steps : Relation.ReflTransGen Binds env final) :
    final.frames.Consistent ∧ env.Grows final ∧ (env.Acyclic → final.Acyclic) := by
  induction steps with
  | refl => exact ⟨consistent, .refl env, fun acyclic => acyclic⟩
  | tail _ step inductionHypothesis =>
      obtain ⟨middleConsistent, grows, middleAcyclic⟩ := inductionHypothesis
      refine ⟨step.consistent middleConsistent, ?_, fun acyclic => ?_⟩
      · exact grows.trans (.of_binds middleConsistent step)
      · exact step.acyclic middleConsistent (middleAcyclic acyclic)

end Environment

end ShaderTyping
