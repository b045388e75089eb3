import ShaderTyping.Proofs.ConcreteTypes
import ShaderTyping.Proofs.Quantification

namespace ShaderTyping

/-!
# Types of data

The types of values that are made from literals are primitives, arrays of known lengths and
structs of such types.  Resolving, generalizing and instantiating leaves these types as they
are, and what two of them agree on is of this form again.  An access to a field or to an
element unifies a type with one that has a fresh placeholder in the place in question; on data
that is a plain lookup (`Unification.within_field_yields`, `Unification.within_element_yields`).
-/

namespace Ty

/-- A type of data: a primitive, an array of a known length or a struct, nested in any way. -/
inductive Data : Ty → Prop where
  | primitive (kind : Primitive) : Data (.primitive kind)
  | array {component : Ty} (count : Nat) :
      Data component → Data (.array component (.known count))
  | struct {fields : List (String × Ty)} :
      Sorted fields →
      (∀ field ∈ fields, Data field.2) →
      Data (.struct fields)

/-- The type of a field, if a type is a struct that has it. -/
def fieldType? (label : String) : Ty → Option Ty
  | .struct fields => fields.lookup label
  | _ => none

/-- The type of the elements, if a type is an array. -/
def componentType? : Ty → Option Ty
  | .array component _ => some component
  | _ => none

/-- Structs agree on fields with labels of the first one, in its order. -/
theorem meetFields_labels
    {left right met : List (String × Ty)}
    (agreed : meetFields left right = some met) :
    (met.map Prod.fst).Sublist (left.map Prod.fst) := by
  induction left generalizing met with
  | nil =>
      cases agreed
      exact .slnil
  | cons field rest inductionHypothesis =>
      unfold meetFields at agreed
      split at agreed
      · obtain ⟨ty, _, restAgreed⟩ := Option.bind_eq_some_iff.mp agreed
        obtain ⟨others, othersMet, rfl⟩ := Option.map_eq_some_iff.mp restAgreed
        exact (inductionHypothesis othersMet).cons_cons field.1
      · exact (inductionHypothesis agreed).cons field.1

/-- Each field that structs agree on is what a field of each of them agrees on. -/
theorem exists_of_mem_meetFields
    {left right met : List (String × Ty)}
    (agreed : meetFields left right = some met) :
    ∀ field ∈ met,
      ∃ first second,
        (field.1, first) ∈ left ∧ (field.1, second) ∈ right ∧
          first.meet? second = some field.2 := by
  induction left generalizing met with
  | nil =>
      cases agreed
      exact fun _ member => absurd member List.not_mem_nil
  | cons own rest inductionHypothesis =>
      have later
          {others : List (String × Ty)}
          (othersMet : meetFields rest right = some others)
          {field : String × Ty}
          (member : field ∈ others) :
          ∃ first second,
            (field.1, first) ∈ own :: rest ∧ (field.1, second) ∈ right ∧
              first.meet? second = some field.2 := by
        obtain ⟨first, second, inRest, inRight, isMet⟩ :=
          inductionHypothesis othersMet field member
        exact ⟨first, second, List.mem_cons_of_mem _ inRest, inRight, isMet⟩
      unfold meetFields at agreed
      split at agreed
      · rename_i other found
        obtain ⟨ty, isMet, restAgreed⟩ := Option.bind_eq_some_iff.mp agreed
        obtain ⟨others, othersMet, rfl⟩ := Option.map_eq_some_iff.mp restAgreed
        rw [List.forall_mem_cons]
        refine ⟨⟨own.2, other, List.mem_cons_self, mem_of_lookup found, isMet⟩, ?_⟩
        exact fun field member => later othersMet member
      · exact fun field member => later agreed member

namespace Data

/-- A type of data is concrete. -/
theorem concrete {ty : Ty} (data : ty.Data) : ty.Concrete := by
  induction data with
  | primitive kind => exact .primitive kind
  | array count _ component => exact .array count component
  | struct _ _ fields => exact .struct fields

/-- The fields of a type of data are types of data. -/
theorem fieldType?
    {ty found : Ty}
    {label : String}
    (data : ty.Data)
    (isField : ty.fieldType? label = some found) :
    found.Data := by
  cases data with
  | struct _ each => exact each _ (mem_of_lookup isField)
  | _ => contradiction

/-- The component of a type of data is a type of data. -/
theorem componentType?
    {ty component : Ty}
    (data : ty.Data)
    (isComponent : ty.componentType? = some component) :
    component.Data := by
  cases data with
  | array count inner =>
      cases isComponent
      exact inner
  | _ => contradiction

/-- Visiting a type of data changes nothing if visiting known lengths does not. -/
theorem traverse_eq_pure
    [Monad m]
    [LawfulMonad m]
    {visitor : Visitor m}
    (keepsCounts : ∀ count, visitor.length (.known count) = pure (.known count))
    {ty : Ty}
    (data : ty.Data) :
    ty.traverse visitor = pure ty := by
  induction data with
  | primitive kind => rfl
  | array count _ inductionHypothesis =>
      simp only [traverse, inductionHypothesis, keepsCounts, pure_bind]
  | struct _ _ inductionHypothesis =>
      simp only [traverse, traverseFields_eq_pure inductionHypothesis, pure_bind]

/-- All leaves of a type of data are primitives. -/
theorem leaves_primitive
    {ty : Ty}
    (data : ty.Data) :
    ∀ leaf ∈ ty.leaves, ∃ kind, leaf = .primitive kind := by
  induction data with
  | primitive kind => simp
  | array count _ inductionHypothesis =>
      rw [leaves_array]
      exact inductionHypothesis
  | struct _ _ inductionHypothesis =>
      rw [leaves_struct, List.forall_mem_flatMap]
      exact inductionHypothesis

/-- A type of data is no placeholder. -/
theorem ne_placeholder
    {ty : Ty}
    (data : ty.Data)
    (scope : ScopeId)
    (id : PlaceholderId) :
    ty ≠ .placeholder scope id := by
  rintro rfl
  cases data

/-- A type of data has no variables. -/
theorem vars_eq_nil {ty : Ty} (data : ty.Data) : ty.vars = [] := by
  induction data with
  | primitive kind => rfl
  | array count _ inductionHypothesis =>
      rw [vars, collect_array]
      exact congrArg (· ++ []) inductionHypothesis
  | struct _ _ inductionHypothesis =>
      rw [vars, collect_struct]
      exact List.flatMap_eq_nil_iff.mpr inductionHypothesis

/-- What two types of data agree on is a type of data. -/
theorem meet?
    {left right met : Ty}
    (leftData : left.Data)
    (rightData : right.Data)
    (agreed : left.meet? right = some met) :
    met.Data := by
  induction leftData generalizing right met with
  | primitive kind =>
      cases agreeOn_of_meet? agreed with
      | same => exact rightData
      | int_float => exact rightData
      | float_int => exact .primitive .float
  | array count _ inductionHypothesis =>
      cases agreeOn_of_meet? agreed with
      | same => exact rightData
      | array _ componentAgreed =>
          cases rightData with
          | array _ component => exact .array count (inductionHypothesis component componentAgreed)
  | @struct fields sorted _ inductionHypothesis =>
      cases agreeOn_of_meet? agreed with
      | same => exact rightData
      | @struct _ fields' met fieldsAgreed _ =>
          cases rightData with
          | struct _ each' =>
              refine .struct (sorted.of_labels (meetFields_labels fieldsAgreed)) ?_
              intro field isField
              obtain ⟨first, second, inLeft, inRight, isMet⟩ :=
                exists_of_mem_meetFields fieldsAgreed field isField
              exact inductionHypothesis _ inLeft (each' _ inRight) isMet

end Data

end Ty

namespace Environment

variable {env : Environment} {ty : Ty}

/-- A type of data is resolved to itself. -/
theorem resolve_of_data (data : ty.Data) (env : Environment) : env.resolve ty = ty :=
  congrArg Id.run (data.traverse_eq_pure fun _ => rfl)

/-- A type of data is its own instance. -/
theorem instantiate_of_data (data : ty.Data) (env : Environment) :
    instantiate ty env = (ty, env) := by
  change (if (env.resolve ty).vars.any env.isQuantified then _ else pure (env.resolve ty) :
    StateM Environment Ty) env = _
  rw [resolve_of_data data, data.vars_eq_nil]
  rfl

/-- There is nothing to quantify in a type of data. -/
theorem quantifyWithin_of_data
    (data : ty.Data)
    (kept : VarSet)
    (steps : Nat)
    (expanding : List AliasKey) :
    quantifyWithin kept steps expanding ty = pure ty := by
  cases steps with
  | zero => rfl
  | succ steps => exact data.traverse_eq_pure fun _ => rfl

/-- A type of data is already general. -/
theorem generalize_of_data (data : ty.Data) (env : Environment) : generalize ty env = (ty, env) :=
  congrFun (quantifyWithin_of_data data env.monomorphic (env.walkLimit + 1) []) env

/-- Generalizing a placeholder that is bound to a type of data gives that type. -/
theorem generalize_of_bound
    {id : PlaceholderId}
    (data : ty.Data)
    (isBound : env.binding? id = some ty)
    (scope : ScopeId) :
    generalize (.placeholder scope id) env = (ty, env) := by
  change visitPlaceholder env.monomorphic env.walkLimit [] scope id env = (ty, env)
  rw [visitPlaceholder_of_bound isBound]
  exact congrFun (quantifyWithin_of_data data env.monomorphic env.walkLimit []) env

/-- A type of data is not followed. -/
theorem follow_of_data (data : ty.Data) (env : Environment) : env.follow ty = ty := by
  cases data <;> rfl

/-- No placeholder occurs in a type of data. -/
theorem occurs_of_data
    (data : ty.Data)
    (id : PlaceholderId)
    (env : Environment) :
    env.occurs id ty = false := by
  by_contra isFound
  rw [Bool.not_eq_false, occurs, Option.isNone_iff_eq_none, searchWithin_succ] at isFound
  obtain ⟨leaf, isLeaf, before, atLeaf⟩ := exists_of_foldlM_eq_none isFound
  obtain ⟨kind, rfl⟩ := data.leaves_primitive leaf isLeaf
  contradiction

/-- An unbound length variable is resolved to itself. -/
theorem resolveLength_of_unbound
    {id : LengthId}
    (unbound : env.frames.length? id = none) :
    env.resolveLength (.var id) = .var id := by
  rw [resolveLength]
  cases env.frames.lengthBindingCount with
  | zero => rfl
  | succ count => rw [resolveLengthWithin, unbound]

end Environment

/-! ## Accesses -/

namespace Ty

/-- A struct shares with a single field the field of that label. -/
theorem sharedFields_singleton
    {fields : List (String × Ty)}
    (sorted : Sorted fields)
    (label : String)
    (slot : Ty) :
    sharedFields fields [(label, slot)] =
      ((fields.lookup label).map fun ty => (label, ty, slot)).toList := by
  induction fields with
  | nil => rfl
  | cons field rest inductionHypothesis =>
      obtain ⟨firstBefore, restSorted⟩ := List.pairwise_cons.mp sorted
      obtain ⟨own, ty⟩ := field
      have restShared := inductionHypothesis restSorted
      unfold sharedFields at restShared ⊢
      rw [List.filterMap_cons, restShared]
      by_cases isLabel : own = label
      · subst isLabel
        have notLater : rest.lookup own = none := by
          rw [List.lookup_eq_none_iff]
          intro other isOther
          rw [bne_iff_ne]
          exact fun same => String.lt_irrefl _ (same ▸ firstBefore other isOther)
        simp [notLater]
      · have different : (own == label) = false := beq_eq_false_iff_ne.mpr isLabel
        have different' : (label == own) = false := beq_eq_false_iff_ne.mpr (Ne.symm isLabel)
        simp [List.lookup_cons, different, different']

end Ty

namespace Unification

open Environment (SameUntraced)
open ShaderTyping.Action (Yields)

variable {env : Environment} {ty : Ty}

/-- The environment with a new binding, apart from the trace. -/
def BindsTo (id : PlaceholderId) (ty : Ty) (env final : Environment) : Prop :=
  SameUntraced (env.bindPlaceholder id ty) final

/-- Binding a placeholder to a type of data passes the occurs check. -/
theorem bind_yields
    (data : ty.Data)
    (scope : ScopeId)
    (id : PlaceholderId)
    (env : Environment) :
    Yields (BindsTo id ty) (bind scope id ty) env (some ty) := by
  refine .bind_environment ?_
  dsimp only
  rw [Environment.follow_of_data data, if_neg (data.ne_placeholder scope id),
    Environment.occurs_of_data data, if_neg Bool.false_ne_true]
  refine .of_ok rfl ?_
  change ((env.traceUnify _ _ _).bindPlaceholder id ty).untraced = _
  unfold Environment.traceUnify
  split <;> rfl

/-- A type of data is put for a placeholder that is not bound. -/
theorem within_slot_yields
    (data : ty.Data)
    {id : PlaceholderId}
    (unbound : env.binding? id = none)
    (scope : ScopeId) :
    Yields (BindsTo id ty) (within 2 ty (.placeholder scope id)) env (some ty) := by
  have atSlot : within 1 (.placeholder scope id) ty env = bind scope id ty env := by
    change step (within 0) _ _ env = _
    unfold step
    rw [if_neg (data.ne_placeholder scope id).symm]
    dsimp only
    rw [Action.environment_bind, unbound]
  have swapped :
      within 2 ty (.placeholder scope id) env = within 1 (.placeholder scope id) ty env := by
    change step (within 1) _ _ env = _
    unfold step
    rw [if_neg (data.ne_placeholder scope id)]
    cases data <;> rfl
  exact .congr (swapped.trans atSlot) (bind_yields data scope id env)

/-- The new binding is found. -/
theorem BindsTo.binding?
    {id : PlaceholderId}
    {final : Environment}
    (binds : BindsTo id ty env final) :
    final.binding? id = some ty := by
  rw [SameUntraced.binding? binds]
  exact (FrameStack.placeholder?_bindPlaceholder id ty env.frames id).trans (if_pos rfl)

/-- Steps of unification before a binding do not matter. -/
theorem BindsTo.of_sameUntraced
    {id : PlaceholderId}
    {middle final : Environment}
    (same : SameUntraced env middle)
    (binds : BindsTo id ty middle final) :
    BindsTo id ty env final :=
  binds.trans (congrArg (Environment.bindPlaceholder id ty) same)

/-- Asking for a field of a struct puts its type for the placeholder. -/
theorem within_field_yields
    {found : Ty}
    {label : String}
    (data : ty.Data)
    (isField : ty.fieldType? label = some found)
    {id : PlaceholderId}
    (unbound : env.binding? id = none)
    (scope : ScopeId) :
    Yields (BindsTo id found) (within 3 ty (.struct [(label, .placeholder scope id)])) env
      (some (.struct [(label, found)])) := by
  cases data with
  | @struct fields sorted each =>
      have foundData := each _ (mem_of_lookup isField)
      have different : Ty.struct fields ≠ .struct [(label, .placeholder scope id)] := by
        rintro ⟨⟩
        cases each _ (List.mem_singleton_self _)
      have shared := Ty.sharedFields_singleton sorted label (.placeholder scope id)
      rw [show fields.lookup label = some found from isField] at shared
      change Yields _ (step (within 2) _ _) env _
      unfold step
      rw [if_neg different]
      change Yields _ (meet (within 2) _ _) env _
      unfold meet
      rw [shared]
      refine (note_yields _ _ _).compose_value (fun middle same => ?_) BindsTo.of_sameUntraced
      rw [← same.binding?] at unbound
      simp only [Option.map_some, Option.toList_some, List.mapM_cons, List.mapM_nil, bind_assoc,
        pure_bind]
      exact (within_slot_yields foundData unbound scope).bind_pure _
  | _ => contradiction

/-- Asking for a field that a type does not have fails. -/
theorem within_field_fails
    {label : String}
    (data : ty.Data)
    (notField : ty.fieldType? label = none)
    (scope : ScopeId)
    (id : PlaceholderId)
    (env : Environment) :
    Yields SameUntraced (within 3 ty (.struct [(label, .placeholder scope id)])) env none := by
  change Yields _ (step (within 2) _ _) env _
  unfold step
  cases data with
  | primitive kind => cases kind <;> exact mismatch_yields _ _
  | array count _ => exact mismatch_yields _ _
  | @struct fields sorted each =>
      have different : Ty.struct fields ≠ .struct [(label, .placeholder scope id)] := by
        rintro ⟨⟩
        cases each _ (List.mem_singleton_self _)
      have shared := Ty.sharedFields_singleton sorted label (.placeholder scope id)
      rw [show fields.lookup label = none from notField] at shared
      rw [if_neg different]
      change Yields _ (meet (within 2) _ _) env _
      unfold meet
      rw [shared]
      exact .after (note_yields _ _ _) fun _ _ => .bind_environment (.fail _)

/-- The environment in which a length variable has a known length, apart from the trace. -/
def BindsLength (id : LengthId) (count : Nat) (env final : Environment) : Prop :=
  SameUntraced (env.bindLength id (.known count)) final

/-- An unbound length variable is bound to a known length. -/
theorem unifyLength_slot_yields
    {lengthId : LengthId}
    (unbound : env.frames.length? lengthId = none)
    (count : Nat) :
    Yields (BindsLength lengthId count) (unifyLength (.known count) (.var lengthId)) env
      (some (.known count)) := by
  refine .bind_environment ?_
  dsimp only
  rw [Environment.resolveLength_of_unbound unbound]
  refine .of_ok rfl ?_
  change ((env.traceUnify _ _ _).bindLength lengthId (.known count)).untraced = _
  unfold Environment.traceUnify
  split <;> rfl

/-- The environment in which an element type and a length have been found, apart from the trace. -/
def BindsElement
    (id : PlaceholderId)
    (component : Ty)
    (lengthId : LengthId)
    (count : Nat)
    (env final : Environment) : Prop :=
  BindsLength lengthId count (env.bindPlaceholder id component) final

namespace BindsElement

variable {id : PlaceholderId} {lengthId : LengthId} {count : Nat} {middle final : Environment}

/-- An element is bound by binding its type and then its length. -/
theorem of_parts
    (binds : BindsTo id ty env middle)
    (bindsLength : BindsLength lengthId count middle final) :
    BindsElement id ty lengthId count env final :=
  bindsLength.trans (congrArg (Environment.bindLength lengthId (.known count)) binds)

/-- The new binding of the element is found. -/
theorem binding? (binds : BindsElement id ty lengthId count env final) :
    final.binding? id = some ty := by
  rw [SameUntraced.binding? binds]
  have isBound : BindsTo id ty env (env.bindPlaceholder id ty) := refl _
  rw [← isBound.binding?, Environment.binding?, Environment.binding?]
  exact FrameStack.read_write_of_eq rfl

/-- Steps of unification before the bindings of an element do not matter. -/
theorem of_sameUntraced
    (same : SameUntraced env middle)
    (binds : BindsElement id ty lengthId count middle final) :
    BindsElement id ty lengthId count env final :=
  binds.trans (congrArg (fun before : Environment =>
    (before.bindPlaceholder id ty).bindLength lengthId (.known count)) same)

end BindsElement

/-- Asking for an element of an array puts its type and the length for the variables. -/
theorem within_element_yields
    {component : Ty}
    (count : Nat)
    (data : component.Data)
    {id : PlaceholderId}
    {lengthId : LengthId}
    (unbound : env.binding? id = none)
    (unboundLength : env.frames.length? lengthId = none)
    (scope : ScopeId) :
    Yields (BindsElement id component lengthId count)
      (within 3 (.array component (.known count)) (.array (.placeholder scope id) (.var lengthId)))
      env
      (some (.array component (.known count))) := by
  have different :
      Ty.array component (.known count) ≠ .array (.placeholder scope id) (.var lengthId) := by
    rintro ⟨⟩
  change Yields _ (step (within 2) _ _) env _
  unfold step
  rw [if_neg different]
  refine (note_yields .splitArray _ _).compose_value (fun middle same => ?_)
    BindsElement.of_sameUntraced
  rw [← same.binding?] at unbound
  rw [← same.length?] at unboundLength
  refine (within_slot_yields data unbound scope).compose_value (fun later binds => ?_)
    BindsElement.of_parts
  have stillUnbound : later.frames.length? lengthId = none := by
    rw [SameUntraced.length? binds]
    exact (FrameStack.read_write_of_eq rfl).trans unboundLength
  exact (unifyLength_slot_yields stillUnbound count).bind_pure _

/-- Asking for an element of what is not an array fails. -/
theorem within_element_fails
    (data : ty.Data)
    (notArray : ty.componentType? = none)
    (scope : ScopeId)
    (id : PlaceholderId)
    (length : Length)
    (env : Environment) :
    Yields SameUntraced (within 3 ty (.array (.placeholder scope id) length)) env none := by
  change Yields _ (step (within 2) _ _) env _
  unfold step
  cases data with
  | primitive kind => cases kind <;> exact mismatch_yields _ _
  | array count _ => contradiction
  | struct _ _ => exact mismatch_yields _ _

end Unification

/-- What unification yields within few nested steps it yields. -/
theorem unify_yields_of_within
    {relation : Environment → Environment → Prop}
    {env : Environment}
    {steps : Nat}
    {left right : Ty}
    {expected : Option Ty}
    (few : steps ≤ Unification.usualNesting)
    (yields : Action.Yields relation (Unification.within steps left right) env expected) :
    Action.Yields relation (unify left right) env expected := by
  have answers := yields.ne_exhausted
  refine .congr ?_ yields
  have usual := Unification.within_extends few left right env answers
  unfold unify Action.orElse
  rw [usual]
  cases ended : Unification.within steps left right env with
  | ok | error => rfl
  | exhausted => exact absurd ended answers

end ShaderTyping
