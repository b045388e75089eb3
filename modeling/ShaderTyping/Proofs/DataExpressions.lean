import ShaderTyping.Proofs.DataTypes
import ShaderTyping.Proofs.Invariant

namespace ShaderTyping

/-!
# Inference of data expressions

A data expression is made from literals by arrays, structs, accesses to fields and elements,
and conditionals.  Its type is a plain recursion over the expression (`Expr.dataType?`).
Inference gets there through fresh placeholders, bindings, generalization, instantiation and a
transaction for each part, but comes to the same types and fails for the same expressions
(`infer_data_expression`).
-/

namespace Expr

/-- The identities of an expression and everything inside it. -/
def ids (expr : Expr) : List ExprId :=
  expr.nodes.map Expr.id

/-- The expressions inside an expression are itself and those inside its parts. -/
theorem ids_eq (expr : Expr) : expr.ids = expr.id :: expr.form.children.flatMap ids := by
  rw [ids, nodes_eq, List.map_cons, List.map_flatMap]
  rfl

/-- A data expression that is nested in at most a number of levels. -/
inductive DataWithin : Nat → Expr → Prop where
  | literal {levels : Nat} (site : Site) (value : Literal) :
      DataWithin (levels + 1) (.node site (.literal value))
  | array {levels : Nat} {elements : List Expr} (site : Site) :
      elements.length < Inference.lengthRange →
      (∀ element ∈ elements, DataWithin levels element) →
      DataWithin (levels + 1) (.node site (.array elements))
  | index {levels : Nat} {base position : Expr} (site : Site) :
      DataWithin levels base →
      DataWithin levels position →
      DataWithin (levels + 1) (.node site (.index base position))
  | struct {levels : Nat} {fields : List (String × Expr)} (site : Site) :
      (∀ field ∈ fields, DataWithin levels field.2) →
      DataWithin (levels + 1) (.node site (.struct fields))
  | field {levels : Nat} {base : Expr} (site : Site) (label : String) :
      DataWithin levels base →
      DataWithin (levels + 1) (.node site (.field base label))
  | conditional {levels : Nat} {condition whenTrue whenFalse : Expr} (site : Site) :
      DataWithin levels condition →
      DataWithin levels whenTrue →
      DataWithin levels whenFalse →
      DataWithin (levels + 1) (.node site (.conditional condition whenTrue whenFalse))

/-- There is no expression without a level. -/
theorem DataWithin.levels_ne_zero
    {levels : Nat}
    {expr : Expr}
    (within : expr.DataWithin levels) :
    levels ≠ 0 := by
  cases within <;> exact Nat.succ_ne_zero _

mutual

/-- The type of a data expression, if it has one. -/
def dataType? : Expr → Option Ty
  | .node _ form => formType? form
termination_by structural expr => expr

/-- The type of a data expression of the given form. -/
def formType? : Form Expr → Option Ty
  | .literal value => some (Inference.literalType value)
  | .array [] => none
  | .array (first :: rest) =>
      first.dataType?.bind fun start =>
        (agreedType? start rest).map fun component =>
          .array component (.known (rest.length + 1))
  | .index base position =>
      position.dataType?.bind fun positionType =>
        (Ty.int.meet? positionType).bind fun _ =>
          base.dataType?.bind Ty.componentType?
  | .struct fields =>
      if fields ≠ [] ∧ (fields.map Prod.fst).Nodup then
        (fieldTypes? fields).map Ty.ofFields
      else
        none
  | .field base label => base.dataType?.bind (Ty.fieldType? label)
  | .conditional condition whenTrue whenFalse =>
      condition.dataType?.bind fun conditionType =>
        if conditionType = Ty.bool then
          whenTrue.dataType?.bind fun trueType =>
            whenFalse.dataType?.bind fun falseType => trueType.meet? falseType
        else
          none
  | _ => none

/-- What a type and the types of more elements agree on, one after the other. -/
def agreedType? (component : Ty) : List Expr → Option Ty
  | [] => some component
  | element :: rest =>
      element.dataType?.bind fun ty =>
        (component.meet? ty).bind fun met => agreedType? met rest

/-- The types of the fields of a struct. -/
def fieldTypes? : List (String × Expr) → Option (List (String × Ty))
  | [] => some []
  | (label, value) :: rest =>
      value.dataType?.bind fun ty =>
        (fieldTypes? rest).map fun others => (label, ty) :: others

end

/-- What the elements of an array agree on is a type of data if theirs are. -/
theorem data_of_agreedType?
    {elements : List Expr}
    (each : ∀ element ∈ elements, ∀ ty, element.dataType? = some ty → ty.Data)
    {component met : Ty}
    (data : component.Data)
    (agreed : agreedType? component elements = some met) :
    met.Data := by
  induction elements generalizing component with
  | nil =>
      cases agreed
      exact data
  | cons element rest inductionHypothesis =>
      obtain ⟨elementData, restData⟩ := List.forall_mem_cons.mp each
      obtain ⟨ty, isType, ofType⟩ := Option.bind_eq_some_iff.mp agreed
      obtain ⟨next, isNext, ofNext⟩ := Option.bind_eq_some_iff.mp ofType
      exact inductionHypothesis restData (data.meet? (elementData ty isType) isNext) ofNext

/-- The fields of a struct are of types of data if their expressions are. -/
theorem data_of_fieldTypes?
    {fields : List (String × Expr)}
    (each : ∀ field ∈ fields, ∀ ty, field.2.dataType? = some ty → ty.Data)
    {typed : List (String × Ty)}
    (isTyped : fieldTypes? fields = some typed) :
    ∀ field ∈ typed, field.2.Data := by
  induction fields generalizing typed with
  | nil =>
      cases isTyped
      exact fun _ member => absurd member List.not_mem_nil
  | cons field rest inductionHypothesis =>
      obtain ⟨fieldData, restData⟩ := List.forall_mem_cons.mp each
      obtain ⟨ty, isType, ofType⟩ := Option.bind_eq_some_iff.mp isTyped
      obtain ⟨others, isOthers, rfl⟩ := Option.map_eq_some_iff.mp ofType
      exact List.forall_mem_cons.mpr
        ⟨fieldData ty isType, inductionHypothesis restData isOthers⟩

/-- Data expressions have types of data. -/
theorem DataWithin.data_of_dataType?
    {levels : Nat}
    {expr : Expr}
    (within : expr.DataWithin levels) :
    ∀ ty, expr.dataType? = some ty → ty.Data := by
  induction within with
  | literal site value =>
      rintro _ ⟨⟩
      cases value <;> exact .primitive _
  | @array _ elements site countable _ inductionHypothesis =>
      intro ty isType
      cases elements with
      | nil => contradiction
      | cons first rest =>
          obtain ⟨firstData, restData⟩ := List.forall_mem_cons.mp inductionHypothesis
          obtain ⟨start, isStart, ofStart⟩ := Option.bind_eq_some_iff.mp isType
          obtain ⟨component, agreed, rfl⟩ := Option.map_eq_some_iff.mp ofStart
          exact .array _ (data_of_agreedType? restData (firstData start isStart) agreed)
  | index site _ _ baseData _ =>
      intro ty isType
      obtain ⟨_, _, ofPosition⟩ := Option.bind_eq_some_iff.mp isType
      obtain ⟨_, _, ofInt⟩ := Option.bind_eq_some_iff.mp ofPosition
      obtain ⟨baseType, isBase, isComponent⟩ := Option.bind_eq_some_iff.mp ofInt
      exact (baseData baseType isBase).componentType? isComponent
  | @struct _ fields site _ inductionHypothesis =>
      intro ty isType
      change (if fields ≠ [] ∧ (fields.map Prod.fst).Nodup then
        (fieldTypes? fields).map Ty.ofFields else none) = some ty at isType
      split at isType
      · obtain ⟨typed, isTyped, rfl⟩ := Option.map_eq_some_iff.mp isType
        refine .struct (Ty.sortFields_sorted typed) fun field isField => ?_
        exact data_of_fieldTypes? inductionHypothesis isTyped field
          (Ty.mem_of_mem_sortFields field isField)
      · contradiction
  | field site label _ baseData =>
      intro ty isType
      obtain ⟨baseType, isBase, isField⟩ := Option.bind_eq_some_iff.mp isType
      exact (baseData baseType isBase).fieldType? isField
  | conditional site _ _ _ _ trueData falseData =>
      intro ty isType
      obtain ⟨conditionType, _, ofCondition⟩ := Option.bind_eq_some_iff.mp isType
      split at ofCondition
      · obtain ⟨trueType, isTrue, ofTrue⟩ := Option.bind_eq_some_iff.mp ofCondition
        obtain ⟨falseType, isFalse, agreed⟩ := Option.bind_eq_some_iff.mp ofTrue
        exact (trueData trueType isTrue).meet? (falseData falseType isFalse) agreed
      · contradiction

end Expr

/-! ## What inference leaves -/

namespace Environment

/-- No variable is bound that is yet to be made. -/
structure FreshUnbound (env : Environment) : Prop where
  placeholders :
    ∀ id : PlaceholderId, env.fresh.placeholder ≤ id.number → env.binding? id = none
  lengths : ∀ id : LengthId, env.fresh.length ≤ id.number → env.frames.length? id = none

/-- Types were recorded for some expressions at most; nothing else has changed that counts here. -/
structure Records (ids : List ExprId) (env final : Environment) : Prop where
  inferred : ∀ id, id ∉ ids → final.frames.inferred? id = env.frames.inferred? id
  freshUnbound : env.FreshUnbound → final.FreshUnbound
  depth : final.context.depth = env.context.depth
  maxDepth : final.options.maxDepth = env.options.maxDepth

namespace Records

variable {env middle final : Environment} {ids others : List ExprId}

theorem refl (env : Environment) : Records [] env env where
  inferred _ _ := rfl
  freshUnbound unbound := unbound
  depth := rfl
  maxDepth := rfl

theorem trans
    (first : Records ids env middle)
    (second : Records others middle final) :
    Records (ids ++ others) env final where
  inferred id notListed := by
    rw [List.mem_append, not_or] at notListed
    rw [second.inferred id notListed.2, first.inferred id notListed.1]
  freshUnbound unbound := second.freshUnbound (first.freshUnbound unbound)
  depth := second.depth.trans first.depth
  maxDepth := second.maxDepth.trans first.maxDepth

/-- What is recorded of some expressions is recorded of more. -/
theorem mono
    (records : Records ids env final)
    (listed : ids ⊆ others) :
    Records others env final where
  inferred id notListed := records.inferred id fun member => notListed (listed member)
  freshUnbound := records.freshUnbound
  depth := records.depth
  maxDepth := records.maxDepth

/-- Nothing is recorded afterwards. -/
theorem trans_nil
    (first : Records ids env middle)
    (second : Records [] middle final) :
    Records ids env final :=
  List.append_nil ids ▸ first.trans second

/-- What differs in the trace at most records nothing. -/
theorem of_sameUntraced (same : SameUntraced env final) : Records [] env final where
  inferred id _ := by rw [same.frames]
  freshUnbound unbound := by
    constructor
    · rw [same.fresh]
      intro id isFresh
      rw [same.binding?]
      exact unbound.placeholders id isFresh
    · rw [same.fresh, same.frames]
      exact unbound.lengths
  depth := by rw [same.context]
  maxDepth := same.maxDepth

/-- A new frame records nothing. -/
theorem push (env : Environment) : Records [] env env.push where
  inferred id _ := FrameStack.inferred?_push env.frames id
  freshUnbound unbound :=
    { placeholders := fun id isFresh =>
        (FrameStack.placeholder?_push env.frames id).trans (unbound.placeholders id isFresh)
      lengths := fun id isFresh =>
        (FrameStack.length?_push env.frames id).trans (unbound.lengths id isFresh) }
  depth := rfl
  maxDepth := rfl

/-- A commit keeps what is recorded. -/
theorem commit (env : Environment) : Records [] env (env.finish true) := by
  rw [finish_eq]
  exact
    { inferred := fun id _ => FrameStack.inferred?_finish_true env.frames id
      freshUnbound := fun unbound =>
        { placeholders := fun id isFresh =>
            (FrameStack.placeholder?_finish_true env.frames id).trans
              (unbound.placeholders id isFresh)
          lengths := fun id isFresh =>
            (FrameStack.length?_finish_true env.frames id).trans (unbound.lengths id isFresh) }
      depth := rfl
      maxDepth := rfl }

/-- Recording the type of an expression. -/
theorem of_recordInferred (env : Environment) (id : ExprId) (ty : Ty) :
    Records [id] env (env.recordInferred id ty) where
  inferred other notListed := by
    rw [recordInferred, FrameStack.inferred?_recordInferred, if_neg]
    exact fun same => notListed (List.mem_singleton.mpr same)
  freshUnbound unbound := by
    refine ⟨fun id isFresh => ?_, fun id isFresh => ?_⟩
    · rw [← unbound.placeholders id isFresh, binding?, binding?]
      exact FrameStack.read_write_of_eq rfl
    · rw [← unbound.lengths id isFresh]
      exact FrameStack.read_write_of_eq rfl
  depth := rfl
  maxDepth := rfl

/-- What is recorded one level deeper. -/
theorem of_deeper
    {inner : Environment}
    (records : Records ids { env with context.depth := env.context.depth + 1 } inner) :
    Records ids env { inner with context.depth := inner.context.depth - 1 } where
  inferred := records.inferred
  freshUnbound unbound :=
    let unbound := records.freshUnbound ⟨unbound.placeholders, unbound.lengths⟩
    ⟨unbound.placeholders, unbound.lengths⟩
  depth := Nat.sub_eq_of_eq_add records.depth
  maxDepth := records.maxDepth

/-- A new placeholder and its binding record no types of expressions. -/
theorem of_boundPlaceholder (env : Environment) (scope : ScopeId) (ty : Ty) :
    Records [] env
      ((freshPlaceholder scope env).2.bindPlaceholder ⟨env.fresh.placeholder⟩ ty) where
  inferred id _ := FrameStack.read_write_of_eq rfl
  freshUnbound unbound := by
    refine ⟨fun id isFresh => ?_, fun id isFresh => ?_⟩
    · have isLater : env.fresh.placeholder < id.number := isFresh
      rw [binding?, bindPlaceholder, FrameStack.placeholder?_bindPlaceholder, if_neg]
      · exact unbound.placeholders id isLater.le
      · rintro rfl
        exact Nat.lt_irrefl _ isLater
    · rw [← unbound.lengths id isFresh]
      exact FrameStack.read_write_of_eq rfl
  depth := rfl
  maxDepth := rfl

/-- A new length variable and its binding record no types of expressions. -/
theorem of_boundLength (env : Environment) (length : Length) :
    Records [] env ((freshLength env).2.bindLength ⟨env.fresh.length⟩ length) where
  inferred id _ := FrameStack.read_write_of_eq rfl
  freshUnbound unbound := by
    refine ⟨fun id isFresh => ?_, fun id isFresh => ?_⟩
    · rw [← unbound.placeholders id isFresh, binding?, binding?]
      exact FrameStack.read_write_of_eq rfl
    · have isLater : env.fresh.length < id.number := isFresh
      rw [bindLength, FrameStack.length?_bindLength, if_neg]
      · exact unbound.lengths id isLater.le
      · rintro rfl
        exact Nat.lt_irrefl _ isLater
  depth := rfl
  maxDepth := rfl

end Records

/-- The environment is ready to infer some expressions that are nested in a number of levels. -/
structure Ready (levels : Nat) (ids : List ExprId) (env : Environment) : Prop where
  distinct : ids.Nodup
  uncached : ∀ id ∈ ids, env.frames.inferred? id = none
  freshUnbound : env.FreshUnbound
  room : env.context.depth + levels = env.options.maxDepth

namespace Ready

variable {env middle : Environment} {levels : Nat} {ids others : List ExprId}

/-- The order of the expressions does not matter for being ready. -/
theorem perm
    (ready : env.Ready levels ids)
    (permuted : ids.Perm others) :
    env.Ready levels others where
  distinct := permuted.nodup_iff.mp ready.distinct
  uncached id member := ready.uncached id (permuted.mem_iff.mpr member)
  freshUnbound := ready.freshUnbound
  room := ready.room

/-- What is ready for some expressions and others is ready for the former. -/
theorem first (ready : env.Ready levels (ids ++ others)) : env.Ready levels ids where
  distinct := (List.nodup_append.mp ready.distinct).1
  uncached id member := ready.uncached id (List.mem_append_left _ member)
  freshUnbound := ready.freshUnbound
  room := ready.room

/-- A new frame is as ready as the one below it. -/
theorem push (ready : env.Ready levels ids) : env.push.Ready levels ids where
  distinct := ready.distinct
  uncached id isListed :=
    (FrameStack.inferred?_push env.frames id).trans (ready.uncached id isListed)
  freshUnbound := (Records.push env).freshUnbound ready.freshUnbound
  room := ready.room

/-- One level deeper there is room for one level less. -/
theorem deeper (ready : env.Ready (levels + 1) ids) :
    Ready levels ids { env with context.depth := env.context.depth + 1 } where
  distinct := ready.distinct
  uncached := ready.uncached
  freshUnbound := ⟨ready.freshUnbound.placeholders, ready.freshUnbound.lengths⟩
  room := (Nat.succ_add_eq_add_succ _ _).trans ready.room

/-- After some expressions have been inferred the environment is ready for the others. -/
theorem rest
    (ready : env.Ready levels (ids ++ others))
    (records : env.Records ids middle) :
    middle.Ready levels others where
  distinct := (List.nodup_append.mp ready.distinct).2.1
  uncached id member := by
    have notFirst : id ∉ ids := fun inFirst =>
      (List.nodup_append.mp ready.distinct).2.2 id inFirst id member rfl
    rw [records.inferred id notFirst]
    exact ready.uncached id (List.mem_append_right _ member)
  freshUnbound := records.freshUnbound ready.freshUnbound
  room := by rw [records.depth, records.maxDepth, ready.room]

end Ready

end Environment

/-! ## The rules -/

namespace Inference

open Environment (Records Ready SameUntraced)
open ShaderTyping.Action (Yields bind_eq_ok bind_eq_error mapError_eq_ok mapError_eq_error)

variable {env : Environment} {levels : Nat} {infer : Infer}

/-- An action that cannot fail succeeds with what it computes. -/
theorem lift_eq_ok
    {run : StateM Environment α}
    {value : α}
    {final : Environment}
    (ran : run env = (value, final)) :
    (liftM run : Action ε α) env = .ok value final :=
  congrArg (fun result : α × Environment => Outcome.ok result.1 result.2) ran

/-- What follows an action that cannot fail goes on with what it computes. -/
theorem lift_bind
    {run : StateM Environment α}
    {value : α}
    {final : Environment}
    (ran : run env = (value, final))
    (next : α → Action ε β) :
    ((liftM run : Action ε α) >>= next) env = next value final :=
  congrArg (fun result : α × Environment => next result.1 result.2) ran

/-- Two actions that record types record the types of both. -/
theorem yields_bind
    {ids others : List ExprId}
    {first : Action ε α}
    {next : α → Action ε β}
    {expected : Option α}
    {results : α → Option β}
    (firstYields : Yields (Records ids) first env expected)
    (nextYields :
      ∀ value middle,
        expected = some value →
        env.Records ids middle →
        Yields (Records others) (next value) middle (results value)) :
    Yields (Records (ids ++ others)) (first >>= next) env (expected.bind results) :=
  firstYields.compose nextYields Records.trans

/-- An action that records no types leaves it to the next one to record some. -/
theorem silent_yields_bind
    {ids : List ExprId}
    {first : Action ε α}
    {next : α → Action ε β}
    {expected : Option α}
    {results : α → Option β}
    (firstYields : Yields (Records []) first env expected)
    (nextYields :
      ∀ value middle,
        expected = some value →
        env.Records [] middle →
        Yields (Records ids) (next value) middle (results value)) :
    Yields (Records ids) (first >>= next) env (expected.bind results) :=
  yields_bind firstYields nextYields

/-- At an expression, types of data are unified to what they agree on, and nothing is recorded. -/
theorem blame_unify_yields
    {left right : Ty}
    (leftData : left.Data)
    (rightData : right.Data)
    (expr : Expr)
    (env : Environment) :
    Yields (Records []) (blame expr (unify left right)) env (left.meet? right) :=
  ((unify_yields leftData.concrete rightData.concrete env).mapError _).imp
    fun _ => Records.of_sameUntraced

/-- What a new placeholder is bound to in an access is what the access comes to. -/
theorem slot_yields
    {relation : Environment → Environment → Prop}
    {ty target met found : Ty}
    {id : PlaceholderId}
    (unified : Yields relation (unify ty target) env (some met))
    (data : found.Data)
    (binds : ∀ final, relation env final → final.binding? id = some found)
    (expr : Expr)
    (scope : ScopeId) :
    Yields relation
      (do
        let _ ← blame expr (unify ty target)
        Environment.generalize (.placeholder scope id))
      env
      (some found) := by
  obtain ⟨final, ended, related⟩ := unified
  have generalized := Environment.generalize_of_bound data (binds final related) scope
  have blamed : blame expr (unify ty target) env = .ok met final := mapError_eq_ok.mpr ended
  exact ⟨final, bind_eq_ok.mpr ⟨met, final, blamed, lift_eq_ok generalized⟩, related⟩

/-- Where a type does not have the wanted form, what would be found in it is not found. -/
theorem slot_fails
    {relation : Environment → Environment → Prop}
    {ty target slot : Ty}
    (failed : Yields relation (unify ty target) env none)
    (expr : Expr) :
    Yields relation
      (do
        let _ ← blame expr (unify ty target)
        Environment.generalize slot)
      env
      none := by
  obtain ⟨cause, final, isError⟩ := failed
  exact ⟨_, final, bind_eq_error.mpr (.inl (mapError_eq_error.mpr ⟨cause, isError, rfl⟩))⟩

/-- Asking a type of data for a field finds what is there. -/
theorem fieldAccess_yields
    {ty : Ty}
    (data : ty.Data)
    (unbound : env.FreshUnbound)
    (expr : Expr)
    (scope : ScopeId)
    (label : String) :
    Yields (Records [])
      (do
        let slot ← Environment.freshPlaceholder scope
        let _ ← blame expr (unify ty (.struct [(label, slot)]))
        Environment.generalize slot)
      env
      (ty.fieldType? label) := by
  let taken := (Environment.freshPlaceholder scope env).2
  have slotUnbound : taken.binding? ⟨env.fresh.placeholder⟩ = none :=
    unbound.placeholders _ le_rfl
  cases isField : ty.fieldType? label with
  | none =>
      have failed := unify_yields_of_within (by decide)
        (Unification.within_field_fails data isField scope ⟨env.fresh.placeholder⟩ taken)
      exact slot_fails failed expr
  | some found =>
      have unified := unify_yields_of_within (by decide)
        (Unification.within_field_yields data isField slotUnbound scope)
      obtain ⟨final, ended, binds⟩ :=
        slot_yields unified (data.fieldType? isField) (fun _ => Unification.BindsTo.binding?)
          expr scope
      have records := Records.of_boundPlaceholder env scope found
      exact ⟨final, ended, records.trans_nil (.of_sameUntraced binds)⟩

/-- Asking a type of data for an element finds what is there. -/
theorem elementAccess_yields
    {ty : Ty}
    (data : ty.Data)
    (unbound : env.FreshUnbound)
    (expr : Expr)
    (scope : ScopeId) :
    Yields (Records [])
      (do
        let component ← Environment.freshPlaceholder scope
        let length ← Environment.freshLength
        let _ ← blame expr (unify ty (.array component length))
        Environment.generalize component)
      env
      ty.componentType? := by
  let taken := (Environment.freshLength (Environment.freshPlaceholder scope env).2).2
  have slotUnbound : taken.binding? ⟨env.fresh.placeholder⟩ = none :=
    unbound.placeholders _ le_rfl
  have lengthUnbound : taken.frames.length? ⟨env.fresh.length⟩ = none :=
    unbound.lengths _ le_rfl
  cases isComponent : ty.componentType? with
  | none =>
      have failed := unify_yields_of_within (by decide)
        (Unification.within_element_fails data isComponent scope ⟨env.fresh.placeholder⟩
          (.var ⟨env.fresh.length⟩) taken)
      exact slot_fails failed expr
  | some component =>
      have componentData := data.componentType? isComponent
      cases data with
      | array count _ =>
          cases isComponent
          have unified := unify_yields_of_within (by decide)
            (Unification.within_element_yields count componentData slotUnbound lengthUnbound scope)
          obtain ⟨final, ended, binds⟩ :=
            slot_yields unified componentData (fun _ => Unification.BindsElement.binding?)
              expr scope
          have records :=
            (Records.of_boundPlaceholder env scope component).trans_nil
              (.of_boundLength _ (.known count))
          exact ⟨final, ended, records.trans_nil (.of_sameUntraced binds)⟩
      | _ => contradiction

/-- No label is repeated exactly if all are different and none was seen before. -/
theorem repeatedLabel?_eq_none_iff {seen labels : List String} :
    repeatedLabel? seen labels = none ↔ labels.Nodup ∧ ∀ label ∈ labels, label ∉ seen := by
  induction labels generalizing seen with
  | nil => simp [repeatedLabel?]
  | cons label rest inductionHypothesis =>
      unfold repeatedLabel?
      by_cases isSeen : label ∈ seen
      · simp [isSeen]
      · rw [if_neg (by simpa using isSeen), inductionHypothesis, List.nodup_cons]
        simp only [List.mem_cons, not_or, forall_eq_or_imp]
        constructor
        · rintro ⟨distinct, unseen⟩
          refine ⟨⟨fun inRest => (unseen label inRest).1 rfl, distinct⟩, isSeen, ?_⟩
          exact fun other isOther => (unseen other isOther).2
        · rintro ⟨⟨notInRest, distinct⟩, _, unseen⟩
          refine ⟨distinct, fun other isOther => ⟨?_, unseen other isOther⟩⟩
          rintro rfl
          exact notInRest isOther

/-- The type of an expression is inferred as the plain recursion says. -/
structure InfersData (infer : Infer) (levels : Nat) (expr : Expr) : Prop where
  data : ∀ {ty}, expr.dataType? = some ty → ty.Data
  yields :
    ∀ {env}, env.Ready levels expr.ids → Yields (Records expr.ids) (infer expr) env expr.dataType?

/-- A fresh instance of a type of data is that type. -/
theorem inferInstance_yields
    {expr : Expr}
    (infers : InfersData infer levels expr)
    (ready : env.Ready levels expr.ids) :
    Yields (Records expr.ids) (inferInstance infer expr) env expr.dataType? := by
  have yields :
      Yields (Records expr.ids) (inferInstance infer expr) env (expr.dataType?.map id) := by
    refine (infers.yields ready).bind_of_ok fun ty middle isType _ => ?_
    have kept := Environment.instantiate_of_data (infers.data isType) middle
    exact lift_eq_ok kept
  rwa [Option.map_id] at yields

/-- One element after the other is met with those before. -/
theorem elements_yield
    {component : Ty}
    {elements : List Expr}
    (infers : ∀ element ∈ elements, InfersData infer levels element)
    (data : component.Data)
    (ready : env.Ready levels (elements.flatMap Expr.ids)) :
    Yields (Records (elements.flatMap Expr.ids))
      (elements.foldlM (fun component element => do
        let ty ← inferInstance infer element
        blame element (unify component ty)) component)
      env
      (Expr.agreedType? component elements) := by
  induction elements generalizing component env with
  | nil => exact ⟨env, rfl, .refl env⟩
  | cons element rest inductionHypothesis =>
      obtain ⟨elementInfers, restInfer⟩ := List.forall_mem_cons.mp infers
      have agreed :
          Expr.agreedType? component (element :: rest) =
            (element.dataType?.bind component.meet?).bind fun met =>
              Expr.agreedType? met rest := by
        rw [Expr.agreedType?, Option.bind_assoc]
      rw [List.flatMap_cons] at ready ⊢
      rw [List.foldlM_cons, agreed]
      have metYields :=
        (inferInstance_yields elementInfers ready.first).compose
          (fun ty middle isType _ =>
            blame_unify_yields data (elementInfers.data isType) element middle)
          Records.trans_nil
      refine yields_bind metYields fun met middle isMet records => ?_
      obtain ⟨ty, isType, isMet⟩ := Option.bind_eq_some_iff.mp isMet
      exact inductionHypothesis restInfer (data.meet? (elementInfers.data isType) isMet)
        (ready.rest records)

/-- The fields of a struct are inferred one after the other. -/
theorem fields_yield
    {fields : List (String × Expr)}
    (infers : ∀ field ∈ fields, InfersData infer levels field.2)
    (ready : env.Ready levels ((fields.map Prod.snd).flatMap Expr.ids)) :
    Yields (Records ((fields.map Prod.snd).flatMap Expr.ids))
      (fields.mapM fun (label, value) => do
        let ty ← inferInstance infer value
        let ty ← Environment.generalize ty
        pure (label, ty))
      env
      (Expr.fieldTypes? fields) := by
  induction fields generalizing env with
  | nil => exact ⟨env, rfl, .refl env⟩
  | cons field rest inductionHypothesis =>
      obtain ⟨label, value⟩ := field
      obtain ⟨valueInfers, restInfer⟩ := List.forall_mem_cons.mp infers
      have typed :
          Expr.fieldTypes? ((label, value) :: rest) =
            (value.dataType?.map fun ty => (label, ty)).bind fun field =>
              (Expr.fieldTypes? rest).map fun others => field :: others := by
        rw [Expr.fieldTypes?, Option.bind_map]
        rfl
      rw [List.map_cons, List.flatMap_cons] at ready ⊢
      rw [List.mapM_cons, typed]
      refine yields_bind ?_ fun field middle _ records => ?_
      · have yields := inferInstance_yields valueInfers ready.first
        refine yields.bind_of_ok fun ty middle isType _ => ?_
        have kept := Environment.generalize_of_data (valueInfers.data isType) middle
        exact lift_bind kept _
      · exact (inductionHypothesis restInfer (ready.rest records)).bind_pure _

/-- The rule of arrays gives the type that the elements agree on. -/
theorem inferArray_yields
    {elements : List Expr}
    (infers : ∀ element ∈ elements, InfersData infer levels element)
    (countable : elements.length < lengthRange)
    (ready : env.Ready levels (elements.flatMap Expr.ids))
    (expr : Expr) :
    Yields (Records (elements.flatMap Expr.ids)) (inferArray infer expr elements) env
      (Expr.formType? (.array elements)) := by
  cases elements with
  | nil => exact .fail _
  | cons first rest =>
      obtain ⟨firstInfers, restInfer⟩ := List.forall_mem_cons.mp infers
      rw [List.flatMap_cons] at ready ⊢
      have counted : lengthOfCount (rest.length + 1) = .known (rest.length + 1) :=
        congrArg Length.known (Nat.mod_eq_of_lt countable)
      refine yields_bind (inferInstance_yields firstInfers ready.first)
        fun start middle isStart records => ?_
      have startData := firstInfers.data isStart
      refine (elements_yield restInfer startData (ready.rest records)).bind_of_ok
        fun component later agreed _ => ?_
      have componentData :=
        Expr.data_of_agreedType? (fun element isElement _ => (restInfer element isElement).data)
          startData agreed
      have kept := Environment.generalize_of_data componentData later
      rw [← counted]
      exact lift_bind kept _

/-- The rule of accesses gives the component, if the position is an `int`. -/
theorem inferIndex_yields
    {base position : Expr}
    (baseInfers : InfersData infer levels base)
    (positionInfers : InfersData infer levels position)
    (ready : env.Ready levels ([base, position].flatMap Expr.ids))
    (expr : Expr) :
    Yields (Records ([base, position].flatMap Expr.ids)) (inferIndex infer expr base position) env
      (Expr.formType? (.index base position)) := by
  -- The position is inferred first.
  have swapped :
      ([base, position].flatMap Expr.ids).Perm ([position, base].flatMap Expr.ids) :=
    (List.Perm.swap position base []).flatMap_right Expr.ids
  have ready : env.Ready levels (position.ids ++ (base.ids ++ [])) := ready.perm swapped
  have yields :
      Yields (Records ([position, base].flatMap Expr.ids))
        (inferIndex infer expr base position) env (Expr.formType? (.index base position)) := by
    refine yields_bind (inferInstance_yields positionInfers ready.first)
      fun positionType middle isPosition records => ?_
    refine silent_yields_bind
      (blame_unify_yields (.primitive .int) (positionInfers.data isPosition) _ _)
      fun _ later _ noted => ?_
    have baseReady := ready.rest (records.trans_nil noted)
    refine yields_bind (inferInstance_yields baseInfers baseReady.first)
      fun baseType last isBase found => ?_
    have unbound := found.freshUnbound baseReady.freshUnbound
    exact elementAccess_yields (baseInfers.data isBase) unbound _ _
  exact yields.imp fun final records => records.mono swapped.symm.subset

/-- The rule of structs gives the sorted fields, if no label is repeated. -/
theorem inferStruct_yields
    {fields : List (String × Expr)}
    (infers : ∀ field ∈ fields, InfersData infer levels field.2)
    (ready : env.Ready levels ((fields.map Prod.snd).flatMap Expr.ids))
    (expr : Expr) :
    Yields (Records ((fields.map Prod.snd).flatMap Expr.ids)) (inferStruct infer expr fields) env
      (Expr.formType? (.struct fields)) := by
  unfold inferStruct Expr.formType?
  by_cases isEmpty : fields = []
  · subst isEmpty
    exact .fail _
  · rw [if_neg (by simpa using isEmpty)]
    cases repeated : repeatedLabel? [] (fields.map Prod.fst) with
    | some label =>
        have notDistinct : ¬ (fields ≠ [] ∧ (fields.map Prod.fst).Nodup) := by
          rintro ⟨_, distinct⟩
          have unrepeated := repeatedLabel?_eq_none_iff.mpr ⟨distinct, fun _ _ => List.not_mem_nil⟩
          cases repeated.symm.trans unrepeated
        rw [if_neg notDistinct]
        exact .fail _
    | none =>
        rw [if_pos ⟨isEmpty, (repeatedLabel?_eq_none_iff.mp repeated).1⟩]
        exact (fields_yield infers ready).bind_pure Ty.ofFields

/-- The rule of field accesses gives the type of the field, if there is one. -/
theorem inferField_yields
    {base : Expr}
    (infers : InfersData infer levels base)
    (ready : env.Ready levels ([base].flatMap Expr.ids))
    (expr : Expr)
    (label : String) :
    Yields (Records ([base].flatMap Expr.ids)) (inferField infer expr base label) env
      (Expr.formType? (.field base label)) := by
  have ready : env.Ready levels (base.ids ++ []) := ready
  refine yields_bind (inferInstance_yields infers ready.first)
    fun baseType middle isBase records => ?_
  exact fieldAccess_yields (infers.data isBase) (records.freshUnbound ready.freshUnbound) _ _ _

/-- Only `bool` agrees with `bool`. -/
theorem bool_meet? (ty : Ty) : Ty.bool.meet? ty = if ty = Ty.bool then some Ty.bool else none := by
  by_cases isBool : ty = Ty.bool
  · rw [if_pos isBool, isBool, Ty.meet?_self]
  · rw [if_neg isBool]
    cases agreed : Ty.bool.meet? ty with
    | none => rfl
    | some met =>
        cases Ty.agreeOn_of_meet? agreed with
        | same => exact absurd rfl isBool

/-- The rule of conditionals gives what both branches agree on, if the condition is a `bool`. -/
theorem inferConditional_yields
    {condition whenTrue whenFalse : Expr}
    (conditionInfers : InfersData infer levels condition)
    (trueInfers : InfersData infer levels whenTrue)
    (falseInfers : InfersData infer levels whenFalse)
    (ready : env.Ready levels ([condition, whenTrue, whenFalse].flatMap Expr.ids)) :
    Yields (Records ([condition, whenTrue, whenFalse].flatMap Expr.ids))
      (inferConditional infer condition whenTrue whenFalse) env
      (Expr.formType? (.conditional condition whenTrue whenFalse)) := by
  have asMeet :
      Expr.formType? (.conditional condition whenTrue whenFalse) =
        condition.dataType?.bind fun conditionType =>
          (Ty.bool.meet? conditionType).bind fun _ =>
            whenTrue.dataType?.bind fun trueType =>
              whenFalse.dataType?.bind fun falseType =>
                (trueType.meet? falseType).map id := by
    unfold Expr.formType?
    refine congrArg (Option.bind _) (funext fun conditionType => ?_)
    rw [bool_meet?]
    split
    · simp
    · rfl
  have ready : env.Ready levels (condition.ids ++ (whenTrue.ids ++ (whenFalse.ids ++ []))) :=
    ready
  rw [asMeet]
  refine yields_bind (inferInstance_yields conditionInfers ready.first)
    fun conditionType middle isCondition records => ?_
  refine silent_yields_bind
    (blame_unify_yields (.primitive .bool) (conditionInfers.data isCondition) _ _)
    fun _ later _ noted => ?_
  have branchesReady := ready.rest (records.trans_nil noted)
  refine yields_bind (inferInstance_yields trueInfers branchesReady.first)
    fun trueType afterTrue isTrue trueRecords => ?_
  refine yields_bind (inferInstance_yields falseInfers (branchesReady.rest trueRecords).first)
    fun falseType afterFalse isFalse _ => ?_
  have trueData := trueInfers.data isTrue
  have falseData := falseInfers.data isFalse
  refine (blame_unify_yields trueData falseData _ _).bind_of_ok fun met last agreed _ => ?_
  have kept := Environment.generalize_of_data (trueData.meet? falseData agreed) last
  exact lift_eq_ok kept

/-- Each rule infers the type of a data expression from the types of its parts. -/
theorem inferForm_yields
    {expr : Expr}
    (data : expr.DataWithin (levels + 1))
    (parts : ∀ child : Expr, child.DataWithin levels → InfersData infer levels child) :
    ∃ rule : InferRule, ∀ {env : Environment},
      env.Ready levels (expr.form.children.flatMap Expr.ids) →
      Yields (Records (expr.form.children.flatMap Expr.ids)) (inferForm infer expr) env
        (expr.dataType?.map fun ty => (rule, ty)) := by
  cases data with
  | literal site value => exact ⟨.literal, fun _ => ⟨_, rfl, .refl _⟩⟩
  | @array _ elements site countable each =>
      have infers : ∀ element ∈ elements, InfersData infer levels element :=
        fun element isElement => parts element (each element isElement)
      exact ⟨.array, fun ready => (inferArray_yields infers countable ready _).bind_pure _⟩
  | index site baseData positionData =>
      exact ⟨.index, fun ready =>
        (inferIndex_yields (parts _ baseData) (parts _ positionData) ready _).bind_pure _⟩
  | @struct _ fields site each =>
      have infers : ∀ field ∈ fields, InfersData infer levels field.2 :=
        fun field isField => parts field.2 (each field isField)
      exact ⟨.struct, fun ready => (inferStruct_yields infers ready _).bind_pure _⟩
  | field site label baseData =>
      exact ⟨.field, fun ready => (inferField_yields (parts _ baseData) ready _ label).bind_pure _⟩
  | conditional site conditionData trueData falseData =>
      have conditionInfers := parts _ conditionData
      have trueInfers := parts _ trueData
      have falseInfers := parts _ falseData
      exact ⟨.conditional, fun ready =>
        (inferConditional_yields conditionInfers trueInfers falseInfers ready).bind_pure _⟩

/-- The rule of an expression runs in a transaction, one level deeper. -/
theorem attempted_yields
    {rule : Expr → Action InferError (InferRule × Ty)}
    {expr : Expr}
    {name : InferRule}
    {expected : Option Ty}
    {ids : List ExprId}
    (ready : env.Ready (levels + 1) ids)
    (ruleYields :
      ∀ {inner : Environment},
        inner.Ready levels ids →
        Yields (Records ids) (rule expr) inner (expected.map fun ty => (name, ty))) :
    Yields (Records (ids ++ [expr.id])) (attempted rule expr none) env expected := by
  have deeperYields :
      Yields (Records ids) (deeper (linked rule expr none)) env.push
        ((expected.map fun ty => (name, ty)).map id) :=
    ((ruleYields ready.push.deeper).bind_pure id).between fun _ => Records.of_deeper
  rw [Option.map_id_apply] at deeperYields
  have sameResult :
      (((expected.map fun ty => (name, ty)).bind some).bind fun result => some result.2) =
        expected := by
    cases expected <;> rfl
  rw [← sameResult]
  have commits (inner : Environment) (records : env.push.Records (ids ++ [expr.id]) inner) :
      env.Records (ids ++ [expr.id]) (inner.finish true) :=
    ((Records.push env).trans records).trans_nil (Records.commit inner)
  unfold attempted
  refine .compose (.transaction (yields_bind deeperYields ?_) commits) ?_ Records.trans_nil
  · rintro ⟨name, ty⟩ inner _ _
    exact .of_ok rfl (.of_recordInferred inner expr.id ty)
  · rintro ⟨name, ty⟩ later _ _
    exact .of_ok rfl (.of_sameUntraced (later.untraced_traceInfer expr name ty))

/-- An expression of unknown type is inferred by its rule, and the type is recorded. -/
theorem memoized_yields
    {rule : Expr → Action InferError (InferRule × Ty)}
    {expr : Expr}
    {expected : Option Ty}
    (ready : env.Ready (levels + 1) expr.ids)
    (attempts : Yields (Records expr.ids) (attempted rule expr none) env expected) :
    Yields (Records expr.ids) (memoized rule expr) env expected := by
  have isListed : expr.id ∈ expr.ids := by
    rw [Expr.ids_eq]
    exact List.mem_cons_self
  have room := ready.room
  refine .bind_environment ?_
  rw [ready.uncached expr.id isListed]
  change Yields _ (if env.options.maxDepth ≤ env.context.depth then _ else _) env expected
  rw [if_neg (by omega)]
  exact attempts

/-- Inference within enough levels does what the plain recursion says. -/
theorem within_infersData
    {expr : Expr}
    (data : expr.DataWithin levels) :
    InfersData (within levels) levels expr := by
  induction levels generalizing expr with
  | zero => cases data
  | succ levels inductionHypothesis =>
      refine ⟨fun isType => data.data_of_dataType? _ isType, fun ready => ?_⟩
      have listed : (expr.form.children.flatMap Expr.ids ++ [expr.id]).Perm expr.ids := by
        rw [Expr.ids_eq]
        exact List.perm_append_singleton _ _
      obtain ⟨name, ruleYields⟩ := inferForm_yields data fun _ => inductionHypothesis
      have attempts := attempted_yields (ready.perm listed.symm).first ruleYields
      exact memoized_yields ready (attempts.imp fun _ records => records.mono listed.subset)

end Inference

/--
Inference of a data expression is the plain recursion `Expr.dataType?`: it always comes to an end,
gives exactly the type that the recursion gives and fails where the recursion gives none.
-/
theorem infer_data_expression
    {env : Environment}
    {expr : Expr}
    (data : expr.DataWithin (env.options.maxDepth - env.context.depth))
    (distinct : expr.ids.Nodup)
    (uncached : ∀ id ∈ expr.ids, env.frames.inferred? id = none)
    (unbound : env.FreshUnbound) :
    infer expr env ≠ .exhausted ∧
      ∀ ty, (∃ final, infer expr env = .ok ty final) ↔ expr.dataType? = some ty := by
  have someLevel : env.options.maxDepth - env.context.depth ≠ 0 := data.levels_ne_zero
  have ready : env.Ready (env.options.maxDepth - env.context.depth) expr.ids :=
    { distinct := distinct
      uncached := uncached
      freshUnbound := unbound
      room := by omega }
  have yields := (Inference.within_infersData data).yields ready
  exact ⟨yields.ne_exhausted, yields.exists_ok_iff⟩

/-- A condition in a struct chooses between an element of an array and an integer. -/
theorem infer_data_expression_conditional :
    ∃ expr : Expr,
      expr.DataWithin Options.standard.maxDepth ∧
        expr.ids.Nodup ∧
        expr.dataType? = some Ty.float ∧
        ∃ final, infer expr (Environment.empty Options.standard) = .ok Ty.float final := by
  let site (number : Nat) : Site :=
    { id := ⟨number⟩, scope := ScopeId.native, span := Span.synthetic }
  let options : Expr := .node (site 0) (.struct
    [("smooth", .node (site 1) (.literal (.bool true))),
      ("samples", .node (site 2) (.literal (.int 4)))])
  let weights : Expr := .node (site 3) (.array
    [.node (site 4) (.literal (.int 1)), .node (site 5) (.literal (.float 0.5))])
  let expr : Expr := .node (site 6) (.conditional
    (.node (site 7) (.field options "smooth"))
    (.node (site 8) (.index weights (.node (site 9) (.literal (.int 0)))))
    (.node (site 10) (.literal (.int 1))))
  have data : expr.DataWithin Options.standard.maxDepth := by
    refine .conditional _ (.field _ _ (.struct _ ?_)) (.index _ (.array _ (by decide) ?_) ?_) ?_
    · simp
      exact ⟨.literal _ _, .literal _ _⟩
    · simp
      exact ⟨.literal _ _, .literal _ _⟩
    · exact .literal _ _
    · exact .literal _ _
  have distinct : expr.ids.Nodup := by decide
  have typed : expr.dataType? = some Ty.float := rfl
  have unbound : (Environment.empty Options.standard).FreshUnbound :=
    ⟨fun _ _ => rfl, fun _ _ => rfl⟩
  obtain ⟨_, inferred⟩ :
      infer expr (Environment.empty Options.standard) ≠ .exhausted ∧ ∀ ty, _ ↔ _ :=
    infer_data_expression data distinct (fun _ _ => rfl) unbound
  exact ⟨expr, data, distinct, typed, (inferred Ty.float).mpr typed⟩

end ShaderTyping
