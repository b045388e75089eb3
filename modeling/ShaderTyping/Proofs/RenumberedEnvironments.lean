import Mathlib.Logic.Embedding.Basic
import ShaderTyping.Proofs.Endings
import ShaderTyping.Proofs.MirroredActions
import ShaderTyping.Proofs.Meet

namespace ShaderTyping

/-!
# Other numbers for placeholders

The numbers of placeholders are only compared for equality, so it does not matter which
numbers the fresh ones get.  `Environment.Renumbered` relates two environments in which the
same is known under different numbers; whatever looks at a type finds the same in both.
-/

namespace Ty

mutual

/-- The type with other numbers for its placeholders. -/
def renumber (number : PlaceholderId → PlaceholderId) : Ty → Ty
  | .primitive kind => .primitive kind
  | .array component length => .array (component.renumber number) length
  | .struct fields => .struct (renumberFields number fields)
  | .function param result => .function (param.renumber number) (result.renumber number)
  | .union members => .union (renumberMembers number members)
  | .named scope name => .named scope name
  | .placeholder scope id => .placeholder scope (number id)
  | .parametric scope label => .parametric scope label

/-- The fields with other numbers for their placeholders. -/
def renumberFields (number : PlaceholderId → PlaceholderId) :
    List (String × Ty) → List (String × Ty)
  | [] => []
  | (label, ty) :: rest => (label, ty.renumber number) :: renumberFields number rest

/-- The members with other numbers for their placeholders. -/
def renumberMembers (number : PlaceholderId → PlaceholderId) : List Ty → List Ty
  | [] => []
  | ty :: rest => ty.renumber number :: renumberMembers number rest

end

variable {number : PlaceholderId → PlaceholderId}

/-- The fields of a struct are renumbered one by one. -/
@[simp] theorem renumber_struct (fields : List (String × Ty)) :
    (struct fields).renumber number =
      .struct (fields.map fun field => (field.1, field.2.renumber number)) := by
  refine congrArg Ty.struct ?_
  induction fields with
  | nil => rfl
  | cons field rest inductionHypothesis => exact congrArg _ inductionHypothesis

/-- The members of an overload set are renumbered one by one and stay in place. -/
@[simp] theorem renumber_union (members : List Ty) :
    (union members).renumber number = .union (members.map (renumber number)) := by
  refine congrArg Ty.union ?_
  induction members with
  | nil => rfl
  | cons member rest inductionHypothesis => exact congrArg _ inductionHypothesis

/-- Other numbers do not make or remove a placeholder. -/
theorem isPlaceholder_renumber (number : PlaceholderId → PlaceholderId) (ty : Ty) :
    (ty.renumber number).isPlaceholder = ty.isPlaceholder := by
  cases ty <;> rfl

/-- Other numbers do not change whether a type stands for itself. -/
theorem isSolid_renumber (number : PlaceholderId → PlaceholderId) (ty : Ty) :
    (ty.renumber number).isSolid = ty.isSolid := by
  cases ty <;> rfl

/-- The leaves of a type get the other numbers one by one. -/
theorem leaves_renumber (ty : Ty) :
    (ty.renumber number).leaves = ty.leaves.map (renumber number) := by
  induction ty using Ty.induction with
  | array component length inductionHypothesis =>
      rw [renumber, leaves_array, leaves_array, inductionHypothesis]
  | struct fields inductionHypothesis =>
      rw [renumber_struct, leaves_struct, leaves_struct, List.flatMap_map, List.map_flatMap]
      exact List.flatMap_congr inductionHypothesis
  | function param result paramHypothesis resultHypothesis =>
      rw [renumber, leaves_function, leaves_function, paramHypothesis, resultHypothesis,
        List.map_append]
  | union members inductionHypothesis =>
      rw [renumber_union, leaves_union, leaves_union, List.flatMap_map, List.map_flatMap]
      exact List.flatMap_congr inductionHypothesis
  | primitive | named | placeholder | parametric => simp [renumber]

/-- Renumbering twice is renumbering once by both. -/
theorem renumber_renumber (first second : PlaceholderId → PlaceholderId) (ty : Ty) :
    (ty.renumber first).renumber second = ty.renumber (second ∘ first) := by
  induction ty using Ty.induction with
  | array component length inductionHypothesis => simp only [renumber, inductionHypothesis]
  | struct fields inductionHypothesis =>
      simp only [renumber_struct, List.map_map]
      refine congrArg Ty.struct (List.map_congr_left fun field isField => ?_)
      exact congrArg (Prod.mk field.1) (inductionHypothesis field isField)
  | function param result paramHypothesis resultHypothesis =>
      simp only [renumber, paramHypothesis, resultHypothesis]
  | union members inductionHypothesis =>
      simp only [renumber_union, List.map_map]
      exact congrArg Ty.union (List.map_congr_left inductionHypothesis)
  | primitive | named | placeholder | parametric => rfl

/-- A type stays as it is if its placeholders keep their numbers. -/
theorem renumber_eq_self
    {ty : Ty}
    (kept : ∀ {scope id}, .placeholder scope id ∈ ty.leaves → number id = id) :
    ty.renumber number = ty := by
  induction ty using Ty.induction with
  | array component length inductionHypothesis =>
      rw [leaves_array] at kept
      rw [renumber, inductionHypothesis kept]
  | struct fields inductionHypothesis =>
      rw [leaves_struct] at kept
      rw [renumber_struct]
      have each : ∀ field ∈ fields, (field.1, field.2.renumber number) = id field := by
        intro field isField
        rw [inductionHypothesis field isField fun isLeaf =>
          kept (List.mem_flatMap_of_mem isField isLeaf)]
        rfl
      rw [List.map_congr_left each, List.map_id]
  | function param result paramHypothesis resultHypothesis =>
      rw [leaves_function] at kept
      rw [renumber, paramHypothesis fun isLeaf => kept (List.mem_append_left _ isLeaf),
        resultHypothesis fun isLeaf => kept (List.mem_append_right _ isLeaf)]
  | union members inductionHypothesis =>
      rw [leaves_union] at kept
      rw [renumber_union]
      have each : ∀ member ∈ members, member.renumber number = id member := fun member isMember =>
        inductionHypothesis member isMember fun isLeaf =>
          kept (List.mem_flatMap_of_mem isMember isLeaf)
      rw [List.map_congr_left each, List.map_id]
  | placeholder scope id =>
      rw [renumber, kept (leaves_placeholder scope id ▸ List.mem_singleton_self _)]
  | primitive | named | parametric => rfl

/-- If different placeholders get different numbers, different types stay different. -/
theorem renumber_injective (injective : Function.Injective number) :
    Function.Injective (renumber number) := by
  have : Nonempty PlaceholderId := ⟨⟨0⟩⟩
  obtain ⟨back, isInverse⟩ := injective.hasLeftInverse
  intro first second same
  have restored (ty : Ty) : (ty.renumber number).renumber back = ty := by
    rw [renumber_renumber]
    exact renumber_eq_self fun _ => isInverse _
  rw [← restored first, same, restored second]

end Ty

/-! ## What is known under other numbers -/

variable {number : PlaceholderId ↪ PlaceholderId}

/-- The same findings under other numbers. -/
structure Snapshot.Renumbered
    (number : PlaceholderId ↪ PlaceholderId)
    (snapshot snapshot' : Snapshot) : Prop where
  placeholders :
    ∀ id, snapshot'.placeholder? (number id) = (snapshot.placeholder? id).map (Ty.renumber number)
  lengths : snapshot'.length? = snapshot.length?
  generic : snapshot'.isGeneric = snapshot.isGeneric
  inferred : snapshot'.inferred? = snapshot.inferred?
  parameters : snapshot'.parameter? = snapshot.parameter?

namespace Snapshot.Renumbered

variable {snapshot snapshot' : Snapshot}

/-- Placeholders bound under both numbers keep snapshots alike. -/
theorem placeholder
    (alike : snapshot.Renumbered number snapshot')
    (id : PlaceholderId)
    (ty : Ty) :
    ((Finding.placeholder id ty).addTo snapshot).Renumbered number
      ((Finding.placeholder (number id) (ty.renumber number)).addTo snapshot') := by
  refine { alike with placeholders := fun other => ?_ }
  simp only [Finding.addTo, Function.update_apply, number.injective.eq_iff]
  split
  · rfl
  · exact alike.placeholders other

/-- Lengths bound alike keep snapshots alike. -/
theorem length
    (alike : snapshot.Renumbered number snapshot')
    (id : LengthId)
    (length : Length) :
    ((Finding.length id length).addTo snapshot).Renumbered number
      ((Finding.length id length).addTo snapshot') :=
  { alike with lengths := by simp only [Finding.addTo, alike.lengths] }

end Snapshot.Renumbered

/-- Fresh placeholders get the other numbers, and all other counters are the same. -/
structure Counters.Renumbered
    (number : PlaceholderId ↪ PlaceholderId)
    (counters counters' : Counters) : Prop where
  placeholders :
    ∀ ahead, number ⟨counters.placeholder + ahead⟩ = ⟨counters'.placeholder + ahead⟩
  lengths : counters'.length = counters.length
  labels : counters'.label = counters.label

namespace Environment

variable {env env' later later' : Environment}

/-- Bindings and definitions can be followed to an end. -/
structure Followable (env : Environment) : Prop where
  consistent : env.frames.Consistent
  acyclic : env.Acyclic

namespace Followable

/-- Runs keep an environment followable. -/
theorem of_run (followable : env.Followable) (run : Run env later) : later.Followable where
  consistent := run.consistent followable.consistent
  acyclic := run.acyclic followable.consistent followable.acyclic

/-- What reads like a followable environment is followable. -/
theorem of_readsLike
    (followable : env.Followable)
    (shows : env.ReadsLike later)
    (consistent : later.frames.Consistent) :
    later.Followable where
  consistent := consistent
  acyclic := followable.acyclic.congr (standsFor?_congr shows.declared shows.binding?)

end Followable

/-- In the second environment the same is known under other numbers. -/
structure Renumbered
    (number : PlaceholderId ↪ PlaceholderId)
    (env env' : Environment) : Prop where
  followable : env.Followable
  followable' : env'.Followable
  declared : env'.declared = env.declared
  definitions :
    ∀ {scope name key definition},
      env.definition? scope name = some (key, definition) → definition.renumber number = definition
  snapshot : env.frames.snapshot.Renumbered number env'.frames.snapshot
  fresh : env.fresh.Renumbered number env'.fresh
  context : env'.context = env.context
  maxDepth : env'.options.maxDepth = env.options.maxDepth

namespace Renumbered

/-- A placeholder is bound under its other number to the renumbered type. -/
theorem binding? (alike : Renumbered number env env') (id : PlaceholderId) :
    env'.binding? (number id) = (env.binding? id).map (Ty.renumber number) :=
  alike.snapshot.placeholders id

/-- References stand for the same types: no definition is renumbered. -/
theorem definition?
    (alike : Renumbered number env env')
    (scope : ScopeId)
    (name : String) :
    env'.definition? scope name = env.definition? scope name :=
  definition?_congr alike.declared scope name

/-! ## What looking at types finds -/

/-- What a leaf stands for, it stands for under the other numbers. -/
theorem standsFor? (alike : Renumbered number env env') (leaf : Ty) :
    env'.standsFor? (leaf.renumber number) = (env.standsFor? leaf).map (Ty.renumber number) := by
  cases leaf with
  | placeholder scope id => exact alike.binding? id
  | named scope name =>
      have same := alike.definition? scope name
      simp only [Ty.renumber, Environment.standsFor?, same]
      cases found : env.definition? scope name with
      | none => rfl
      | some entry => exact congrArg some (alike.definitions found).symm
  | _ => rfl

/-- Following a renumbered type leads to the renumbered end. -/
theorem follow (alike : Renumbered number env env') (ty : Ty) :
    env'.follow (ty.renumber number) = (env.follow ty).renumber number := by
  induction ty using bindingInduction alike.followable.consistent with
  | step ty inductionHypothesis =>
      cases ty with
      | placeholder scope id =>
          have same := alike.binding? id
          rw [Ty.renumber, follow_placeholder alike.followable'.consistent, same,
            follow_placeholder alike.followable.consistent]
          cases found : env.binding? id with
          | none => rfl
          | some bound => exact inductionHypothesis (List.mem_singleton_self _) found
      | _ => rfl

/-- The head of a renumbered type is the renumbered head. -/
theorem head (alike : Renumbered number env env') (ty : Ty) :
    env'.head (ty.renumber number) = (env.head ty).renumber number := by
  have reached :
      env'.head ((env.head ty).renumber number) = env'.head (ty.renumber number) := by
    refine head_induction
      (motive := fun other => env'.head (other.renumber number) = env'.head (ty.renumber number))
      (fun {leaf next} same stands => ?_) rfl
    have stands' := alike.standsFor? leaf
    rw [stands, Option.map_some] at stands'
    rw [← same,
      head_eq_of_standsFor? alike.followable'.consistent alike.followable'.acyclic stands']
  have isFinal := alike.standsFor? (env.head ty)
  rw [standsFor?_head alike.followable.consistent alike.followable.acyclic, Option.map_none]
    at isFinal
  rw [← reached, head_eq_self isFinal]

/-- Lengths resolve alike under other numbers. -/
theorem resolveLength (alike : Renumbered number env env') (length : Length) :
    env'.resolveLength length = env.resolveLength length :=
  resolveLength_congr alike.followable.consistent alike.followable'.consistent
    (congrFun alike.snapshot.lengths) length

/-- Under the other numbers a leaf leads to what it leads to. -/
theorem leadsTo_iff (alike : Renumbered number env env') {leaf target : Ty} :
    env'.LeadsTo (leaf.renumber number) target ↔
      ∃ next, env.LeadsTo leaf next ∧ next.renumber number = target := by
  unfold LeadsTo Table.Leads
  rw [alike.standsFor?]
  constructor
  · rintro ⟨value', stands', isLeaf'⟩
    obtain ⟨value, stands, rfl⟩ := Option.map_eq_some_iff.mp stands'
    rw [Ty.leaves_renumber] at isLeaf'
    obtain ⟨next, isLeaf, rfl⟩ := List.mem_map.mp isLeaf'
    exact ⟨next, ⟨value, stands, isLeaf⟩, rfl⟩
  · rintro ⟨next, ⟨value, stands, isLeaf⟩, rfl⟩
    refine ⟨value.renumber number, by rw [stands, Option.map_some], ?_⟩
    change next.renumber number ∈ (value.renumber number).leaves
    rw [Ty.leaves_renumber]
    exact List.mem_map_of_mem isLeaf

/-- A renumbered type reaches the same under other numbers. -/
theorem reaches_iff (alike : Renumbered number env env') {ty target : Ty} :
    env'.Reaches (ty.renumber number) (target.renumber number) ↔ env.Reaches ty target := by
  constructor
  · rintro ⟨_, isLeaf', path'⟩
    rw [Ty.leaves_renumber] at isLeaf'
    obtain ⟨leaf, isLeaf, rfl⟩ := List.mem_map.mp isLeaf'
    -- A path under the other numbers never leaves the types with other numbers.
    have followed {target' : Ty}
        (path' : Relation.ReflTransGen env'.LeadsTo (leaf.renumber number) target') :
        ∃ found, Relation.ReflTransGen env.LeadsTo leaf found ∧
          found.renumber number = target' := by
      induction path' with
      | refl => exact ⟨leaf, .refl, rfl⟩
      | tail _ step inductionHypothesis =>
          obtain ⟨middle, before, rfl⟩ := inductionHypothesis
          obtain ⟨next, leads, rfl⟩ := alike.leadsTo_iff.mp step
          exact ⟨next, before.tail leads, rfl⟩
    obtain ⟨found, path, same⟩ := followed path'
    exact ⟨leaf, isLeaf, Ty.renumber_injective number.injective same ▸ path⟩
  · rintro ⟨leaf, isLeaf, path⟩
    refine ⟨leaf.renumber number, Ty.leaves_renumber ty ▸ List.mem_map_of_mem isLeaf, ?_⟩
    exact path.lift _ fun _ next leads => alike.leadsTo_iff.mpr ⟨next, leads, rfl⟩

/-- The occurs check comes to the same answer under other numbers. -/
theorem occurs (alike : Renumbered number env env') (id : PlaceholderId) (ty : Ty) :
    env'.occurs (number id) (ty.renumber number) = env.occurs id ty := by
  rw [Bool.eq_iff_iff, occurs_eq_true_iff alike.followable'.consistent,
    occurs_eq_true_iff alike.followable.consistent]
  refine exists_congr fun scope => ?_
  change env'.Reaches _ ((Ty.placeholder scope id).renumber number) ↔ _
  exact alike.reaches_iff

/-! ## What changes both environments -/

/-- What can be read from two environments decides whether one renumbers the other. -/
theorem of_readsLike
    (alike : Renumbered number env env')
    (shows : env.ReadsLike later)
    (consistent : later.frames.Consistent)
    (shows' : env'.ReadsLike later')
    (consistent' : later'.frames.Consistent) :
    Renumbered number later later' where
  followable := alike.followable.of_readsLike shows consistent
  followable' := alike.followable'.of_readsLike shows' consistent'
  declared := by rw [shows.declared, shows'.declared, alike.declared]
  definitions found := by
    rw [definition?_congr shows.declared] at found
    exact alike.definitions found
  snapshot := by
    rw [shows.snapshot, shows'.snapshot]
    exact alike.snapshot
  fresh := by
    rw [shows.fresh, shows'.fresh]
    exact alike.fresh
  context := by rw [shows.context, shows'.context, alike.context]
  maxDepth := by rw [shows.maxDepth, shows'.maxDepth, alike.maxDepth]

/-- New frames keep environments renumbered. -/
theorem push (alike : Renumbered number env env') : Renumbered number env.push env'.push :=
  alike.of_readsLike (.push env) alike.followable.consistent.push (.push env')
    alike.followable'.consistent.push

/-- Commits keep environments renumbered. -/
theorem commit (alike : Renumbered number env env') :
    Renumbered number (env.finish true) (env'.finish true) :=
  alike.of_readsLike (.commit env) (consistent_finish alike.followable.consistent true)
    (.commit env') (consistent_finish alike.followable'.consistent true)

/-- Steps of unification do not matter, whatever they are. -/
theorem traceUnify
    (alike : Renumbered number env env')
    (event event' : UnifyEvent)
    (left left' right right' : Operand) :
    Renumbered number (env.traceUnify event left right)
      (env'.traceUnify event' left' right') := by
  refine alike.of_readsLike (.traceUnify event left right env) ?_
    (.traceUnify event' left' right' env') ?_
  · rw [frames_traceUnify]
    exact alike.followable.consistent
  · rw [frames_traceUnify]
    exact alike.followable'.consistent

/-- The same placeholder is bound to the same type. -/
theorem bindPlaceholder
    (alike : Renumbered number env env')
    {id : PlaceholderId}
    {ty : Ty}
    (unbound : env.binding? id = none)
    (notFound : env.occurs id ty = false)
    (event event' : UnifyEvent)
    (left left' right right' : Operand) :
    Renumbered number ((env.traceUnify event left right).bindPlaceholder id ty)
      ((env'.traceUnify event' left' right').bindPlaceholder (number id)
        (ty.renumber number)) := by
  have noted := alike.traceUnify event event' left left' right right'
  have unbound' : env'.binding? (number id) = none := by
    rw [alike.binding?, unbound, Option.map_none]
  have notFound' : env'.occurs (number id) (ty.renumber number) = false :=
    (alike.occurs id ty).trans notFound
  exact
    { noted with
      followable :=
        alike.followable.of_run (.binds (.placeholder event left right unbound notFound))
      followable' :=
        alike.followable'.of_run (.binds (.placeholder event' left' right' unbound' notFound'))
      snapshot := by
        have written := noted.snapshot.placeholder id ty
        rwa [← FrameStack.snapshot_writeTo, ← FrameStack.snapshot_writeTo] at written }

/-- The same length variable is bound to the same length. -/
theorem bindLength
    (alike : Renumbered number env env')
    {id : LengthId}
    {first second : Length}
    (isVar : env.resolveLength first = .var id)
    (different : env.resolveLength second ≠ .var id)
    (event event' : UnifyEvent)
    (left left' right right' : Operand) :
    Renumbered number
      ((env.traceUnify event left right).bindLength id (env.resolveLength second))
      ((env'.traceUnify event' left' right').bindLength id (env.resolveLength second)) := by
  have noted := alike.traceUnify event event' left left' right right'
  have step' : Binds env'
      ((env'.traceUnify event' left' right').bindLength id (env'.resolveLength second)) :=
    .length event' left' right' ((alike.resolveLength first).trans isVar)
      (alike.resolveLength second ▸ different)
  rw [alike.resolveLength] at step'
  exact
    { noted with
      followable := alike.followable.of_run (.binds (.length event left right isVar different))
      followable' := alike.followable'.of_run (.binds step')
      snapshot := by
        have written := noted.snapshot.length id (env.resolveLength second)
        rwa [← FrameStack.snapshot_writeTo, ← FrameStack.snapshot_writeTo] at written }

/-- The next fresh placeholder is the same, but for its number. -/
theorem freshPlaceholder (alike : Renumbered number env env') (scope : ScopeId) :
    (Environment.freshPlaceholder scope env').1 =
        (Environment.freshPlaceholder scope env).1.renumber number ∧
      Renumbered number (Environment.freshPlaceholder scope env).2
        (Environment.freshPlaceholder scope env').2 := by
  constructor
  · exact congrArg (Ty.placeholder scope) (alike.fresh.placeholders 0).symm
  · have later (ahead : Nat) :
        number ⟨env.fresh.placeholder + 1 + ahead⟩ = ⟨env'.fresh.placeholder + 1 + ahead⟩ := by
      rw [Nat.add_assoc, Nat.add_assoc]
      exact alike.fresh.placeholders (1 + ahead)
    exact
      { alike with
        followable := alike.followable.of_run (.fresh 1 0 0)
        followable' := alike.followable'.of_run (.fresh 1 0 0)
        fresh := { alike.fresh with placeholders := later } }

/-- After a transaction that failed, the same is known again. -/
theorem abort
    (alike : Renumbered number env env')
    {inner inner' : Environment}
    (restored : Restored env.push inner)
    (restored' : Restored env'.push inner')
    (fresh : inner.fresh.Renumbered number inner'.fresh)
    (context : inner'.context = inner.context) :
    Renumbered number (inner.finish false) (inner'.finish false) := by
  have outside := restored.transaction false
  have outside' := restored'.transaction false
  have shows {start left : Environment}
      (sameDeclared : left.declared = start.declared)
      (sameFrames : left.frames = start.frames)
      (followable : start.Followable) :
      left.Followable := by
    refine ⟨sameFrames ▸ followable.consistent, ?_⟩
    refine followable.acyclic.congr (standsFor?_congr sameDeclared fun id => ?_)
    rw [Environment.binding?, sameFrames, Environment.binding?]
  exact
    { followable := shows outside.declared restored.frames_of_failed alike.followable
      followable' := shows outside'.declared restored'.frames_of_failed alike.followable'
      declared := by rw [outside.declared, outside'.declared, alike.declared]
      definitions := fun found => by
        rw [definition?_congr outside.declared] at found
        exact alike.definitions found
      snapshot := by
        rw [restored.frames_of_failed, restored'.frames_of_failed]
        exact alike.snapshot
      fresh := by
        rw [fresh_finish, fresh_finish]
        exact fresh
      context := by rw [context_finish, context_finish, context]
      maxDepth := by rw [outside.options, outside'.options, alike.maxDepth] }

end Renumbered

end Environment

end ShaderTyping
