import Mathlib.Data.List.Forall2
import ShaderTyping.Ty.Fields
import ShaderTyping.Ty.Order

namespace ShaderTyping

/-!
# What two types agree on

`Ty.meet?` is the type that two types without bound variables and references
agree on: `int` and `float` agree on `float`, structs on the fields that they
share, arrays and functions part by part, and all other types only with
themselves.  It knows nothing of environments and is what unification is
measured against.
-/

/-- What is looked up in a list of entries is one of them. -/
theorem mem_of_lookup
    [BEq κ] [LawfulBEq κ]
    {entries : List (κ × α)}
    {key : κ}
    {value : α}
    (found : entries.lookup key = some value) :
    (key, value) ∈ entries := by
  obtain ⟨before, after, rfl, _⟩ := List.lookup_eq_some_iff.mp found
  simp

namespace Ty

mutual

/-- The type that two types agree on, if there is one. -/
def meet? (left right : Ty) : Option Ty :=
  if left = right then
    some left
  else
    match left, right with
    | .primitive .int, .primitive .float | .primitive .float, .primitive .int => some float
    | .array component length, .array component' length' =>
        if length = length' then
          (component.meet? component').map fun met => .array met length
        else
          none
    | .struct fields, .struct fields' =>
        match meetFields fields fields' with
        | some (first :: rest) => some (.struct (first :: rest))
        | _ => none
    | .function param result, .function param' result' =>
        (param.meet? param').bind fun metParam =>
          (result.meet? result').map fun metResult => .function metParam metResult
    | _, _ => none

/-- The fields that two structs share, if they agree on all of them. -/
def meetFields :
    List (String × Ty) → List (String × Ty) → Option (List (String × Ty))
  | [], _ => some []
  | (label, ty) :: rest, right =>
      match right.lookup label with
      | some other =>
          (ty.meet? other).bind fun met =>
            (meetFields rest right).map fun others => (label, met) :: others
      | none => meetFields rest right

end

/-- A type agrees with itself on itself. -/
@[simp] theorem meet?_self (ty : Ty) : ty.meet? ty = some ty := by
  unfold meet?
  rw [if_pos rfl]

/-- Arrays agree on an array if they have one length and their components agree. -/
theorem meet?_array
    {component component' met : Ty}
    (agreed : component.meet? component' = some met)
    (length : Length) :
    (array component length).meet? (array component' length) = some (.array met length) := by
  unfold meet?
  split
  · rename_i same
    cases same
    rw [meet?_self, Option.some.injEq] at agreed
    rw [agreed]
  · simp [agreed]

/-- Functions agree on a function if their parameters and their results agree. -/
theorem meet?_function
    {param param' metParam result result' metResult : Ty}
    (paramAgreed : param.meet? param' = some metParam)
    (resultAgreed : result.meet? result' = some metResult) :
    (function param result).meet? (function param' result') =
      some (.function metParam metResult) := by
  unfold meet?
  split
  · rename_i same
    cases same
    rw [meet?_self, Option.some.injEq] at paramAgreed resultAgreed
    rw [paramAgreed, resultAgreed]
  · simp [paramAgreed, resultAgreed]

/-! ## Fields in label order -/

/-- Fields in strictly ascending label order, as structs list them. -/
def Sorted (fields : List (String × α)) : Prop :=
  fields.Pairwise fun first second => first.1 < second.1

/-- A type in which every struct lists its fields in label order, each label once. -/
inductive Ordered : Ty → Prop where
  | primitive (kind : Primitive) : Ordered (.primitive kind)
  | array {component : Ty} (length : Length) :
      Ordered component → Ordered (.array component length)
  | struct {fields : List (String × Ty)} :
      Sorted fields →
      (∀ field ∈ fields, Ordered field.2) →
      Ordered (.struct fields)
  | function {param result : Ty} :
      Ordered param → Ordered result → Ordered (.function param result)
  | union {members : List Ty} :
      (∀ member ∈ members, Ordered member) → Ordered (.union members)
  | named (scope : ScopeId) (name : String) : Ordered (.named scope name)
  | placeholder (scope : ScopeId) (id : PlaceholderId) : Ordered (.placeholder scope id)
  | parametric (scope : ScopeId) (label : LabelId) : Ordered (.parametric scope label)

/-- Converting the values of fields keeps the order of labels. -/
theorem Sorted.map
    {fields : List (String × α)}
    (sorted : Sorted fields)
    (convert : α → β) :
    Sorted (fields.map fun field => (field.1, convert field.2)) :=
  List.pairwise_map.mpr sorted

/-- Fields that are related label by label have the same labels. -/
theorem map_fst_of_forall₂
    {fields : List (String × α)}
    {others : List (String × β)}
    (labels : List.Forall₂ (fun field other => other.1 = field.1) fields others) :
    others.map Prod.fst = fields.map Prod.fst := by
  induction labels with
  | nil => rfl
  | cons sameLabel _ inductionHypothesis =>
      rw [List.map_cons, List.map_cons, sameLabel, inductionHypothesis]

/-- Fields with some of the labels of sorted fields, in their order, are sorted. -/
theorem Sorted.of_labels
    {fields : List (String × α)}
    {others : List (String × β)}
    (sorted : Sorted fields)
    (labels : (others.map Prod.fst).Sublist (fields.map Prod.fst)) :
    Sorted others := by
  have labelsSorted : (fields.map Prod.fst).Pairwise (· < ·) := List.pairwise_map.mpr sorted
  exact List.pairwise_map.mp (labelsSorted.sublist labels)

/-- After a field was added there are no others than it and those before. -/
theorem mem_insertField
    {label : String}
    {value : α}
    {fields : List (String × α)}
    {field : String × α}
    (member : field ∈ insertField label value fields) :
    field = (label, value) ∨ field ∈ fields := by
  induction fields with
  | nil => exact Or.inl (List.mem_singleton.mp member)
  | cons first rest inductionHypothesis =>
      unfold insertField at member
      split at member
      · exact List.mem_cons.mp member
      · split at member
        · rcases List.mem_cons.mp member with isNew | inRest
          · exact Or.inl isNew
          · exact Or.inr (List.mem_cons_of_mem _ inRest)
        · rcases List.mem_cons.mp member with rfl | inserted
          · exact Or.inr List.mem_cons_self
          · rcases inductionHypothesis inserted with isNew | inRest
            · exact Or.inl isNew
            · exact Or.inr (List.mem_cons_of_mem _ inRest)

/-- A field is put in its place. -/
theorem Sorted.insertField
    {fields : List (String × α)}
    (sorted : Sorted fields)
    (label : String)
    (value : α) :
    Sorted (insertField label value fields) := by
  induction fields with
  | nil => exact List.pairwise_singleton _ _
  | cons first rest inductionHypothesis =>
      obtain ⟨firstBefore, restSorted⟩ := List.pairwise_cons.mp sorted
      unfold Ty.insertField
      split
      · rename_i before
        refine List.pairwise_cons.mpr ⟨fun field member => ?_, sorted⟩
        rcases List.mem_cons.mp member with rfl | inRest
        · exact before
        · exact String.lt_trans before (firstBefore field inRest)
      · rename_i notBefore
        split
        · rename_i same
          subst same
          exact List.pairwise_cons.mpr ⟨firstBefore, restSorted⟩
        · rename_i different
          refine List.pairwise_cons.mpr ⟨fun field member => ?_, inductionHypothesis restSorted⟩
          rcases mem_insertField member with rfl | inRest
          · exact Decidable.byContradiction fun notAfter =>
              different (String.le_antisymm notAfter notBefore)
          · exact firstBefore field inRest

/-- Fields are sorted by putting one after the other in its place. -/
theorem sortFields_induction
    {motive : List (String × α) → Prop}
    (nil : motive [])
    {fields : List (String × α)}
    (insert :
      ∀ field ∈ fields, ∀ sorted, motive sorted →
        motive (insertField field.1 field.2 sorted)) :
    motive (sortFields fields) :=
  List.foldlRecOn fields _ nil fun sorted holds field member => insert field member sorted holds

/-- Sorted fields are in label order. -/
theorem sortFields_sorted (fields : List (String × α)) : Sorted (sortFields fields) :=
  sortFields_induction (motive := Sorted) List.Pairwise.nil fun field _ _ sorted =>
    sorted.insertField field.1 field.2

/-- Sorting fields adds none. -/
theorem mem_of_mem_sortFields
    {fields : List (String × α)} :
    ∀ field ∈ sortFields fields, field ∈ fields := by
  refine sortFields_induction (motive := fun sorted => ∀ field ∈ sorted, field ∈ fields) ?_ ?_
  · exact fun _ member => absurd member List.not_mem_nil
  · intro added isAdded sorted inFields field member
    rcases mem_insertField member with rfl | before
    · exact isAdded
    · exact inFields field before

/-- In sorted fields a label finds its own field. -/
theorem Sorted.lookup_of_mem
    {fields : List (String × α)}
    (sorted : Sorted fields)
    {label : String}
    {value : α}
    (member : (label, value) ∈ fields) :
    fields.lookup label = some value := by
  induction fields with
  | nil => exact absurd member List.not_mem_nil
  | cons field rest inductionHypothesis =>
      obtain ⟨firstBefore, restSorted⟩ := List.pairwise_cons.mp sorted
      rcases List.mem_cons.mp member with isFirst | inRest
      · rw [← isFirst, List.lookup_cons_self]
      · have before : field.1 < label := firstBefore _ inRest
        have different : (label == field.1) = false := by
          rw [beq_eq_false_iff_ne]
          exact fun same => String.lt_irrefl _ (same ▸ before)
        rw [List.lookup_cons, different]
        exact inductionHypothesis restSorted inRest

/-- Fields are shared if both sides have one with the label. -/
theorem mem_sharedFields
    {left right : List (String × Ty)}
    {label : String}
    {first second : Ty} :
    (label, first, second) ∈ sharedFields left right ↔
      (label, first) ∈ left ∧ right.lookup label = some second := by
  simp only [sharedFields, List.mem_filterMap, Option.map_eq_some_iff, Prod.exists,
    Prod.mk.injEq]
  constructor
  · rintro ⟨_, _, member, _, found, rfl, rfl, rfl⟩
    exact ⟨member, found⟩
  · rintro ⟨member, found⟩
    exact ⟨label, first, member, second, found, rfl, rfl, rfl⟩

/-- The labels of shared fields are among those on the left, in the same order. -/
theorem sharedFields_labels (left right : List (String × Ty)) :
    ((sharedFields left right).map Prod.fst).Sublist (left.map Prod.fst) := by
  induction left with
  | nil => exact .slnil
  | cons field rest inductionHypothesis =>
      unfold sharedFields at inductionHypothesis ⊢
      cases found : right.lookup field.1 with
      | none => simpa [found] using inductionHypothesis.cons field.1
      | some other => simpa [found] using inductionHypothesis

/-- Shared fields are in label order if those on the left are. -/
theorem sharedFields_sorted
    {left : List (String × Ty)}
    (sorted : Sorted left)
    (right : List (String × Ty)) :
    Sorted (sharedFields left right) :=
  sorted.of_labels (sharedFields_labels left right)

/-- Sharing fields is symmetric. -/
theorem sharedFields_swap
    {left right : List (String × Ty)}
    (leftSorted : Sorted left)
    (rightSorted : Sorted right) :
    sharedFields right left =
      (sharedFields left right).map fun shared => (shared.1, shared.2.2, shared.2.1) := by
  have sortedSwap :
      Sorted ((sharedFields left right).map fun shared =>
        (shared.1, shared.2.2, shared.2.1)) :=
    (sharedFields_sorted leftSorted right).map fun types => (types.2, types.1)
  have nodup {fields : List (String × Ty × Ty)} (sorted : Sorted fields) : fields.Nodup := by
    refine List.Pairwise.imp ?_ sorted
    rintro first second before rfl
    exact String.lt_irrefl _ before
  have sortedRight := sharedFields_sorted rightSorted left
  refine List.Perm.eq_of_pairwise ?_ sortedRight sortedSwap ?_
  · intro first second _ _ before after
    exact absurd (String.lt_trans before after) (String.lt_irrefl _)
  · refine (List.perm_ext_iff_of_nodup (nodup sortedRight) (nodup sortedSwap)).mpr ?_
    rintro ⟨label, first, second⟩
    simp only [List.mem_map, Prod.exists, Prod.mk.injEq, mem_sharedFields]
    constructor
    · rintro ⟨inRight, inLeft⟩
      exact ⟨label, second, first,
        ⟨mem_of_lookup inLeft, rightSorted.lookup_of_mem inRight⟩, rfl, rfl, rfl⟩
    · rintro ⟨_, _, _, ⟨inLeft, inRight⟩, rfl, rfl, rfl⟩
      exact ⟨mem_of_lookup inRight, leftSorted.lookup_of_mem inLeft⟩

/-- All fields are shared with themselves. -/
theorem sharedFields_self
    {fields : List (String × Ty)}
    (sorted : Sorted fields) :
    sharedFields fields fields =
      fields.map fun field => (field.1, field.2, field.2) := by
  rw [sharedFields, ← List.filterMap_eq_map]
  refine List.filterMap_congr fun field member => ?_
  rw [sorted.lookup_of_mem member]
  rfl

/-- Replacing the types of fields replaces them in the shared fields. -/
theorem sharedFields_map
    (convert : Ty → Ty)
    (left right : List (String × Ty)) :
    sharedFields (left.map fun field => (field.1, convert field.2))
        (right.map fun field => (field.1, convert field.2)) =
      (sharedFields left right).map fun shared =>
        (shared.1, convert shared.2.1, convert shared.2.2) := by
  have lookupMap (label : String) :
      (right.map fun field => (field.1, convert field.2)).lookup label =
        (right.lookup label).map convert := by
    induction right with
    | nil => rfl
    | cons field rest inductionHypothesis =>
        rw [List.map_cons, List.lookup_cons, List.lookup_cons]
        cases label == field.1 with
        | true => rfl
        | false => exact inductionHypothesis
  rw [sharedFields, sharedFields, List.filterMap_map, List.map_filterMap]
  refine List.filterMap_congr fun field _ => ?_
  simp only [Function.comp_apply, lookupMap, Option.map_map]
  rfl

/-! ## Structs -/

/-- Fields are met if all shared ones are. -/
theorem meetFields_eq_some
    {left right met : List (String × Ty)}
    (agreed :
      List.Forall₂
        (fun shared field => field.1 = shared.1 ∧ shared.2.1.meet? shared.2.2 = some field.2)
        (sharedFields left right) met) :
    meetFields left right = some met := by
  induction left generalizing met with
  | nil =>
      cases agreed
      rfl
  | cons field rest inductionHypothesis =>
      cases found : right.lookup field.1 with
      | none =>
          have fewer : sharedFields (field :: rest) right = sharedFields rest right := by
            simp [sharedFields, found]
          rw [fewer] at agreed
          rw [meetFields, found]
          exact inductionHypothesis agreed
      | some other =>
          have shared :
              sharedFields (field :: rest) right =
                (field.1, field.2, other) :: sharedFields rest right := by
            simp [sharedFields, found]
          rw [shared] at agreed
          cases agreed with
          | @cons _ first _ others firstAgreed restAgreed =>
              obtain ⟨sameLabel, isMet⟩ := firstAgreed
              rw [meetFields, found]
              simp only [isMet, inductionHypothesis restAgreed, Option.bind_some,
                Option.map_some]
              rw [← show first.1 = field.1 from sameLabel]

/-- Fields agree with themselves on themselves. -/
theorem meetFields_self
    {fields : List (String × Ty)}
    (sorted : Sorted fields) :
    meetFields fields fields = some fields := by
  refine meetFields_eq_some ?_
  rw [sharedFields_self sorted, List.forall₂_map_left_iff, List.forall₂_same]
  intro field _
  exact ⟨rfl, meet?_self field.2⟩

/-- Structs agree on what their shared fields agree on, if there are any. -/
theorem meet?_struct
    {left right met : List (String × Ty)}
    (leftSorted : Sorted left)
    (agreed : meetFields left right = some met)
    (notEmpty : met ≠ []) :
    (struct left).meet? (struct right) = some (.struct met) := by
  unfold meet?
  split
  · rename_i same
    cases same
    rw [meetFields_self leftSorted, Option.some.injEq] at agreed
    rw [agreed]
  · obtain ⟨first, rest, rfl⟩ := List.exists_cons_of_ne_nil notEmpty
    simp [agreed]

end Ty

end ShaderTyping
