import Mathlib.Data.List.Destutter
import ShaderTyping.Proofs.Composition
import ShaderTyping.Proofs.WellFormedTypes

namespace ShaderTyping

/-!
# The structural order and overload sets

The structural order is total and tells different types apart, so sorting types and
dropping each one that follows an equal one lists them in a form that only depends on
which types there are.  That form is what an overload set lists
(`Ty.canonicalMembers_eq_destutter_sort`); overload sets of well-formed types are
therefore equal exactly if they offer the same alternatives.
-/

namespace Ty

/-! ## A total order -/

/-- A type comes before another one or is the same. -/
theorem le_iff {left right : Ty} :
    left.le right ↔ left.compare right = .lt ∨ left = right := by
  rw [← compare_eq_iff, le]
  cases left.compare right <;> simp

/-- The structural order is reflexive. -/
theorem le_refl (ty : Ty) : ty.le ty :=
  le_iff.mpr (Or.inr rfl)

/-- A type comes after another one if that comes before it. -/
theorem compare_gt_iff {left right : Ty} :
    left.compare right = .gt ↔ right.compare left = .lt := by
  rw [← compare_swap]
  cases right.compare left <;> simp

/-- The structural order is antisymmetric. -/
theorem le_antisymm
    {left right : Ty}
    (before : left.le right)
    (after : right.le left) :
    left = right := by
  rcases le_iff.mp before with isBefore | same
  · rcases le_iff.mp after with isAfter | same
    · have around := compare_lt_trans isBefore isAfter
      rw [compare_eq_iff.mpr rfl] at around
      contradiction
    · exact same.symm
  · exact same

/-- The structural order is transitive. -/
theorem le_trans
    {first second third : Ty}
    (before : first.le second)
    (after : second.le third) :
    first.le third := by
  rcases le_iff.mp before with isBefore | rfl
  · rcases le_iff.mp after with isAfter | rfl
    · exact le_iff.mpr (Or.inl (compare_lt_trans isBefore isAfter))
    · exact before
  · exact after

/-- The structural order is total. -/
theorem le_total (left right : Ty) : left.le right ∨ right.le left := by
  cases order : left.compare right with
  | lt => exact Or.inl (le_iff.mpr (Or.inl order))
  | eq => exact Or.inl (le_iff.mpr (Or.inr (compare_eq_iff.mp order)))
  | gt => exact Or.inr (le_iff.mpr (Or.inl (compare_gt_iff.mp order)))

/-! ## Sorting and dropping repetitions -/

/-- Sorting keeps the types that there are. -/
theorem sort_perm (types : List Ty) : (sort types).Perm types :=
  List.mergeSort_perm types le

/-- Sorting puts types in structural order. -/
theorem sort_pairwise (types : List Ty) :
    (sort types).Pairwise fun first second => first.le second := by
  refine List.pairwise_mergeSort ?_ ?_ types
  · exact fun first second third before after => le_trans before after
  · intro left right
    rw [Bool.or_eq_true]
    exact le_total left right

/-- Where no type follows an equal one, types in ascending order are strictly ascending. -/
theorem ascending_of_pairwise
    {types : List Ty}
    (sorted : types.Pairwise fun first second => first.le second)
    (changing : types.IsChain (· ≠ ·)) :
    Ascending types := by
  induction types with
  | nil => exact .nil
  | cons first rest inductionHypothesis =>
      obtain ⟨firstLe, restSorted⟩ := List.pairwise_cons.mp sorted
      have restAscending := inductionHypothesis restSorted changing.tail
      cases rest with
      | nil => exact .singleton first
      | cons second rest =>
          have different : first ≠ second := (List.isChain_cons_cons.mp changing).1
          have before := (le_iff.mp (firstLe second List.mem_cons_self)).resolve_right different
          exact .cons_cons before restAscending

/--
The members of an overload set are the alternatives in ascending order, without those
that follow an equal one.
-/
theorem canonicalMembers_eq_destutter_sort (types : List Ty) :
    canonicalMembers types = (sort (types.flatMap alternatives)).destutter (· ≠ ·) := by
  have sorted := sort_pairwise (types.flatMap alternatives)
  have ascending : Ascending ((sort (types.flatMap alternatives)).destutter (· ≠ ·)) :=
    ascending_of_pairwise (sorted.sublist (List.destutter_sublist _ _))
      (List.isChain_destutter _ _)
  refine (canonicalMembers_ascending types).eq_of_mem_iff ascending fun member => ?_
  have isAntisymmetric : Std.Antisymm fun first second : Ty => first.le second = true :=
    ⟨fun _ _ before after => le_antisymm before after⟩
  rw [mem_canonicalMembers, sorted.destutter_eq_dedup, List.mem_dedup,
    (sort_perm _).mem_iff, List.mem_flatMap]

/-! ## Overload sets -/

/-- A well-formed type is in canonical form. -/
theorem WellFormed.canonical {ty : Ty} (wellFormed : ty.WellFormed) : ty.Canonical := by
  induction wellFormed with
  | primitive kind => exact .primitive kind
  | array _ _ component => exact .array _ component
  | struct _ _ fields => exact .struct fields
  | function _ _ param result => exact .function param result
  | union many single ascending _ members => exact .union members single ascending (by omega)
  | named scope name => exact .named scope name
  | placeholder scope id => exact .placeholder scope id
  | parametric scope label => exact .parametric scope label

/-- What the overload set of well-formed types offers, if there is one. -/
theorem mem_alternatives_of_mem_ofMembers
    {types : List Ty}
    (each : ∀ ty ∈ types, ty.WellFormed)
    (alternative : Ty) :
    (∃ ty ∈ (ofMembers types).toList, alternative ∈ ty.alternatives) ↔
      ∃ ty ∈ types, alternative ∈ ty.alternatives := by
  rw [← mem_alternatives_ofMembers fun ty isType => (each ty isType).canonical]
  cases ofMembers types with
  | none => simp [alternatives]
  | some ty => simp

/-- Well-formed types form equal overload sets exactly if they offer the same alternatives. -/
theorem ofMembers_eq_iff
    {types others : List Ty}
    (each : ∀ ty ∈ types, ty.WellFormed)
    (othersEach : ∀ ty ∈ others, ty.WellFormed) :
    ofMembers types = ofMembers others ↔
      ∀ alternative,
        alternative ∈ types.flatMap alternatives ↔
          alternative ∈ others.flatMap alternatives := by
  simp only [List.mem_flatMap]
  constructor
  · intro same alternative
    rw [← mem_alternatives_of_mem_ofMembers each,
      ← mem_alternatives_of_mem_ofMembers othersEach, same]
  · exact ofMembers_congr

/-- The overload set of two lists is that of the overload sets of each. -/
theorem ofMembers_append
    {types others : List Ty}
    (each : ∀ ty ∈ types, ty.WellFormed)
    (othersEach : ∀ ty ∈ others, ty.WellFormed) :
    ofMembers (types ++ others) =
      ofMembers ((ofMembers types).toList ++ (ofMembers others).toList) := by
  refine ofMembers_congr fun alternative => ?_
  have ofTypes := mem_alternatives_of_mem_ofMembers each alternative
  have ofOthers := mem_alternatives_of_mem_ofMembers othersEach alternative
  simp only [List.mem_append, or_and_right, exists_or, ofTypes, ofOthers]

/--
The structural order is total and tells different types apart, and overload sets of
well-formed types only depend on the alternatives that the types offer.
-/
theorem structural_order_canonicalizes :
    ((∀ ty : Ty, ty.le ty) ∧
      (∀ left right : Ty, left.le right → right.le left → left = right) ∧
      (∀ first second third : Ty, first.le second → second.le third → first.le third) ∧
      (∀ left right : Ty, left.le right ∨ right.le left) ∧
      (∀ left right : Ty, left.compare right = .eq ↔ left = right) ∧
      (∀ left right : Ty, (left.compare right).swap = right.compare left)) ∧
    (∀ types others : List Ty,
      (∀ ty ∈ types, ty.WellFormed) →
      (∀ ty ∈ others, ty.WellFormed) →
      (ofMembers types = ofMembers others ↔
        ∀ alternative,
          alternative ∈ types.flatMap alternatives ↔
            alternative ∈ others.flatMap alternatives) ∧
      (types.Perm others → ofMembers types = ofMembers others) ∧
      ((∀ ty, ty ∈ types ↔ ty ∈ others) → ofMembers types = ofMembers others) ∧
      ofMembers (types ++ others) =
        ofMembers ((ofMembers types).toList ++ (ofMembers others).toList)) := by
  refine ⟨⟨le_refl, @le_antisymm, @le_trans, le_total, @compare_eq_iff, compare_swap⟩, ?_⟩
  intro types others each othersEach
  have sameMembers
      (same : ∀ ty, ty ∈ types ↔ ty ∈ others) :
      ofMembers types = ofMembers others :=
    ofMembers_congr fun alternative => by simp only [same]
  exact ⟨ofMembers_eq_iff each othersEach, fun perm => sameMembers fun ty => perm.mem_iff,
    sameMembers, ofMembers_append each othersEach⟩

/-- An overload set and one of its members again, against the members one by one. -/
theorem structural_order_canonicalizes_overloads :
    (∀ ty ∈ [union [float, int], float], ty.WellFormed) ∧
      (∀ ty ∈ [int, float, int], ty.WellFormed) ∧
      ofMembers [union [float, int], float] = ofMembers [int, float, int] ∧
      ofMembers [int, float, int] = some (union [float, int]) := by
  have overloads : ∀ ty ∈ [union [float, int], float], ty.WellFormed := by
    simp only [List.mem_cons, List.not_mem_nil, or_false]
    rintro ty (rfl | rfl)
    · refine .union (by decide) (by decide) (.cons_cons rfl (.singleton _)) ?_
      simp only [List.mem_cons, List.not_mem_nil, or_false]
      rintro member (rfl | rfl) <;> exact .primitive _
    · exact .primitive _
  have members : ∀ ty ∈ [int, float, int], ty.WellFormed := by
    simp only [List.mem_cons, List.not_mem_nil, or_false]
    rintro ty (rfl | rfl | rfl) <;> exact .primitive _
  have ofLists := structural_order_canonicalizes.2 _ _ overloads members
  refine ⟨overloads, members, ofLists.1.mpr fun alternative => ?_, by decide⟩
  simp only [List.flatMap_cons, alternatives, float, int, List.flatMap_nil, List.mem_append,
    List.mem_cons, List.not_mem_nil, or_false]
  tauto

end Ty

end ShaderTyping
