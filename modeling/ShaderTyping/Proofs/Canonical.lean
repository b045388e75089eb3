import Mathlib.Data.List.Chain
import ShaderTyping.Ty.Substitution

namespace ShaderTyping

/-!
# Canonical types and what a substitution leaves of a type

A type is canonical if its overload sets list different members, none of them an
overload set, in ascending order.  Substituting rebuilds overload sets, so the
result is canonical wherever the replacements are, and a substitution that
replaces nothing changes no canonical type.
-/

namespace Length

/-- Comparing lengths the other way round turns the result around. -/
theorem compare_swap (left right : Length) :
    (left.compare right).swap = right.compare left := by
  have natSwap (first second : Nat) :
      (Ord.compare first second).swap = Ord.compare second first :=
    Std.OrientedCmp.eq_swap.symm
  cases left <;> cases right <;> simp [compare, natSwap]

end Length

namespace Ty

/-- Comparing fields the other way round turns the result around. -/
theorem compareFields_swap
    {fields : List (String × Ty)}
    (each :
      ∀ field ∈ fields, ∀ right, (field.2.compare right).swap = right.compare field.2)
    (right : List (String × Ty)) :
    (compareFields fields right).swap = compareFields right fields := by
  induction fields generalizing right with
  | nil => cases right <;> rfl
  | cons field rest inductionHypothesis =>
      cases right with
      | nil => rfl
      | cons field' rest' =>
          have restSwap :=
            inductionHypothesis
              (fun other member => each other (List.mem_cons_of_mem _ member)) rest'
          have tySwap := each field List.mem_cons_self field'.2
          have labelSwap :
              (Ord.compare field.1 field'.1).swap = Ord.compare field'.1 field.1 :=
            Std.OrientedCmp.eq_swap.symm
          simp only [compareFields, Ordering.swap_then, labelSwap, tySwap, restSwap]

/-- Comparing members in the other order gives the opposite answer. -/
theorem compareMembers_swap
    {members : List Ty}
    (each :
      ∀ member ∈ members, ∀ right, (member.compare right).swap = right.compare member)
    (right : List Ty) :
    (compareMembers members right).swap = compareMembers right members := by
  induction members generalizing right with
  | nil => cases right <;> rfl
  | cons member rest inductionHypothesis =>
      cases right with
      | nil => rfl
      | cons member' rest' =>
          have restSwap :=
            inductionHypothesis
              (fun other isMember => each other (List.mem_cons_of_mem _ isMember)) rest'
          have memberSwap := each member List.mem_cons_self member'
          simp only [compareMembers, Ordering.swap_then, memberSwap, restSwap]

/-- Comparing types the other way round turns the result around. -/
theorem compare_swap (left right : Ty) :
    (left.compare right).swap = right.compare left := by
  have natSwap (first second : Nat) :
      (Ord.compare first second).swap = Ord.compare second first :=
    Std.OrientedCmp.eq_swap.symm
  have textSwap (first second : String) :
      (Ord.compare first second).swap = Ord.compare second first :=
    Std.OrientedCmp.eq_swap.symm
  induction left using Ty.induction generalizing right with
  | struct fields fieldsSwap =>
      cases right <;> simp only [compare, rank, natSwap]
      exact compareFields_swap (fun field member right => fieldsSwap field member right) _
  | union members membersSwap =>
      cases right <;> simp only [compare, rank, natSwap]
      exact compareMembers_swap
        (fun member isMember right => membersSwap member isMember right) _
  | array component length componentSwap =>
      cases right <;>
        simp only [compare, rank, natSwap, Ordering.swap_then, componentSwap,
          Length.compare_swap]
  | function param result paramSwap resultSwap =>
      cases right <;>
        simp only [compare, rank, natSwap, Ordering.swap_then, paramSwap, resultSwap]
  | primitive | named | placeholder | parametric =>
      cases right <;>
        simp only [compare, rank, natSwap, textSwap, Ordering.swap_then]

/-- Members in strictly ascending order. -/
def Ascending (members : List Ty) : Prop :=
  members.IsChain fun first second => first.compare second = .lt

/-- Inserting a member into ascending ones keeps them ascending. -/
theorem insertMember_ascending
    {members : List Ty}
    (ascending : Ascending members)
    (ty : Ty) :
    Ascending (insertMember ty members) := by
  induction members with
  | nil => exact .singleton ty
  | cons first rest inductionHypothesis =>
      unfold insertMember
      split
      · rename_i before
        exact .cons_cons before ascending
      · exact ascending
      · rename_i after
        have firstBefore : first.compare ty = .lt := by
          rw [← compare_swap, after]
          rfl
        have restAscending := inductionHypothesis ascending.tail
        -- What follows `first` now is either the new member or the old second one.
        cases rest with
        | nil => exact .cons_cons firstBefore (.singleton ty)
        | cons second rest =>
            have secondAfter : first.compare second = .lt :=
              (List.isChain_cons_cons.mp ascending).1
            unfold insertMember at restAscending ⊢
            split
            · rename_i tyBefore
              rw [tyBefore] at restAscending
              exact .cons_cons firstBefore restAscending
            · rename_i same
              rw [same] at restAscending
              exact .cons_cons secondAfter restAscending
            · rename_i tyAfter
              rw [tyAfter] at restAscending
              exact .cons_cons secondAfter restAscending

/-- The members of an overload set are listed in ascending order. -/
theorem canonicalMembers_ascending (types : List Ty) :
    Ascending (canonicalMembers types) := by
  unfold canonicalMembers
  induction types.flatMap alternatives with
  | nil => exact .nil
  | cons first rest inductionHypothesis => exact insertMember_ascending inductionHypothesis first

/-- Ascending members are inserted where they stand. -/
theorem foldr_insertMember
    {members : List Ty}
    (ascending : Ascending members) :
    members.foldr insertMember [] = members := by
  induction members with
  | nil => rfl
  | cons first rest inductionHypothesis =>
      rw [List.foldr_cons, inductionHypothesis ascending.tail]
      cases rest with
      | nil => rfl
      | cons second rest =>
          rw [insertMember, (List.isChain_cons_cons.mp ascending).1]

/-- Whether a type is an overload set. -/
def isUnion : Ty → Bool
  | .union _ => true
  | _ => false

/-- A type that is no overload set offers itself only. -/
theorem alternatives_of_not_union
    {ty : Ty}
    (single : ty.isUnion = false) :
    ty.alternatives = [ty] := by
  cases ty with
  | union => contradiction
  | _ => rfl

/--
A type whose overload sets are in the form that `ofMembers` gives them.

The overload set without members counts as canonical, the one with a single
member does not.
-/
inductive Canonical : Ty → Prop where
  | primitive (kind : Primitive) : Canonical (.primitive kind)
  | array {component : Ty} (length : Length) :
      Canonical component → Canonical (.array component length)
  | struct {fields : List (String × Ty)} :
      (∀ field ∈ fields, Canonical field.2) → Canonical (.struct fields)
  | function {param result : Ty} :
      Canonical param → Canonical result → Canonical (.function param result)
  | union {members : List Ty} :
      (∀ member ∈ members, Canonical member) →
      (∀ member ∈ members, member.isUnion = false) →
      Ascending members →
      members.length ≠ 1 →
      Canonical (.union members)
  | named (scope : ScopeId) (name : String) : Canonical (.named scope name)
  | placeholder (scope : ScopeId) (id : PlaceholderId) : Canonical (.placeholder scope id)
  | parametric (scope : ScopeId) (label : LabelId) : Canonical (.parametric scope label)

namespace Canonical

/-- The alternatives of a canonical type are canonical and no overload sets. -/
theorem alternatives
    {ty alternative : Ty}
    (canonical : Canonical ty)
    (offered : alternative ∈ ty.alternatives) :
    Canonical alternative ∧ alternative.isUnion = false := by
  cases form : ty.isUnion with
  | false =>
      rw [alternatives_of_not_union form] at offered
      cases List.mem_singleton.mp offered
      exact ⟨canonical, form⟩
  | true =>
      cases canonical with
      | union each single _ _ => exact ⟨each _ offered, single _ offered⟩
      | _ => contradiction

/-- Canonical types give a canonical overload set. -/
theorem ofMembers
    {types : List Ty}
    (each : ∀ ty ∈ types, Canonical ty) :
    Canonical ((Ty.ofMembers types).getD (.union [])) := by
  have members :
      ∀ member ∈ canonicalMembers types, Canonical member ∧ member.isUnion = false := by
    intro member inList
    obtain ⟨ty, isType, offered⟩ := mem_canonicalMembers.mp inList
    exact (each ty isType).alternatives offered
  have ascending := canonicalMembers_ascending types
  unfold Ty.ofMembers
  split
  · exact .union (by simp) (by simp) .nil (by simp)
  · rename_i only isOnly
    exact (members only (by simp [isOnly])).1
  · rename_i notNone notSingle
    refine .union (fun member inList => (members member inList).1)
      (fun member inList => (members member inList).2) ascending ?_
    intro isSingle
    obtain ⟨only, isOnly⟩ := List.length_eq_one_iff.mp isSingle
    exact notSingle only isOnly

/-- A canonical overload set is rebuilt as it is. -/
theorem ofMembers_eq
    {members : List Ty}
    (canonical : Canonical (.union members)) :
    (Ty.ofMembers members).getD (.union []) = .union members := by
  cases canonical with
  | union _ single ascending notSingle =>
      have flat : members.flatMap Ty.alternatives = members := by
        calc members.flatMap Ty.alternatives
            = members.flatMap fun member => [member] :=
              List.flatMap_congr fun member inList =>
                alternatives_of_not_union (single member inList)
          _ = members := List.flatMap_singleton' members
      unfold Ty.ofMembers canonicalMembers
      rw [flat, foldr_insertMember ascending]
      match members, notSingle with
      | [], _ => rfl
      | _ :: _ :: _, _ => rfl

end Canonical

/-! ## What a substitution reads and leaves -/

/-- The leaves of an array are those of its component. -/
@[simp] theorem leaves_array (component : Ty) (length : Length) :
    (array component length).leaves = component.leaves := by
  simp [leaves]

/-- The leaves of a struct are those of its fields. -/
@[simp] theorem leaves_struct (fields : List (String × Ty)) :
    (struct fields).leaves = fields.flatMap fun field => field.2.leaves := by
  simp [leaves]

/-- The leaves of a function are those of its parameter and its result. -/
@[simp] theorem leaves_function (param result : Ty) :
    (function param result).leaves = param.leaves ++ result.leaves := by
  simp [leaves]

/-- The leaves of an overload set are those of its members. -/
@[simp] theorem leaves_union (members : List Ty) :
    (union members).leaves = members.flatMap leaves :=
  collect_union _ _ members

/-- A primitive is a leaf. -/
@[simp] theorem leaves_primitive (kind : Primitive) :
    (primitive kind).leaves = [.primitive kind] := by
  simp [leaves]

/-- A reference is a leaf. -/
@[simp] theorem leaves_named (scope : ScopeId) (name : String) :
    (named scope name).leaves = [.named scope name] := by
  simp [leaves]

/-- A placeholder is a leaf. -/
@[simp] theorem leaves_placeholder (scope : ScopeId) (id : PlaceholderId) :
    (placeholder scope id).leaves = [.placeholder scope id] := by
  simp [leaves]

/-- A quantified type is a leaf. -/
@[simp] theorem leaves_parametric (scope : ScopeId) (label : LabelId) :
    (parametric scope label).leaves = [.parametric scope label] := by
  simp [leaves]

/-- The types that have no parts. -/
inductive IsLeaf : Ty → Prop where
  | primitive (kind : Primitive) : IsLeaf (.primitive kind)
  | named (scope : ScopeId) (name : String) : IsLeaf (.named scope name)
  | placeholder (scope : ScopeId) (id : PlaceholderId) : IsLeaf (.placeholder scope id)
  | parametric (scope : ScopeId) (label : LabelId) : IsLeaf (.parametric scope label)

/-- A leaf is its only leaf. -/
theorem IsLeaf.leaves_eq {leaf : Ty} (isLeaf : leaf.IsLeaf) : leaf.leaves = [leaf] := by
  cases isLeaf <;> simp

/-- The leaves of a type are leaves. -/
theorem isLeaf_of_mem_leaves
    {ty leaf : Ty}
    (member : leaf ∈ ty.leaves) :
    leaf.IsLeaf := by
  induction ty using Ty.induction with
  | array component length inductionHypothesis =>
      rw [leaves_array] at member
      exact inductionHypothesis member
  | struct fields inductionHypothesis =>
      rw [leaves_struct] at member
      obtain ⟨field, isField, inField⟩ := List.mem_flatMap.mp member
      exact inductionHypothesis field isField inField
  | function param result paramHypothesis resultHypothesis =>
      rw [leaves_function] at member
      exact (List.mem_append.mp member).elim paramHypothesis resultHypothesis
  | union members inductionHypothesis =>
      rw [leaves_union] at member
      obtain ⟨part, isMember, inMember⟩ := List.mem_flatMap.mp member
      exact inductionHypothesis part isMember inMember
  | primitive kind =>
      rw [leaves_primitive, List.mem_singleton] at member
      exact member ▸ .primitive kind
  | named scope name =>
      rw [leaves_named, List.mem_singleton] at member
      exact member ▸ .named scope name
  | placeholder scope id =>
      rw [leaves_placeholder, List.mem_singleton] at member
      exact member ▸ .placeholder scope id
  | parametric scope label =>
      rw [leaves_parametric, List.mem_singleton] at member
      exact member ▸ .parametric scope label

/-- Substitutions that agree on lengths and on the leaves of a type agree on the type. -/
theorem subst_congr
    {first second : Substitution}
    {ty : Ty}
    (sameLength : ∀ length, first.length length = second.length length)
    (sameLeaf : ∀ leaf ∈ ty.leaves, leaf.subst first = leaf.subst second) :
    ty.subst first = ty.subst second := by
  induction ty using Ty.induction with
  | array component length inductionHypothesis =>
      rw [leaves_array] at sameLeaf
      rw [subst_array, subst_array, inductionHypothesis sameLeaf, sameLength]
  | struct fields inductionHypothesis =>
      rw [leaves_struct] at sameLeaf
      rw [subst_struct, subst_struct]
      refine congrArg Ty.struct (List.map_congr_left fun field member => ?_)
      rw [inductionHypothesis field member fun leaf inField =>
        sameLeaf leaf (List.mem_flatMap.mpr ⟨field, member, inField⟩)]
  | function param result paramHypothesis resultHypothesis =>
      rw [leaves_function] at sameLeaf
      rw [subst_function, subst_function,
        paramHypothesis fun leaf member => sameLeaf leaf (List.mem_append_left _ member),
        resultHypothesis fun leaf member => sameLeaf leaf (List.mem_append_right _ member)]
  | union members inductionHypothesis =>
      rw [leaves_union] at sameLeaf
      rw [subst_union, subst_union]
      refine congrArg (fun rebuilt => (Ty.ofMembers rebuilt).getD (.union []))
        (List.map_congr_left fun member inList => ?_)
      exact inductionHypothesis member inList fun leaf inMember =>
        sameLeaf leaf (List.mem_flatMap.mpr ⟨member, inList, inMember⟩)
  | primitive | named | placeholder | parametric =>
      exact sameLeaf _ (by simp)

/-- Substituting gives a canonical type if the replacements are canonical. -/
theorem Canonical.subst
    {substitution : Substitution}
    {ty : Ty}
    (each : ∀ leaf ∈ ty.leaves, (leaf.subst substitution).Canonical) :
    (ty.subst substitution).Canonical := by
  induction ty using Ty.induction with
  | array component length inductionHypothesis =>
      rw [leaves_array] at each
      rw [subst_array]
      exact .array _ (inductionHypothesis each)
  | struct fields inductionHypothesis =>
      rw [leaves_struct] at each
      rw [subst_struct]
      refine .struct fun field member => ?_
      obtain ⟨original, isOriginal, rfl⟩ := List.mem_map.mp member
      exact inductionHypothesis original isOriginal fun leaf inField =>
        each leaf (List.mem_flatMap.mpr ⟨original, isOriginal, inField⟩)
  | function param result paramHypothesis resultHypothesis =>
      rw [leaves_function] at each
      rw [subst_function]
      exact .function
        (paramHypothesis fun leaf member => each leaf (List.mem_append_left _ member))
        (resultHypothesis fun leaf member => each leaf (List.mem_append_right _ member))
  | union members inductionHypothesis =>
      rw [leaves_union] at each
      rw [subst_union]
      refine .ofMembers fun ty member => ?_
      obtain ⟨original, isOriginal, rfl⟩ := List.mem_map.mp member
      exact inductionHypothesis original isOriginal fun leaf inMember =>
        each leaf (List.mem_flatMap.mpr ⟨original, isOriginal, inMember⟩)
  | primitive | named | placeholder | parametric =>
      exact each _ (by simp)

/-- A substitution that replaces nothing in a canonical type does not change it. -/
theorem Canonical.subst_eq_self
    {substitution : Substitution}
    {ty : Ty}
    (canonical : ty.Canonical)
    (keepsCounts : ∀ count, substitution.length (.known count) = .known count)
    (keepsLengths :
      ∀ id, Var.length id ∈ ty.vars → substitution.length (.var id) = .var id)
    (keepsLeaves : ∀ leaf ∈ ty.leaves, leaf.subst substitution = leaf) :
    ty.subst substitution = ty := by
  induction canonical with
  | @array component length _ inductionHypothesis =>
      simp only [vars, collect_array, List.mem_append] at keepsLengths
      have keepsLength : substitution.length length = length := by
        cases length with
        | known count => exact keepsCounts count
        | var id => exact keepsLengths id (Or.inr (by simp [lengthVars]))
      rw [subst_array, keepsLength,
        inductionHypothesis (fun id member => keepsLengths id (Or.inl member)) keepsLeaves]
  | @struct fields _ inductionHypothesis =>
      simp only [vars, collect_struct, List.mem_flatMap] at keepsLengths
      rw [leaves_struct] at keepsLeaves
      rw [subst_struct]
      refine congrArg Ty.struct
        ((List.map_congr_left fun field member => ?_).trans (List.map_id fields))
      rw [inductionHypothesis field member
        (fun id inField => keepsLengths id ⟨field, member, inField⟩)
        fun leaf inField => keepsLeaves leaf (List.mem_flatMap.mpr ⟨field, member, inField⟩)]
      rfl
  | function _ _ paramHypothesis resultHypothesis =>
      simp only [vars, collect_function, List.mem_append] at keepsLengths
      rw [leaves_function] at keepsLeaves
      rw [subst_function,
        paramHypothesis (fun id member => keepsLengths id (Or.inl member))
          fun leaf member => keepsLeaves leaf (List.mem_append_left _ member),
        resultHypothesis (fun id member => keepsLengths id (Or.inr member))
          fun leaf member => keepsLeaves leaf (List.mem_append_right _ member)]
  | @union members each single ascending notSingle inductionHypothesis =>
      simp only [vars, collect_union, List.mem_flatMap] at keepsLengths
      rw [leaves_union] at keepsLeaves
      have same :
          members.map (fun member => member.subst substitution) = members := by
        refine (List.map_congr_left fun member inList => ?_).trans (List.map_id members)
        exact inductionHypothesis member inList
          (fun id inMember => keepsLengths id ⟨member, inList, inMember⟩)
          fun leaf inMember => keepsLeaves leaf (List.mem_flatMap.mpr ⟨member, inList, inMember⟩)
      rw [subst_union, same]
      exact (Canonical.union each single ascending notSingle).ofMembers_eq
  | primitive | named | placeholder | parametric =>
      exact keepsLeaves _ (by simp)

/-- Rebuilding an overload set adds no variable and no leaf. -/
theorem mem_collect_ofMembers
    {leaf : Ty → List α}
    {length : Length → List α}
    {types : List Ty}
    {item : α}
    (member : item ∈ ((ofMembers types).getD (.union [])).collect leaf length) :
    ∃ ty ∈ types, item ∈ ty.collect leaf length := by
  have fromAlternative :
      ∀ candidate ∈ canonicalMembers types, item ∈ candidate.collect leaf length →
        ∃ ty ∈ types, item ∈ ty.collect leaf length := by
    intro candidate inList inCandidate
    obtain ⟨ty, isType, offered⟩ := mem_canonicalMembers.mp inList
    refine ⟨ty, isType, ?_⟩
    cases form : ty.isUnion with
    | false =>
        rw [alternatives_of_not_union form] at offered
        cases List.mem_singleton.mp offered
        exact inCandidate
    | true =>
        cases ty with
        | union members =>
            simp only [collect_union, List.mem_flatMap]
            exact ⟨candidate, offered, inCandidate⟩
        | _ => contradiction
  unfold ofMembers at member
  split at member
  · simp at member
  · rename_i only isOnly
    exact fromAlternative only (by simp [isOnly]) member
  · simp only [Option.getD_some, collect_union, List.mem_flatMap] at member
    obtain ⟨candidate, inList, inCandidate⟩ := member
    exact fromAlternative candidate inList inCandidate

/-- The variables of a substituted type come from the replacements. -/
theorem mem_vars_subst
    {substitution : Substitution}
    {ty : Ty}
    {var : Var}
    (member : var ∈ (ty.subst substitution).vars) :
    (∃ leaf ∈ ty.leaves, var ∈ (leaf.subst substitution).vars) ∨
      ∃ length, var ∈ lengthVars (substitution.length length) := by
  induction ty using Ty.induction with
  | array component length inductionHypothesis =>
      simp only [subst_array, vars, collect_array, List.mem_append] at member
      rcases member with inComponent | inLength
      · rw [leaves_array]
        exact inductionHypothesis inComponent
      · exact Or.inr ⟨length, inLength⟩
  | struct fields inductionHypothesis =>
      simp only [subst_struct, vars, collect_struct, List.mem_flatMap, List.mem_map] at member
      obtain ⟨_, ⟨field, isField, rfl⟩, inField⟩ := member
      rcases inductionHypothesis field isField inField with ⟨leaf, inLeaves, found⟩ | found
      · rw [leaves_struct]
        exact Or.inl ⟨leaf, List.mem_flatMap.mpr ⟨field, isField, inLeaves⟩, found⟩
      · exact Or.inr found
  | function param result paramHypothesis resultHypothesis =>
      simp only [subst_function, vars, collect_function, List.mem_append] at member
      rw [leaves_function]
      rcases member with inParam | inResult
      · rcases paramHypothesis inParam with ⟨leaf, inLeaves, found⟩ | found
        · exact Or.inl ⟨leaf, List.mem_append_left _ inLeaves, found⟩
        · exact Or.inr found
      · rcases resultHypothesis inResult with ⟨leaf, inLeaves, found⟩ | found
        · exact Or.inl ⟨leaf, List.mem_append_right _ inLeaves, found⟩
        · exact Or.inr found
  | union members inductionHypothesis =>
      rw [subst_union] at member
      obtain ⟨rebuilt, isRebuilt, inRebuilt⟩ := mem_collect_ofMembers member
      obtain ⟨original, isMember, rfl⟩ := List.mem_map.mp isRebuilt
      rcases inductionHypothesis original isMember inRebuilt with
        ⟨leaf, inLeaves, found⟩ | found
      · rw [leaves_union]
        exact Or.inl ⟨leaf, List.mem_flatMap.mpr ⟨original, isMember, inLeaves⟩, found⟩
      · exact Or.inr found
  | primitive | named | placeholder | parametric =>
      exact Or.inl ⟨_, by simp, member⟩

end Ty

end ShaderTyping
