import ShaderTyping.Proofs.Canonical

namespace ShaderTyping

/-!
# Substitutions one after the other

Substituting rebuilds overload sets, and rebuilding twice looks different from
rebuilding once: members are flattened, sorted and merged in between.  The outcome
is the same all the same, because a canonical overload set is determined by the
alternatives that it offers.  That rests on the structural order being transitive,
which makes ascending lists with the same members equal.
-/

/-- Comparing by one part and then by the rest is transitive if both comparisons are. -/
theorem then_lt_trans
    (compare : α → α → Ordering)
    (same : ∀ {left right}, compare left right = .eq → left = right)
    {first second third : α}
    (partTrans :
      compare first second = .lt → compare second third = .lt → compare first third = .lt)
    {firstSecond secondThird firstThird : Ordering}
    (restTrans : firstSecond = .lt → secondThird = .lt → firstThird = .lt)
    (before : (compare first second).then firstSecond = .lt)
    (after : (compare second third).then secondThird = .lt) :
    (compare first third).then firstThird = .lt := by
  rw [Ordering.then_eq_lt] at before after ⊢
  rcases before with partBefore | ⟨partSame, restBefore⟩
  · rcases after with partAfter | ⟨partSame, _⟩
    · exact Or.inl (partTrans partBefore partAfter)
    · exact Or.inl (same partSame ▸ partBefore)
  · cases same partSame
    rcases after with partAfter | ⟨partSame, restAfter⟩
    · exact Or.inl partAfter
    · exact Or.inr ⟨partSame, restTrans restBefore restAfter⟩

/-- Comparing by a first key and then by a second one is transitive. -/
theorem ordThen_lt_trans
    [Ord α] [Std.TransOrd α] [Std.LawfulEqOrd α]
    {first second third : α}
    {firstSecond secondThird firstThird : Ordering}
    (restTrans : firstSecond = .lt → secondThird = .lt → firstThird = .lt)
    (before : (compare first second).then firstSecond = .lt)
    (after : (compare second third).then secondThird = .lt) :
    (compare first third).then firstThird = .lt :=
  then_lt_trans Ord.compare (fun equal => Std.LawfulEqOrd.eq_of_compare equal)
    (fun partBefore partAfter => Std.TransCmp.lt_trans partBefore partAfter)
    restTrans before after

/-- Comparing lengths is transitive. -/
theorem Length.compare_lt_trans
    {first second third : Length}
    (before : first.compare second = .lt)
    (after : second.compare third = .lt) :
    first.compare third = .lt := by
  cases first <;> cases second <;> cases third <;>
    simp only [Length.compare, Nat.compare_eq_lt, reduceCtorEq] at before after ⊢ <;> omega

namespace Ty

/-- Types of different kinds compare by their kinds. -/
theorem compare_of_rank_ne
    {left right : Ty}
    (different : left.rank ≠ right.rank) :
    left.compare right = Ord.compare left.rank right.rank := by
  cases left <;> cases right <;>
    first
      | rfl
      | exact absurd rfl different

/-- A smaller type has no higher rank: constructors are compared first. -/
theorem rank_le_of_compare
    {left right : Ty}
    (before : left.compare right = .lt) :
    left.rank ≤ right.rank := by
  by_cases same : left.rank = right.rank
  · exact same.le
  · rw [compare_of_rank_ne same, Nat.compare_eq_lt] at before
    exact before.le

/-- Comparing fields is transitive if comparing their types is. -/
theorem compareFields_lt_trans
    {fields second third : List (String × Ty)}
    (each :
      ∀ field ∈ fields, ∀ {second third : Ty},
        field.2.compare second = .lt →
        second.compare third = .lt →
        field.2.compare third = .lt)
    (before : compareFields fields second = .lt)
    (after : compareFields second third = .lt) :
    compareFields fields third = .lt := by
  induction fields generalizing second third with
  | nil =>
      cases third with
      | nil => cases second <;> contradiction
      | cons field rest => rfl
  | cons field rest inductionHypothesis =>
      cases second with
      | nil => contradiction
      | cons secondField secondRest =>
          cases third with
          | nil => contradiction
          | cons thirdField thirdRest =>
              rw [compareFields] at before after ⊢
              refine ordThen_lt_trans ?_ before after
              refine then_lt_trans compare compare_eq_iff.mp (each field List.mem_cons_self) ?_
              exact inductionHypothesis fun other member =>
                each other (List.mem_cons_of_mem _ member)

/-- Comparing members is transitive if comparing each of them is. -/
theorem compareMembers_lt_trans
    {members second third : List Ty}
    (each :
      ∀ member ∈ members, ∀ {second third : Ty},
        member.compare second = .lt →
        second.compare third = .lt →
        member.compare third = .lt)
    (before : compareMembers members second = .lt)
    (after : compareMembers second third = .lt) :
    compareMembers members third = .lt := by
  induction members generalizing second third with
  | nil =>
      cases third with
      | nil => cases second <;> contradiction
      | cons member rest => rfl
  | cons member rest inductionHypothesis =>
      cases second with
      | nil => contradiction
      | cons secondMember secondRest =>
          cases third with
          | nil => contradiction
          | cons thirdMember thirdRest =>
              refine then_lt_trans compare compare_eq_iff.mp (each member List.mem_cons_self) ?_
                before after
              exact inductionHypothesis fun other isMember =>
                each other (List.mem_cons_of_mem _ isMember)

/-- Types that are not all of one kind compare by their kinds. -/
theorem compare_lt_trans_of_rank
    {first second third : Ty}
    (oneKind :
      first.rank = second.rank → second.rank = third.rank → first.compare third = .lt)
    (before : first.compare second = .lt)
    (after : second.compare third = .lt) :
    first.compare third = .lt := by
  have firstLe := rank_le_of_compare before
  have secondLe := rank_le_of_compare after
  by_cases same : first.rank = second.rank ∧ second.rank = third.rank
  · exact oneKind same.1 same.2
  · rw [compare_of_rank_ne (by omega), Nat.compare_eq_lt]
    omega

/-- The structural order is transitive. -/
theorem compare_lt_trans
    {first second third : Ty}
    (before : first.compare second = .lt)
    (after : second.compare third = .lt) :
    first.compare third = .lt := by
  induction first using Ty.induction generalizing second third with
  | primitive kind =>
      refine compare_lt_trans_of_rank (fun firstKind secondKind => ?_) before after
      cases second <;> simp [rank] at firstKind
      cases third <;> simp [rank] at secondKind
      rw [compare] at before after ⊢
      exact Std.TransCmp.lt_trans before after
  | array component length inductionHypothesis =>
      refine compare_lt_trans_of_rank (fun firstKind secondKind => ?_) before after
      cases second <;> simp [rank] at firstKind
      cases third <;> simp [rank] at secondKind
      rw [compare] at before after ⊢
      exact then_lt_trans compare compare_eq_iff.mp inductionHypothesis Length.compare_lt_trans
        before after
  | struct fields inductionHypothesis =>
      refine compare_lt_trans_of_rank (fun firstKind secondKind => ?_) before after
      cases second <;> simp [rank] at firstKind
      cases third <;> simp [rank] at secondKind
      rw [compare] at before after ⊢
      exact compareFields_lt_trans inductionHypothesis before after
  | function param result paramHypothesis resultHypothesis =>
      refine compare_lt_trans_of_rank (fun firstKind secondKind => ?_) before after
      cases second <;> simp [rank] at firstKind
      cases third <;> simp [rank] at secondKind
      rw [compare] at before after ⊢
      exact then_lt_trans compare compare_eq_iff.mp paramHypothesis resultHypothesis before after
  | union members inductionHypothesis =>
      refine compare_lt_trans_of_rank (fun firstKind secondKind => ?_) before after
      cases second <;> simp [rank] at firstKind
      cases third <;> simp [rank] at secondKind
      rw [compare] at before after ⊢
      exact compareMembers_lt_trans inductionHypothesis before after
  | named scope name =>
      refine compare_lt_trans_of_rank (fun firstKind secondKind => ?_) before after
      cases second <;> simp [rank] at firstKind
      cases third <;> simp [rank] at secondKind
      rw [compare] at before after ⊢
      exact ordThen_lt_trans Std.TransCmp.lt_trans before after
  | placeholder scope id =>
      refine compare_lt_trans_of_rank (fun firstKind secondKind => ?_) before after
      cases second <;> simp [rank] at firstKind
      cases third <;> simp [rank] at secondKind
      rw [compare] at before after ⊢
      exact ordThen_lt_trans Std.TransCmp.lt_trans before after
  | parametric scope label =>
      refine compare_lt_trans_of_rank (fun firstKind secondKind => ?_) before after
      cases second <;> simp [rank] at firstKind
      cases third <;> simp [rank] at secondKind
      rw [compare] at before after ⊢
      exact ordThen_lt_trans Std.TransCmp.lt_trans before after

/-- The first of ascending members comes before all others. -/
theorem Ascending.head_lt
    {first other : Ty}
    {rest : List Ty}
    (ascending : Ascending (first :: rest))
    (member : other ∈ rest) :
    first.compare other = .lt := by
  induction rest generalizing first with
  | nil => contradiction
  | cons second rest inductionHypothesis =>
      obtain ⟨before, restAscending⟩ := List.isChain_cons_cons.mp ascending
      rcases List.mem_cons.mp member with same | inRest
      · exact same ▸ before
      · exact compare_lt_trans before (inductionHypothesis restAscending inRest)

/-- In an ascending list no member comes twice. -/
theorem Ascending.not_mem_tail
    {first : Ty}
    {rest : List Ty}
    (ascending : Ascending (first :: rest)) :
    first ∉ rest := by
  intro member
  have before := ascending.head_lt member
  rw [compare_eq_iff.mpr rfl] at before
  contradiction

/-- Ascending lists with the same members are equal. -/
theorem Ascending.eq_of_mem_iff
    {members others : List Ty}
    (ascending : Ascending members)
    (othersAscending : Ascending others)
    (same : ∀ member, member ∈ members ↔ member ∈ others) :
    members = others := by
  induction members generalizing others with
  | nil =>
      cases others with
      | nil => rfl
      | cons other rest => exact absurd ((same other).mpr List.mem_cons_self) List.not_mem_nil
  | cons first rest inductionHypothesis =>
      cases others with
      | nil => exact absurd ((same first).mp List.mem_cons_self) List.not_mem_nil
      | cons other otherRest =>
          -- Each of the two first members is the least one of the common members.
          have sameFirst : first = other := by
            by_contra different
            have firstLater :=
              (List.mem_cons.mp ((same first).mp List.mem_cons_self)).resolve_left different
            have otherLater :=
              (List.mem_cons.mp ((same other).mpr List.mem_cons_self)).resolve_left
                (Ne.symm different)
            have around :=
              compare_lt_trans (ascending.head_lt otherLater) (othersAscending.head_lt firstLater)
            rw [compare_eq_iff.mpr rfl] at around
            contradiction
          subst sameFirst
          refine congrArg (first :: ·) (inductionHypothesis ascending.tail othersAscending.tail ?_)
          intro member
          have sameMember := same member
          rw [List.mem_cons, List.mem_cons] at sameMember
          by_cases isFirst : member = first
          · subst isFirst
            exact iff_of_false ascending.not_mem_tail othersAscending.not_mem_tail
          · simpa [isFirst] using sameMember

/-! ## Alternatives -/

/-- Types that offer the same alternatives form the same overload set. -/
theorem ofMembers_congr
    {types others : List Ty}
    (same :
      ∀ alternative,
        (∃ ty ∈ types, alternative ∈ ty.alternatives) ↔
          ∃ ty ∈ others, alternative ∈ ty.alternatives) :
    ofMembers types = ofMembers others := by
  have sameMembers : canonicalMembers types = canonicalMembers others := by
    refine (canonicalMembers_ascending types).eq_of_mem_iff
      (canonicalMembers_ascending others) fun member => ?_
    rw [mem_canonicalMembers, mem_canonicalMembers]
    exact same member
  rw [ofMembers, ofMembers, sameMembers]

/-- The overload set of canonical types offers what they offer. -/
theorem mem_alternatives_ofMembers
    {types : List Ty}
    (each : ∀ ty ∈ types, Canonical ty)
    {alternative : Ty} :
    alternative ∈ ((ofMembers types).getD (.union [])).alternatives ↔
      ∃ ty ∈ types, alternative ∈ ty.alternatives := by
  rw [← mem_canonicalMembers, ofMembers]
  split
  · rename_i isEmpty
    simp [isEmpty, alternatives]
  · rename_i only isOnly
    obtain ⟨ty, isType, offered⟩ :=
      mem_canonicalMembers.mp (isOnly ▸ List.mem_singleton_self only)
    have single := ((each ty isType).alternatives offered).2
    rw [isOnly, Option.getD_some, alternatives_of_not_union single]
  · rfl

/-- The overload set of one canonical type is that type. -/
theorem Canonical.ofMembers_singleton
    {ty : Ty}
    (canonical : Canonical ty) :
    (Ty.ofMembers [ty]).getD (.union []) = ty := by
  cases form : ty.isUnion with
  | false =>
      rw [Ty.ofMembers, canonicalMembers, List.flatMap_singleton, alternatives_of_not_union form]
      rfl
  | true =>
      cases ty with
      | union members =>
          rw [← canonical.ofMembers_eq]
          refine congrArg (Option.getD · _) (ofMembers_congr fun alternative => ?_)
          rw [canonical.ofMembers_eq]
          have single : ∀ member ∈ members, member.alternatives = [member] :=
            fun member isMember =>
              alternatives_of_not_union (canonical.alternatives isMember).2
          simp only [List.mem_singleton, exists_eq_left]
          constructor
          · exact fun offered => ⟨alternative, offered, by simp [single alternative offered]⟩
          · rintro ⟨member, isMember, offered⟩
            rw [single member isMember, List.mem_singleton] at offered
            exact offered ▸ isMember
      | _ => contradiction

end Ty

/-! ## Composition -/

namespace Substitution

/-- Whether a substitution puts canonical types. -/
def IsCanonical (substitution : Substitution) : Prop :=
  ∀ {leaf : Ty}, leaf.IsLeaf → (leaf.subst substitution).Canonical

/-- What two substitutions put one after the other. -/
def andThen (first second : Substitution) : Substitution where
  named scope name := Ty.subst second (first.named scope name)
  placeholder scope id := Ty.subst second (first.placeholder scope id)
  parametric scope label := Ty.subst second (first.parametric scope label)
  length length := second.length (first.length length)

/-- A substitution that puts in canonical types makes canonical types. -/
theorem IsCanonical.subst
    {substitution : Substitution}
    (canonical : substitution.IsCanonical)
    (ty : Ty) :
    (ty.subst substitution).Canonical :=
  Ty.Canonical.subst fun _ isLeaf => canonical (Ty.isLeaf_of_mem_leaves isLeaf)

end Substitution

namespace Ty

variable {substitution : Substitution}

/-- A substituted type offers what its substituted alternatives offer. -/
theorem mem_alternatives_subst
    (canonical : substitution.IsCanonical)
    {ty offered : Ty} :
    offered ∈ (ty.subst substitution).alternatives ↔
      ∃ alternative ∈ ty.alternatives, offered ∈ (alternative.subst substitution).alternatives := by
  cases form : ty.isUnion with
  | false =>
      rw [alternatives_of_not_union form]
      simp
  | true =>
      cases ty with
      | union members =>
          rw [subst_union, mem_alternatives_ofMembers]
          · simp [alternatives]
          · intro rebuilt isRebuilt
            obtain ⟨member, _, rfl⟩ := List.mem_map.mp isRebuilt
            exact canonical.subst member
      | _ => contradiction

/-- Substituting in an overload set is substituting in the types that form it. -/
theorem subst_ofMembers
    (canonical : substitution.IsCanonical)
    (types : List Ty) :
    ((ofMembers types).getD (.union [])).subst substitution =
      (ofMembers (types.map (subst substitution))).getD (.union []) := by
  have sameOffer :
      ofMembers ((canonicalMembers types).map (subst substitution)) =
        ofMembers (types.map (subst substitution)) := by
    refine ofMembers_congr fun offered => ?_
    simp only [List.mem_map, exists_exists_and_eq_and, mem_canonicalMembers]
    constructor
    · rintro ⟨alternative, ⟨ty, isType, isAlternative⟩, isOffered⟩
      exact ⟨ty, isType, (mem_alternatives_subst canonical).mpr
        ⟨alternative, isAlternative, isOffered⟩⟩
    · rintro ⟨ty, isType, isOffered⟩
      obtain ⟨alternative, isAlternative, inAlternative⟩ :=
        (mem_alternatives_subst canonical).mp isOffered
      exact ⟨alternative, ⟨ty, isType, isAlternative⟩, inAlternative⟩
  rw [← sameOffer, ofMembers]
  split
  · rename_i isEmpty
    rw [isEmpty]
    rfl
  · rename_i only isOnly
    rw [isOnly]
    exact (canonical.subst only).ofMembers_singleton.symm
  · rw [Option.getD_some, subst_union]

/-- Two substitutions one after the other are one substitution. -/
theorem subst_subst
    {first second : Substitution}
    (canonical : second.IsCanonical)
    (ty : Ty) :
    (ty.subst first).subst second = ty.subst (first.andThen second) := by
  induction ty using Ty.induction with
  | array component length inductionHypothesis =>
      rw [subst_array, subst_array, subst_array, inductionHypothesis]
      rfl
  | struct fields inductionHypothesis =>
      rw [subst_struct, subst_struct, subst_struct, List.map_map]
      refine congrArg Ty.struct (List.map_congr_left fun field isField => ?_)
      exact congrArg (Prod.mk field.1) (inductionHypothesis field isField)
  | function param result paramHypothesis resultHypothesis =>
      rw [subst_function, subst_function, subst_function, paramHypothesis, resultHypothesis]
  | union members inductionHypothesis =>
      rw [subst_union, subst_ofMembers canonical, subst_union, List.map_map]
      refine congrArg (fun rebuilt => (ofMembers rebuilt).getD (.union [])) ?_
      exact List.map_congr_left inductionHypothesis
  | primitive | named | placeholder | parametric => rfl

/-! ## Leaves and lengths of a substituted type -/

/-- The array lengths of a type, from left to right. -/
def lengths (ty : Ty) : List Length :=
  ty.collect (fun _ => []) fun length => [length]

/-- The lengths of an array are those of its component and its own. -/
@[simp] theorem lengths_array (component : Ty) (length : Length) :
    (array component length).lengths = component.lengths ++ [length] := by
  simp [lengths]

/-- The lengths of a struct are those of its fields. -/
@[simp] theorem lengths_struct (fields : List (String × Ty)) :
    (struct fields).lengths = fields.flatMap fun field => field.2.lengths := by
  simp [lengths]

/-- The lengths of a function are those of its parameter and its result. -/
@[simp] theorem lengths_function (param result : Ty) :
    (function param result).lengths = param.lengths ++ result.lengths := by
  simp [lengths]

/-- The lengths of an overload set are those of its members. -/
@[simp] theorem lengths_union (members : List Ty) :
    (union members).lengths = members.flatMap lengths :=
  collect_union _ _ members

/-- A leaf has no length. -/
theorem IsLeaf.lengths_eq_nil {leaf : Ty} (isLeaf : leaf.IsLeaf) : leaf.lengths = [] := by
  cases isLeaf <;> simp [lengths]

/-- A leaf is in canonical form. -/
theorem IsLeaf.canonical {leaf : Ty} (isLeaf : leaf.IsLeaf) : leaf.Canonical := by
  cases isLeaf with
  | primitive kind => exact .primitive kind
  | named scope name => exact .named scope name
  | placeholder scope id => exact .placeholder scope id
  | parametric scope label => exact .parametric scope label

/-- What items contribute in one of two ways, their parts contribute. -/
theorem exists_mem_flatMap_or
    {items : List ι}
    {holds : ι → Prop}
    {first : ι → List α}
    {second : ι → List β}
    {inFirst : α → Prop}
    {inSecond : β → Prop}
    (each :
      ∀ item ∈ items,
        (holds item ↔
          (∃ part ∈ first item, inFirst part) ∨ ∃ part ∈ second item, inSecond part)) :
    (∃ item ∈ items, holds item) ↔
      (∃ part ∈ items.flatMap first, inFirst part) ∨
        ∃ part ∈ items.flatMap second, inSecond part := by
  simp only [List.mem_flatMap]
  constructor
  · rintro ⟨item, isItem, itemHolds⟩
    rcases (each item isItem).mp itemHolds with ⟨part, isPart, inPart⟩ | ⟨part, isPart, inPart⟩
    · exact Or.inl ⟨part, ⟨item, isItem, isPart⟩, inPart⟩
    · exact Or.inr ⟨part, ⟨item, isItem, isPart⟩, inPart⟩
  · rintro (⟨part, ⟨item, isItem, isPart⟩, inPart⟩ | ⟨part, ⟨item, isItem, isPart⟩, inPart⟩)
    · exact ⟨item, isItem, (each item isItem).mpr (Or.inl ⟨part, isPart, inPart⟩)⟩
    · exact ⟨item, isItem, (each item isItem).mpr (Or.inr ⟨part, isPart, inPart⟩)⟩

/-- What a type contributes is what its leaves and its lengths contribute. -/
theorem mem_collect_iff
    {leaf : Ty → List α}
    {length : Length → List α}
    {ty : Ty}
    {item : α} :
    item ∈ ty.collect leaf length ↔
      (∃ part ∈ ty.leaves, item ∈ leaf part) ∨ ∃ bound ∈ ty.lengths, item ∈ length bound := by
  induction ty using Ty.induction with
  | array component bound inductionHypothesis =>
      rw [collect_array, leaves_array, lengths_array, List.mem_append, inductionHypothesis]
      simp [or_and_right, exists_or, or_assoc]
  | struct fields inductionHypothesis =>
      rw [collect_struct, leaves_struct, lengths_struct, List.mem_flatMap]
      exact exists_mem_flatMap_or inductionHypothesis
  | function param result paramHypothesis resultHypothesis =>
      rw [collect_function, leaves_function, lengths_function, List.mem_append, paramHypothesis,
        resultHypothesis]
      simp only [List.mem_append, or_and_right, exists_or]
      exact or_or_or_comm
  | union members inductionHypothesis =>
      rw [collect_union, leaves_union, lengths_union, List.mem_flatMap]
      exact exists_mem_flatMap_or inductionHypothesis
  | primitive | named | placeholder | parametric => simp [lengths]

/-- Rebuilding an overload set keeps what its members contribute. -/
theorem mem_collect_ofMembers_iff
    {leaf : Ty → List α}
    {length : Length → List α}
    {types : List Ty}
    {item : α} :
    item ∈ ((ofMembers types).getD (.union [])).collect leaf length ↔
      ∃ ty ∈ types, item ∈ ty.collect leaf length := by
  refine ⟨mem_collect_ofMembers, ?_⟩
  rintro ⟨ty, isType, inType⟩
  obtain ⟨alternative, isAlternative, inAlternative⟩ :
      ∃ alternative ∈ ty.alternatives, item ∈ alternative.collect leaf length := by
    cases form : ty.isUnion with
    | false => exact ⟨ty, by simp [alternatives_of_not_union form], inType⟩
    | true =>
        cases ty with
        | union members =>
            rw [collect_union] at inType
            exact List.mem_flatMap.mp inType
        | _ => contradiction
  have isMember : alternative ∈ canonicalMembers types :=
    mem_canonicalMembers.mpr ⟨ty, isType, isAlternative⟩
  unfold ofMembers
  split
  · rename_i isEmpty
    simp [isEmpty] at isMember
  · rename_i only isOnly
    rw [isOnly, List.mem_singleton] at isMember
    exact isMember ▸ inAlternative
  · rw [Option.getD_some, collect_union]
    exact List.mem_flatMap.mpr ⟨alternative, isMember, inAlternative⟩

/-- A substituted type contributes what the replacements contribute. -/
theorem mem_collect_subst_iff
    {leaf : Ty → List α}
    {length : Length → List α}
    {ty : Ty}
    {item : α} :
    item ∈ (ty.subst substitution).collect leaf length ↔
      (∃ part ∈ ty.leaves, item ∈ (part.subst substitution).collect leaf length) ∨
        ∃ bound ∈ ty.lengths, item ∈ length (substitution.length bound) := by
  induction ty using Ty.induction with
  | array component bound inductionHypothesis =>
      rw [subst_array, collect_array, leaves_array, lengths_array, List.mem_append,
        inductionHypothesis]
      simp [or_and_right, exists_or, or_assoc]
  | struct fields inductionHypothesis =>
      rw [subst_struct, collect_struct, leaves_struct, lengths_struct, List.flatMap_map,
        List.mem_flatMap]
      exact exists_mem_flatMap_or inductionHypothesis
  | function param result paramHypothesis resultHypothesis =>
      rw [subst_function, collect_function, leaves_function, lengths_function, List.mem_append,
        paramHypothesis, resultHypothesis]
      simp only [List.mem_append, or_and_right, exists_or]
      exact or_or_or_comm
  | union members inductionHypothesis =>
      rw [subst_union, mem_collect_ofMembers_iff, leaves_union, lengths_union]
      simp only [List.mem_map, exists_exists_and_eq_and]
      exact exists_mem_flatMap_or inductionHypothesis
  | primitive => simp [lengths]
  | named | placeholder | parametric => simp [lengths]

/-- The leaves of a substituted type are those of the replacements. -/
theorem mem_leaves_subst_iff {ty leaf : Ty} :
    leaf ∈ (ty.subst substitution).leaves ↔
      ∃ part ∈ ty.leaves, leaf ∈ (part.subst substitution).leaves := by
  rw [leaves, mem_collect_subst_iff]
  simp only [List.not_mem_nil, and_false, exists_false, or_false]
  rfl

/-- The lengths of a substituted type are those of the replacements and the replaced ones. -/
theorem mem_lengths_subst_iff {ty : Ty} {length : Length} :
    length ∈ (ty.subst substitution).lengths ↔
      (∃ part ∈ ty.leaves, length ∈ (part.subst substitution).lengths) ∨
        ∃ bound ∈ ty.lengths, length = substitution.length bound := by
  rw [lengths, mem_collect_subst_iff]
  simp only [List.mem_singleton]
  rfl

/-- A length variable is a variable of a type exactly if it is one of its lengths. -/
theorem length_mem_vars_iff {ty : Ty} {id : LengthId} :
    Var.length id ∈ ty.vars ↔ Length.var id ∈ ty.lengths := by
  rw [vars, mem_collect_iff]
  constructor
  · rintro (⟨leaf, isLeaf, inLeaf⟩ | ⟨length, isLength, inLength⟩)
    · cases isLeaf_of_mem_leaves isLeaf <;> simp [leafVars] at inLeaf
    · cases length with
      | known count => simp [lengthVars] at inLength
      | var other =>
          simp only [lengthVars, List.mem_singleton, Var.length.injEq] at inLength
          exact inLength ▸ isLength
  · exact fun isLength => Or.inr ⟨_, isLength, by simp [lengthVars]⟩

/-- A parametric type is a variable of a type exactly if it is one of its leaves. -/
theorem parametric_mem_vars_iff {ty : Ty} {scope : ScopeId} {label : LabelId} :
    Var.parametric scope label ∈ ty.vars ↔ .parametric scope label ∈ ty.leaves := by
  rw [vars, mem_collect_iff]
  constructor
  · rintro (⟨leaf, isLeaf, inLeaf⟩ | ⟨length, isLength, inLength⟩)
    · cases isLeaf_of_mem_leaves isLeaf <;> simp [leafVars] at inLeaf
      obtain ⟨rfl, rfl⟩ := inLeaf
      exact isLeaf
    · cases length <;> simp [lengthVars] at inLength
  · exact fun isLeaf => Or.inl ⟨_, isLeaf, by simp [leafVars]⟩

/-- Substitutions that agree on the lengths and leaves of a type agree on the type. -/
theorem subst_congr_of_mem
    {first second : Substitution}
    {ty : Ty}
    (sameLength : ∀ length ∈ ty.lengths, first.length length = second.length length)
    (sameLeaf : ∀ leaf ∈ ty.leaves, leaf.subst first = leaf.subst second) :
    ty.subst first = ty.subst second := by
  induction ty using Ty.induction with
  | array component length inductionHypothesis =>
      rw [leaves_array] at sameLeaf
      rw [lengths_array, List.forall_mem_append] at sameLength
      rw [subst_array, subst_array, inductionHypothesis sameLength.1 sameLeaf,
        sameLength.2 length (List.mem_singleton_self length)]
  | struct fields inductionHypothesis =>
      rw [leaves_struct, List.forall_mem_flatMap] at sameLeaf
      rw [lengths_struct, List.forall_mem_flatMap] at sameLength
      rw [subst_struct, subst_struct]
      refine congrArg Ty.struct (List.map_congr_left fun field isField => ?_)
      rw [inductionHypothesis field isField (sameLength field isField) (sameLeaf field isField)]
  | function param result paramHypothesis resultHypothesis =>
      rw [leaves_function, List.forall_mem_append] at sameLeaf
      rw [lengths_function, List.forall_mem_append] at sameLength
      rw [subst_function, subst_function, paramHypothesis sameLength.1 sameLeaf.1,
        resultHypothesis sameLength.2 sameLeaf.2]
  | union members inductionHypothesis =>
      rw [leaves_union, List.forall_mem_flatMap] at sameLeaf
      rw [lengths_union, List.forall_mem_flatMap] at sameLength
      rw [subst_union, subst_union]
      refine congrArg (fun rebuilt => (ofMembers rebuilt).getD (.union []))
        (List.map_congr_left fun member isMember => ?_)
      exact inductionHypothesis member isMember (sameLength member isMember)
        (sameLeaf member isMember)
  | primitive | named | placeholder | parametric => exact sameLeaf _ (by simp)

end Ty

end ShaderTyping
