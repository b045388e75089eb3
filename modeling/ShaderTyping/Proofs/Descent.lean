import ShaderTyping.Proofs.Expansion

namespace ShaderTyping

/-!
# Measures that fall along parts, bindings and definitions

Unification goes from a type to its direct parts and from a leaf to the type that
the leaf is bound to or defined as.  It builds no new types to look at, so all that
it meets are parts of the types at hand, and new bindings lead to such parts only:
`Environment.Confined` says so of a list of types.  As long as nothing leads back to
itself, the listed types have a measure that falls with each of these steps and is
bounded by the length of the list alone (`exists_descent`).
-/

namespace Ty

/-- The direct parts of a type. -/
def children : Ty → List Ty
  | .array component _ => [component]
  | .struct fields => fields.map Prod.snd
  | .function param result => [param, result]
  | .union members => members
  | .primitive _ | .named _ _ | .placeholder _ _ | .parametric _ _ => []

mutual

/-- A type and everything inside it. -/
def parts : Ty → List Ty
  | .array component length => .array component length :: component.parts
  | .struct fields => .struct fields :: partsOfFields fields
  | .function param result => .function param result :: (param.parts ++ result.parts)
  | .union members => .union members :: partsOfMembers members
  | .primitive kind => [.primitive kind]
  | .named scope name => [.named scope name]
  | .placeholder scope id => [.placeholder scope id]
  | .parametric scope label => [.parametric scope label]

/-- Everything inside the fields of a struct. -/
def partsOfFields : List (String × Ty) → List Ty
  | [] => []
  | (_, ty) :: rest => ty.parts ++ partsOfFields rest

/-- Everything inside the members of a union. -/
def partsOfMembers : List Ty → List Ty
  | [] => []
  | ty :: rest => ty.parts ++ partsOfMembers rest

end

/-- The parts of members are put together. -/
theorem partsOfMembers_eq (members : List Ty) :
    partsOfMembers members = members.flatMap parts := by
  induction members with
  | nil => rfl
  | cons member rest inductionHypothesis =>
      rw [partsOfMembers, inductionHypothesis, List.flatMap_cons]

/-- The parts of fields are put together. -/
theorem partsOfFields_eq (fields : List (String × Ty)) :
    partsOfFields fields = (fields.map Prod.snd).flatMap parts := by
  induction fields with
  | nil => rfl
  | cons field rest inductionHypothesis =>
      rw [partsOfFields, inductionHypothesis, List.map_cons, List.flatMap_cons]

/-- The parts of a type are the type itself and the parts of its direct parts. -/
theorem parts_eq (ty : Ty) : ty.parts = ty :: ty.children.flatMap parts := by
  cases ty <;> simp [parts, children, partsOfMembers_eq, partsOfFields_eq]

/-- Sizes of lists add up. -/
theorem sizeOfMembers_append (first second : List Ty) :
    sizeOfMembers (first ++ second) = sizeOfMembers first + sizeOfMembers second := by
  induction first with
  | nil => simp [sizeOfMembers]
  | cons member rest inductionHypothesis =>
      simp only [List.cons_append, sizeOfMembers, inductionHypothesis]
      omega

/-- Fields are as large as their types. -/
theorem sizeOfFields_eq (fields : List (String × Ty)) :
    sizeOfFields fields = sizeOfMembers (fields.map Prod.snd) := by
  induction fields with
  | nil => rfl
  | cons field rest inductionHypothesis =>
      rw [sizeOfFields, inductionHypothesis, List.map_cons, sizeOfMembers]

/-- The size of a type is one more than the size of its direct parts. -/
theorem size_eq (ty : Ty) : ty.size = sizeOfMembers ty.children + 1 := by
  cases ty <;> simp [size, children, sizeOfMembers, sizeOfFields_eq]

/-- Induction from the direct parts of a type to the type. -/
theorem childrenInduction
    {motive : Ty → Prop}
    (step : ∀ ty, (∀ part ∈ ty.children, motive part) → motive ty)
    (ty : Ty) :
    motive ty := by
  induction ty using Ty.induction with
  | primitive | named | placeholder | parametric => exact step _ (by simp [children])
  | array component length inductionHypothesis =>
      exact step _ (by simpa [children] using inductionHypothesis)
  | struct fields inductionHypothesis =>
      refine step _ fun part isPart => ?_
      obtain ⟨field, isField, rfl⟩ := List.mem_map.mp isPart
      exact inductionHypothesis field isField
  | function param result paramHypothesis resultHypothesis =>
      exact step _ (by simp [children, paramHypothesis, resultHypothesis])
  | union members inductionHypothesis => exact step _ inductionHypothesis

/-- If each type has as many parts as its size, so do several of them. -/
theorem length_flatMap_parts
    {types : List Ty}
    (each : ∀ ty ∈ types, ty.parts.length = ty.size) :
    (types.flatMap parts).length = sizeOfMembers types := by
  induction types with
  | nil => rfl
  | cons ty rest inductionHypothesis =>
      rw [List.flatMap_cons, List.length_append, sizeOfMembers,
        each ty List.mem_cons_self,
        inductionHypothesis fun other member => each other (List.mem_cons_of_mem _ member)]

/-- A type has as many parts as type constructors. -/
theorem length_parts (ty : Ty) : ty.parts.length = ty.size := by
  induction ty using childrenInduction with
  | step ty inductionHypothesis =>
      rw [parts_eq, size_eq, List.length_cons, length_flatMap_parts inductionHypothesis]

/-- A type is among its parts. -/
theorem mem_parts_self (ty : Ty) : ty ∈ ty.parts := by
  rw [parts_eq]
  exact List.mem_cons_self

/-- What is directly inside a part of a type is a part of the type. -/
theorem mem_parts_of_mem_children
    {ty whole part : Ty}
    (isWhole : whole ∈ ty.parts)
    (isPart : part ∈ whole.children) :
    part ∈ ty.parts := by
  induction ty using childrenInduction with
  | step ty inductionHypothesis =>
      rw [parts_eq] at isWhole ⊢
      rcases List.mem_cons.mp isWhole with same | inside
      · refine List.mem_cons_of_mem _ (List.mem_flatMap.mpr ⟨part, ?_, mem_parts_self part⟩)
        exact same ▸ isPart
      · obtain ⟨child, isChild, inChild⟩ := List.mem_flatMap.mp inside
        refine List.mem_cons_of_mem _ (List.mem_flatMap.mpr ⟨child, isChild, ?_⟩)
        exact inductionHypothesis child isChild inChild

/-- A type is at most as large as a list that it is in. -/
theorem size_le_sizeOfMembers
    {ty : Ty}
    {types : List Ty}
    (member : ty ∈ types) :
    ty.size ≤ sizeOfMembers types := by
  induction types with
  | nil => contradiction
  | cons first rest inductionHypothesis =>
      rw [sizeOfMembers]
      rcases List.mem_cons.mp member with same | inRest
      · subst same
        omega
      · have := inductionHypothesis inRest
        omega

/-- A direct part is smaller than the whole. -/
theorem size_lt_of_mem_children
    {whole part : Ty}
    (isPart : part ∈ whole.children) :
    part.size < whole.size := by
  rw [size_eq whole]
  exact Nat.lt_succ_of_le (size_le_sizeOfMembers isPart)

/-- A part is at most as large as the whole. -/
theorem size_le_of_mem_parts
    {ty part : Ty}
    (isPart : part ∈ ty.parts) :
    part.size ≤ ty.size := by
  induction ty using childrenInduction with
  | step ty inductionHypothesis =>
      rw [parts_eq] at isPart
      rcases List.mem_cons.mp isPart with same | inside
      · rw [same]
      · obtain ⟨child, isChild, inChild⟩ := List.mem_flatMap.mp inside
        have isLess := size_lt_of_mem_children isChild
        exact (inductionHypothesis child isChild inChild).trans isLess.le

/-- The leaves of a direct part are leaves of the type. -/
theorem leaves_subset_of_mem_children
    {whole part : Ty}
    (isPart : part ∈ whole.children) :
    part.leaves ⊆ whole.leaves := by
  intro leaf isLeaf
  cases whole with
  | array component length =>
      rw [leaves_array]
      exact List.mem_singleton.mp isPart ▸ isLeaf
  | struct fields =>
      obtain ⟨field, isField, rfl⟩ := List.mem_map.mp isPart
      rw [leaves_struct]
      exact List.mem_flatMap.mpr ⟨field, isField, isLeaf⟩
  | function param result =>
      rw [leaves_function, List.mem_append]
      rcases List.mem_cons.mp isPart with isParam | isResult
      · exact Or.inl (isParam ▸ isLeaf)
      · exact Or.inr (List.mem_singleton.mp isResult ▸ isLeaf)
  | union members =>
      rw [leaves_union]
      exact List.mem_flatMap.mpr ⟨part, isPart, isLeaf⟩
  | _ => contradiction

end Ty

namespace Environment

variable {env later : Environment} {pool : List Ty}

/-- What leaves stand for depends on declarations and bindings only. -/
theorem standsFor?_congr
    (sameDeclared : later.declared = env.declared)
    (sameBindings : ∀ id, later.binding? id = env.binding? id)
    (leaf : Ty) :
    later.standsFor? leaf = env.standsFor? leaf := by
  cases leaf with
  | placeholder scope id => exact sameBindings id
  | named scope name =>
      exact congrArg (Option.map Prod.snd) (definition?_congr sameDeclared scope name)
  | _ => rfl

/-- Where leaves stand for the same, nothing leads back to itself either. -/
theorem Acyclic.congr
    (acyclic : env.Acyclic)
    (same : ∀ leaf, later.standsFor? leaf = env.standsFor? leaf) :
    later.Acyclic :=
  Table.Acyclic.of_le acyclic fun {leaf _} found => (same leaf).symm.trans found

/-! ## Following bindings and definitions step by step -/

/-- What holds of a type and is kept by each binding holds of what is followed. -/
theorem follow_induction
    {motive : Ty → Prop}
    (step :
      ∀ {scope id bound},
        motive (.placeholder scope id) → env.binding? id = some bound → motive bound)
    {ty : Ty}
    (start : motive ty) :
    motive (env.follow ty) := by
  have within (steps : Nat) {ty : Ty} (start : motive ty) :
      motive (env.followWithin steps ty) := by
    induction steps generalizing ty with
    | zero => cases ty <;> exact start
    | succ steps inductionHypothesis =>
        cases ty with
        | placeholder scope id =>
            rw [followWithin]
            cases found : env.binding? id with
            | none => exact start
            | some bound => exact inductionHypothesis (step start found)
        | _ => exact start
  unfold follow
  split
  · exact within _ start
  · exact start

/-- What holds of a type and is kept by each binding and definition holds of its head. -/
theorem head_induction
    {motive : Ty → Prop}
    (step : ∀ {leaf next}, motive leaf → env.standsFor? leaf = some next → motive next)
    {ty : Ty}
    (start : motive ty) :
    motive (env.head ty) := by
  have followed {ty : Ty} (start : motive ty) : motive (env.follow ty) := by
    refine follow_induction (motive := motive) ?_ start
    intro scope id bound holds found
    exact step holds (show env.standsFor? (.placeholder scope id) = some bound from found)
  have within (steps : Nat) (seen : List AliasKey) {ty : Ty} (start : motive ty) :
      motive (env.headWithin steps seen ty) := by
    induction steps generalizing seen ty with
    | zero => exact followed start
    | succ steps inductionHypothesis =>
        have holds := followed start
        rw [headWithin]
        split
        · rename_i scope name isNamed
          rw [isNamed] at holds
          split
          · rename_i key definition isDefined
            split
            · exact holds
            · exact inductionHypothesis _ (step holds (by simp [standsFor?, isDefined]))
          · exact holds
        · exact holds
  exact within _ [] start

/--
Without cycles, references are followed until one of them is undeclared.

The declared types that were seen rank higher than what is still to be followed,
so none of them is met again.
-/
theorem definition?_of_headWithin_eq
    {rank : Ty → Nat}
    (ranks : env.Ranks rank)
    {steps : Nat}
    {seen : List AliasKey}
    {ty : Ty}
    (enough : rank ty < steps)
    (above : env.RankAbove rank seen ty)
    {scope : ScopeId}
    {name : String}
    (isHead : env.headWithin steps seen ty = .named scope name) :
    env.definition? scope name = none := by
  induction steps generalizing seen ty with
  | zero => exact absurd enough (Nat.not_lt_zero _)
  | succ steps inductionHypothesis =>
      have notMore : rank (env.follow ty) ≤ rank ty := by
        refine follow_induction (motive := fun followed => rank followed ≤ rank ty) ?_ le_rfl
        intro boundScope id bound isLess found
        have falls : rank bound < rank (.placeholder boundScope id) :=
          ranks.binding (List.mem_singleton_self _) found
        exact falls.le.trans isLess
      rw [headWithin] at isHead
      split at isHead
      · rename_i found inner isNamed
        rw [isNamed] at notMore
        split at isHead
        · rename_i key definition isDefined
          have isLess : rank definition < rank (.named found inner) :=
            ranks.definition (List.mem_singleton_self _) isDefined
          have followedAbove := above.of_le notMore
          have isNew := followedAbove.contains_eq_false isDefined isLess
          rw [if_neg (isNew ▸ Bool.false_ne_true)] at isHead
          exact inductionHypothesis (by omega) (followedAbove.cons isDefined isLess) isHead
        · rename_i isUndeclared
          cases isHead
          exact isUndeclared
      · rename_i notNamed
        exact absurd isHead (notNamed scope name)

/-- A reference at the head of a type stands for nothing. -/
theorem definition?_of_head_eq
    (acyclic : env.Acyclic)
    {ty : Ty}
    {scope : ScopeId}
    {name : String}
    (isHead : env.head ty = .named scope name) :
    env.definition? scope name = none := by
  obtain ⟨rank, bounded, ranks⟩ := exists_expansionRank acyclic
  rw [← headWithin_eq (Nat.le_add_left env.aliasCount (env.bindingCount + 1)) ty] at isHead
  refine definition?_of_headWithin_eq ranks ?_ .nil isHead
  have isBounded := bounded ty
  omega

/-- The head of a type stands for nothing else. -/
theorem standsFor?_head
    (consistent : env.frames.Consistent)
    (acyclic : env.Acyclic)
    (ty : Ty) :
    env.standsFor? (env.head ty) = none := by
  have followed (steps : Nat) (seen : List AliasKey) (ty : Ty) :
      ∃ other, env.headWithin steps seen ty = env.follow other := by
    induction steps generalizing seen ty with
    | zero => exact ⟨ty, rfl⟩
    | succ steps inductionHypothesis =>
        rw [headWithin]
        split
        · split
          · split
            · exact ⟨.named _ _, rfl⟩
            · exact inductionHypothesis _ _
          · exact ⟨.named _ _, rfl⟩
        · exact ⟨ty, rfl⟩
  cases isHead : env.head ty with
  | named scope name =>
      rw [standsFor?, definition?_of_head_eq acyclic isHead]
      rfl
  | placeholder scope id =>
      obtain ⟨other, isFollowed⟩ := followed env.aliasCount [] ty
      exact binding?_of_follow_eq consistent (isFollowed.symm.trans isHead)
  | _ => rfl

/-- What a type stands for has the same head. -/
theorem head_eq_of_standsFor?
    (consistent : env.frames.Consistent)
    (acyclic : env.Acyclic)
    {leaf next : Ty}
    (stands : env.standsFor? leaf = some next) :
    env.head leaf = env.head next := by
  let step (first second : Ty) : Prop := env.standsFor? first = some second
  have path (ty : Ty) : Relation.ReflTransGen step ty (env.head ty) :=
    head_induction (motive := Relation.ReflTransGen step ty) .tail .refl
  have final {ty other : Ty} (more : Relation.ReflTransGen step (env.head ty) other) :
      env.head ty = other := by
    rcases Relation.ReflTransGen.cases_head more with same | ⟨_, first, _⟩
    · exact same
    · cases (standsFor?_head consistent acyclic ty).symm.trans first
  have unique : Relator.RightUnique step := fun _ _ _ first second =>
    Option.some.inj (first.symm.trans second)
  rcases Relation.ReflTransGen.total_of_right_unique unique (path leaf) ((path next).head stands)
    with before | after
  · exact final before
  · exact (final after).symm

/-- A type that stands for nothing else is its own head. -/
theorem head_eq_self
    {ty : Ty}
    (stands : env.standsFor? ty = none) :
    env.head ty = ty := by
  refine head_induction (motive := fun other => other = ty) ?_ rfl
  rintro _ next rfl found
  cases stands.symm.trans found

/-! ## Confined environments -/

/-- From the listed types, parts, bindings and definitions lead to listed types only. -/
structure Confined (env : Environment) (pool : List Ty) : Prop where
  consistent : env.frames.Consistent
  children : ∀ {whole part}, whole ∈ pool → part ∈ whole.children → part ∈ pool
  bindings : ∀ {id ty}, env.binding? id = some ty → ty ∈ pool
  definitions :
    ∀ {scope name key ty},
      .named scope name ∈ pool → env.definition? scope name = some (key, ty) → ty ∈ pool
  sizes : ∀ {ty}, ty ∈ pool → ty.size ≤ pool.length

namespace Confined

/-- What a listed leaf stands for is listed. -/
theorem standsFor?
    (confined : env.Confined pool)
    {leaf next : Ty}
    (listed : leaf ∈ pool)
    (found : env.standsFor? leaf = some next) :
    next ∈ pool := by
  cases leaf with
  | placeholder scope id => exact confined.bindings found
  | named scope name =>
      obtain ⟨⟨key, definition⟩, isDefined, rfl⟩ := Option.map_eq_some_iff.mp found
      exact confined.definitions listed isDefined
  | _ => cases found

/-- Where a listed type is followed to is listed. -/
theorem follow
    (confined : env.Confined pool)
    {ty : Ty}
    (listed : ty ∈ pool) :
    env.follow ty ∈ pool :=
  follow_induction (fun _ found => confined.bindings found) listed

/-- The head of a listed type is listed. -/
theorem head
    (confined : env.Confined pool)
    {ty : Ty}
    (listed : ty ∈ pool) :
    env.head ty ∈ pool :=
  head_induction (motive := (· ∈ pool)) confined.standsFor? listed

/-- An environment with the same declarations and only listed new bindings is confined. -/
theorem of_bindings
    (confined : env.Confined pool)
    (consistent : later.frames.Consistent)
    (declared : later.declared = env.declared)
    (bindings :
      ∀ {id ty}, later.binding? id = some ty → env.binding? id = some ty ∨ ty ∈ pool) :
    later.Confined pool where
  consistent := consistent
  children := confined.children
  bindings := fun found => (bindings found).elim confined.bindings fun listed => listed
  definitions := by
    intro scope name key ty listed found
    rw [definition?_congr declared] at found
    exact confined.definitions listed found
  sizes := confined.sizes

/-- A function of a listed type with a result of its own may be listed. -/
theorem cons_function
    (confined : env.Confined pool)
    {arg : Ty}
    (listed : arg ∈ pool)
    (scope : ScopeId)
    (id : PlaceholderId) :
    env.Confined (.function arg (.placeholder scope id) :: .placeholder scope id :: pool) where
  consistent := confined.consistent
  children := by
    intro whole part isListed isPart
    rcases List.mem_cons.mp isListed with rfl | isListed
    · rcases List.mem_cons.mp isPart with rfl | isResult
      · exact List.mem_cons_of_mem _ (List.mem_cons_of_mem _ listed)
      · rw [List.mem_singleton.mp isResult]
        exact List.mem_cons_of_mem _ List.mem_cons_self
    · rcases List.mem_cons.mp isListed with rfl | isListed
      · contradiction
      · exact List.mem_cons_of_mem _ (List.mem_cons_of_mem _ (confined.children isListed isPart))
  bindings := fun found =>
    List.mem_cons_of_mem _ (List.mem_cons_of_mem _ (confined.bindings found))
  definitions := by
    intro otherScope name key ty isListed found
    have isOld : .named otherScope name ∈ pool := by simpa using isListed
    exact List.mem_cons_of_mem _ (List.mem_cons_of_mem _ (confined.definitions isOld found))
  sizes := by
    intro ty isListed
    simp only [List.length_cons]
    rcases List.mem_cons.mp isListed with rfl | isListed
    · have isBounded := confined.sizes listed
      simp only [Ty.size]
      omega
    · rcases List.mem_cons.mp isListed with rfl | isListed
      · simp only [Ty.size]
        omega
      · exact (confined.sizes isListed).trans (by omega)

end Confined

/-- The parts of types confine unification if bindings and definitions lead to these types. -/
theorem confined_parts
    (consistent : env.frames.Consistent)
    {types : List Ty}
    (bindings : ∀ {id ty}, env.binding? id = some ty → ty ∈ types)
    (definitions :
      ∀ {scope name key ty},
        .named scope name ∈ types.flatMap Ty.parts →
        env.definition? scope name = some (key, ty) →
        ty ∈ types) :
    env.Confined (types.flatMap Ty.parts) where
  consistent := consistent
  children := by
    intro whole part listed isPart
    obtain ⟨ty, isType, isWhole⟩ := List.mem_flatMap.mp listed
    exact List.mem_flatMap.mpr ⟨ty, isType, Ty.mem_parts_of_mem_children isWhole isPart⟩
  bindings := fun {_ ty} found =>
    List.mem_flatMap.mpr ⟨ty, bindings found, Ty.mem_parts_self ty⟩
  definitions := fun {_ _ _ ty} listed found =>
    List.mem_flatMap.mpr ⟨ty, definitions listed found, Ty.mem_parts_self ty⟩
  sizes := by
    intro part listed
    obtain ⟨ty, isType, isPart⟩ := List.mem_flatMap.mp listed
    rw [Ty.length_flatMap_parts fun ty _ => Ty.length_parts ty]
    exact (Ty.size_le_of_mem_parts isPart).trans (Ty.size_le_sizeOfMembers isType)

/-- All bound and declared types, and the given ones. -/
def typesAtHand (env : Environment) (types : List Ty) : List Ty :=
  env.frames.boundTypes ++ (env.declared.types.entries.map Declaration.value ++ types)

/-- The given types are among the types at hand. -/
theorem mem_parts_typesAtHand
    {types : List Ty}
    {ty : Ty}
    (member : ty ∈ types) :
    ty ∈ (env.typesAtHand types).flatMap Ty.parts := by
  refine List.mem_flatMap.mpr ⟨ty, ?_, Ty.mem_parts_self ty⟩
  exact List.mem_append_right _ (List.mem_append_right _ member)

/-- The parts of all types at hand confine unification. -/
theorem confined_typesAtHand
    (consistent : env.frames.Consistent)
    (types : List Ty) :
    env.Confined ((env.typesAtHand types).flatMap Ty.parts) := by
  refine confined_parts consistent ?_ ?_
  · exact fun found => List.mem_append_left _ (Frame.mem_values found)
  · intro scope name key ty _ found
    obtain ⟨declaration, isFound, isValue⟩ :=
      Option.map_eq_some_iff.mp (local?_of_definition? found)
    refine List.mem_append_right _ (List.mem_append_left _ (List.mem_map.mpr ⟨declaration, ?_⟩))
    exact ⟨List.mem_of_find?_eq_some isFound, isValue⟩

/-- The number of parts of all types at hand, by which unification bounds its nesting. -/
theorem length_parts_typesAtHand (env : Environment) (types : List Ty) :
    ((env.typesAtHand types).flatMap Ty.parts).length =
      Unification.weight env + Ty.sizeOfMembers types := by
  rw [Ty.length_flatMap_parts fun ty _ => Ty.length_parts ty, typesAtHand,
    Ty.sizeOfMembers_append, Ty.sizeOfMembers_append, Unification.weight, Nat.add_assoc]

/-! ## Measures -/

/-- A measure that falls from listed types to their direct parts and to what they stand for. -/
structure Descends (env : Environment) (pool : List Ty) (measure : Ty → Nat) : Prop where
  children :
    ∀ {whole part}, whole ∈ pool → part ∈ whole.children → measure part < measure whole
  standsFor? :
    ∀ {leaf next},
      leaf ∈ pool → env.standsFor? leaf = some next → measure next < measure leaf

/-- A bound for measures on a list of types. -/
def descentBound (count : Nat) : Nat :=
  count * (count + 1) + count

/-- The bound on ranks grows with the number of bindings. -/
theorem descentBound_mono {few many : Nat} (notMore : few ≤ many) :
    descentBound few ≤ descentBound many := by
  unfold descentBound
  exact Nat.add_le_add (Nat.mul_le_mul notMore (Nat.succ_le_succ notMore)) notMore

/--
Types among which nothing leads back to itself have a bounded measure.

The measure counts the listed types behind a type first and its parts second: a
part has no more behind it than the whole, and what a leaf stands for has less.
-/
theorem exists_descent
    (confined : env.Confined pool)
    (acyclic :
      Table.Acyclic (fun leaf => if leaf ∈ pool then env.standsFor? leaf else none)
        fun ty leaf => leaf ∈ ty.leaves) :
    ∃ measure, env.Descends pool measure ∧
      ∀ ty ∈ pool, measure ty ≤ descentBound pool.length := by
  obtain ⟨rank, bounded, falls, grows⟩ :=
    acyclic.exists_monotone_rank pool (by
      intro leaf next found
      split at found
      · rename_i listed
        exact confined.standsFor? listed found
      · contradiction)
  have leafFalls {leaf next : Ty} (listed : leaf ∈ pool)
      (found : env.standsFor? leaf = some next) : rank next < rank leaf := by
    refine falls ⟨leaf, ?_, (if_pos listed).trans found⟩
    cases leaf with
    | placeholder | named => simp
    | _ => cases found
  let measure (ty : Ty) : Nat := rank ty * (pool.length + 1) + ty.size
  refine ⟨measure, ⟨?_, ?_⟩, ?_⟩
  · intro whole part listed isPart
    have notMore : rank part ≤ rank whole :=
      grows fun isLeaf => Ty.leaves_subset_of_mem_children isPart isLeaf
    have smaller := Ty.size_lt_of_mem_children isPart
    have scaled := Nat.mul_le_mul_right (pool.length + 1) notMore
    simp only [measure]
    omega
  · intro leaf next listed found
    have isLess : rank next + 1 ≤ rank leaf := leafFalls listed found
    have isBounded := confined.sizes (confined.standsFor? listed found)
    have scaled := Nat.mul_le_mul_right (pool.length + 1) isLess
    rw [Nat.add_mul, Nat.one_mul] at scaled
    simp only [measure]
    omega
  · intro ty listed
    have isBounded := confined.sizes listed
    have scaled := Nat.mul_le_mul_right (pool.length + 1) (bounded ty)
    simp only [measure, descentBound]
    omega

/-- In an environment without cycles all types at hand have a bounded measure. -/
theorem Acyclic.exists_descent
    (acyclic : env.Acyclic)
    (confined : env.Confined pool) :
    ∃ measure, env.Descends pool measure ∧
      ∀ ty ∈ pool, measure ty ≤ descentBound pool.length := by
  refine Environment.exists_descent confined (Table.Acyclic.of_le acyclic ?_)
  intro leaf next found
  split at found
  · exact found
  · contradiction

namespace Descends

variable {measure : Ty → Nat}

/-- What falls along the bindings of a later environment falls along the earlier ones. -/
theorem of_grows
    (descends : later.Descends pool measure)
    (grows : env.Grows later) :
    env.Descends pool measure where
  children := descends.children
  standsFor? := fun listed found => descends.standsFor? listed (grows.standsFor? found)

/-- A measure falls along what leaves stand for, so it depends on nothing else. -/
theorem congr
    (descends : env.Descends pool measure)
    (same : ∀ leaf, later.standsFor? leaf = env.standsFor? leaf) :
    later.Descends pool measure where
  children := descends.children
  standsFor? := fun {leaf _} listed found =>
    descends.standsFor? listed ((same leaf).symm.trans found)

/-- The head of a listed type measures less, unless it is the type itself. -/
theorem head
    (descends : env.Descends pool measure)
    (confined : env.Confined pool)
    {ty : Ty}
    (listed : ty ∈ pool) :
    env.head ty = ty ∨ measure (env.head ty) < measure ty := by
  have passed :=
    head_induction
      (motive := fun found => found ∈ pool ∧ (found = ty ∨ measure found < measure ty))
      (fun {leaf next} ⟨isListed, notMore⟩ found => by
        have falls := descends.standsFor? isListed found
        refine ⟨confined.standsFor? isListed found, Or.inr ?_⟩
        rcases notMore with rfl | isLess
        · exact falls
        · exact falls.trans isLess)
      (⟨listed, Or.inl rfl⟩ : ty ∈ pool ∧ (ty = ty ∨ measure ty < measure ty))
  exact passed.2

end Descends

end Environment

end ShaderTyping
