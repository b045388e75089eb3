import ShaderTyping.Proofs.Agreement
import ShaderTyping.Proofs.Descent

namespace ShaderTyping

/-!
# Where types end

Following bindings and definitions from a type leads to an unbound placeholder, to a reference
that stands for no type, or to a type of any other form.  What the head of a type means for
unification is its ending (`Environment.ending`): binding a placeholder moves the endings that are
this placeholder and no others, and a placeholder occurs in a type exactly if it is an ending
inside the type (`Environment.Harbors`).
-/

namespace Ty

/-- Every placeholder in a type has the scope that belongs to its identity. -/
def ScopedBy (scopeOf : PlaceholderId → ScopeId) (ty : Ty) : Prop :=
  ∀ scope id, .placeholder scope id ∈ ty.leaves → scope = scopeOf id

/-- A type with fields in label order and with one scope for each placeholder. -/
structure Tidy (scopeOf : PlaceholderId → ScopeId) (ty : Ty) : Prop where
  ordered : ty.Ordered
  inScope : ty.ScopedBy scopeOf

variable {scopeOf : PlaceholderId → ScopeId}

/-- The placeholders of a part have the scopes of those of the whole. -/
theorem ScopedBy.of_mem_children
    {whole part : Ty}
    (inScope : whole.ScopedBy scopeOf)
    (isPart : part ∈ whole.children) :
    part.ScopedBy scopeOf :=
  fun scope id isLeaf => inScope scope id (leaves_subset_of_mem_children isPart isLeaf)

/-- The parts of a tidy type are tidy. -/
theorem Tidy.of_mem_children
    {whole part : Ty}
    (tidy : whole.Tidy scopeOf)
    (isPart : part ∈ whole.children) :
    part.Tidy scopeOf := by
  refine ⟨?_, tidy.inScope.of_mem_children isPart⟩
  cases tidy.ordered with
  | array length component => exact List.mem_singleton.mp isPart ▸ component
  | struct sorted each =>
      obtain ⟨field, isField, rfl⟩ := List.mem_map.mp isPart
      exact each field isField
  | function param result =>
      rcases List.mem_cons.mp isPart with isParam | isResult
      · exact isParam ▸ param
      · exact List.mem_singleton.mp isResult ▸ result
  | union each => exact each part isPart
  | primitive | named | placeholder | parametric => contradiction

/-- The leaves of a type have the scopes of its placeholders. -/
theorem ScopedBy.of_mem_leaves
    {ty leaf : Ty}
    (inScope : ty.ScopedBy scopeOf)
    (isLeaf : leaf ∈ ty.leaves) :
    leaf.ScopedBy scopeOf := by
  intro scope id inside
  cases isLeaf_of_mem_leaves isLeaf with
  | placeholder otherScope other =>
      rw [leaves_placeholder, List.mem_singleton] at inside
      exact inScope scope id (inside ▸ isLeaf)
  | named | primitive | parametric => cases List.mem_singleton.mp inside

/-- A placeholder in its scope is tidy. -/
theorem Tidy.placeholder (id : PlaceholderId) : (Ty.placeholder (scopeOf id) id).Tidy scopeOf := by
  refine ⟨.placeholder _ _, fun scope other isLeaf => ?_⟩
  cases List.mem_singleton.mp isLeaf
  rfl

/-- A reference is tidy. -/
theorem Tidy.named (scope : ScopeId) (name : String) : (Ty.named scope name).Tidy scopeOf :=
  ⟨.named _ _, fun _ _ isLeaf => by cases List.mem_singleton.mp isLeaf⟩

/-- A function between tidy types is tidy. -/
theorem Tidy.function
    {param result : Ty}
    (paramTidy : param.Tidy scopeOf)
    (resultTidy : result.Tidy scopeOf) :
    (Ty.function param result).Tidy scopeOf := by
  refine ⟨.function paramTidy.ordered resultTidy.ordered, fun scope id isLeaf => ?_⟩
  rw [leaves_function, List.mem_append] at isLeaf
  exact isLeaf.elim (paramTidy.inScope scope id) (resultTidy.inScope scope id)

/-- A placeholder is written with the scope that belongs to it. -/
theorem ScopedBy.eq_scopeOf
    {scope : ScopeId}
    {id : PlaceholderId}
    (inScope : (Ty.placeholder scope id).ScopedBy scopeOf) :
    scope = scopeOf id :=
  inScope scope id (leaves_placeholder scope id ▸ List.mem_singleton_self _)

/-- Whether a type stands for itself: it is neither a placeholder nor a reference. -/
def isSolid : Ty → Bool
  | .placeholder _ _ | .named _ _ => false
  | _ => true

/-- A type that stands for itself is no placeholder. -/
theorem isPlaceholder_of_isSolid {ty : Ty} (isSolid : ty.isSolid = true) :
    ty.isPlaceholder = false := by
  cases ty with
  | placeholder => contradiction
  | _ => rfl

/-- A type that stands for itself is no reference. -/
theorem ne_named_of_isSolid
    {ty : Ty}
    (isSolid : ty.isSolid = true)
    (scope : ScopeId)
    (name : String) :
    ty ≠ .named scope name := by
  rintro rfl
  contradiction

end Ty

namespace Environment

variable {env later : Environment} {scopeOf : PlaceholderId → ScopeId}

/-- Only placeholders are followed. -/
theorem follow_eq_self {ty : Ty} (notPlaceholder : ty.isPlaceholder = false) :
    env.follow ty = ty := by
  rw [follow, if_neg (notPlaceholder ▸ Bool.false_ne_true)]

/-- Following leads to a placeholder from placeholders only. -/
theorem isPlaceholder_of_follow
    {ty : Ty}
    (isFollowed : (env.follow ty).isPlaceholder = true) :
    ty.isPlaceholder = true := by
  cases isSelf : ty.isPlaceholder with
  | true => rfl
  | false =>
      rw [follow_eq_self isSelf, isSelf] at isFollowed
      contradiction

/-- Following stops at an unbound placeholder. -/
theorem follow_unbound
    (consistent : env.frames.Consistent)
    {id : PlaceholderId}
    (unbound : env.binding? id = none)
    (scope : ScopeId) :
    env.follow (.placeholder scope id) = .placeholder scope id := by
  rw [follow_placeholder consistent, unbound]

/-- A bound placeholder is followed to where its binding is. -/
theorem follow_bound
    (consistent : env.frames.Consistent)
    {id : PlaceholderId}
    {bound : Ty}
    (isBound : env.binding? id = some bound)
    (scope : ScopeId) :
    env.follow (.placeholder scope id) = env.follow bound := by
  rw [follow_placeholder consistent, isBound]

/-- Following first with fewer bindings leads to the same type. -/
theorem Grows.follow_follow
    (grows : env.Grows later)
    (consistent : later.frames.Consistent)
    (ty : Ty) :
    later.follow (env.follow ty) = later.follow ty := by
  refine follow_induction (motive := fun other => later.follow other = later.follow ty) ?_ rfl
  intro scope id bound same isBound
  rw [← same, follow_bound consistent (grows.bindings isBound)]

/-- Looking for the head first with fewer bindings finds the same head. -/
theorem Grows.head_head
    (grows : env.Grows later)
    (consistent : later.frames.Consistent)
    (acyclic : later.Acyclic)
    (ty : Ty) :
    later.head (env.head ty) = later.head ty := by
  refine head_induction (motive := fun other => later.head other = later.head ty) ?_ rfl
  intro leaf next same stands
  rw [← same, head_eq_of_standsFor? consistent acyclic (grows.standsFor? stands)]

/-- The head of a type is found from where following it leads. -/
theorem head_follow
    (consistent : env.frames.Consistent)
    (acyclic : env.Acyclic)
    (ty : Ty) :
    env.head (env.follow ty) = env.head ty := by
  refine follow_induction (motive := fun other => env.head other = env.head ty) ?_ rfl
  intro scope id bound same isBound
  have stands : env.standsFor? (.placeholder scope id) = some bound := isBound
  rw [← same, head_eq_of_standsFor? consistent acyclic stands]

/-- A type that stands for itself stands for nothing else. -/
theorem standsFor?_of_isSolid {ty : Ty} (isSolid : ty.isSolid = true) :
    env.standsFor? ty = none := by
  cases ty with
  | placeholder | named => contradiction
  | _ => rfl

/-- What is found at the head of a type is found there later, unless it is a placeholder. -/
theorem Grows.head_eq
    (grows : env.Grows later)
    (consistent : later.frames.Consistent)
    (acyclic : later.Acyclic)
    (earlierConsistent : env.frames.Consistent)
    (earlierAcyclic : env.Acyclic)
    {ty : Ty}
    (isFound : (env.head ty).isPlaceholder = false) :
    later.head ty = env.head ty := by
  rw [← grows.head_head consistent acyclic ty]
  refine head_eq_self ?_
  have stands := standsFor?_head earlierConsistent earlierAcyclic ty
  cases isHead : env.head ty with
  | placeholder scope id =>
      rw [isHead] at isFound
      contradiction
  | named scope name =>
      rw [isHead] at stands
      change (later.definition? scope name).map Prod.snd = none
      rw [definition?_congr grows.declared]
      exact stands
  | _ => rfl

/--
An environment that unification does not mix up.

Bindings and definitions never lead back to themselves, each placeholder has one scope, and no
reference stands for an unbound placeholder.  No steps are kept.
-/
structure Regular (scopeOf : PlaceholderId → ScopeId) (env : Environment) : Prop where
  quiet : env.options.trace = false
  consistent : env.frames.Consistent
  acyclic : env.Acyclic
  tidy : ∀ {leaf next}, env.standsFor? leaf = some next → next.Tidy scopeOf
  heads : ∀ scope name, (env.head (.named scope name)).isPlaceholder = false

/-- Where a type ends; a reference that stands for no type is not followed. -/
def ending (env : Environment) (ty : Ty) : Ty :=
  match env.head ty with
  | .named _ _ => env.follow ty
  | found => found

/-- The ways in which a type can end. -/
inductive Ends (env : Environment) (ty : Ty) : Ty → Prop where
  | unbound {scope : ScopeId} {id : PlaceholderId} :
      env.follow ty = .placeholder scope id →
      env.binding? id = none →
      Ends env ty (.placeholder scope id)
  | dangling {scope headScope : ScopeId} {name headName : String} :
      env.follow ty = .named scope name →
      env.head ty = .named headScope headName →
      Ends env ty (.named scope name)
  | solid {found : Ty} :
      env.head ty = found →
      found.isSolid = true →
      Ends env ty found

/-- A type that is neither bound nor defined ends at itself. -/
theorem ending_eq_self {ty : Ty} (stands : env.standsFor? ty = none) : env.ending ty = ty := by
  unfold ending
  rw [head_eq_self stands]
  split
  · exact follow_eq_self rfl
  · rfl

/-- An unbound placeholder ends at itself. -/
theorem ending_unbound
    {id : PlaceholderId}
    (unbound : env.binding? id = none)
    (scope : ScopeId) :
    env.ending (.placeholder scope id) = .placeholder scope id := by
  have stands : env.standsFor? (.placeholder scope id) = none := unbound
  exact ending_eq_self stands

/-- What holds of a type and is kept by bindings and definitions holds of its ending. -/
theorem ending_induction
    {motive : Ty → Prop}
    (step : ∀ {leaf next}, motive leaf → env.standsFor? leaf = some next → motive next)
    {ty : Ty}
    (start : motive ty) :
    motive (env.ending ty) := by
  unfold ending
  split
  · refine follow_induction (motive := motive) ?_ start
    intro scope id bound holds isBound
    have stands : env.standsFor? (.placeholder scope id) = some bound := isBound
    exact step holds stands
  · exact head_induction (motive := motive) step start

/-- A type whose head is no reference ends at its head. -/
theorem ending_eq_head_of_ne
    {ty : Ty}
    (notNamed : ∀ scope name, env.head ty ≠ .named scope name) :
    env.ending ty = env.head ty := by
  unfold ending
  split
  · rename_i scope name isHead
    exact absurd isHead (notNamed scope name)
  · rfl

namespace Regular

variable (regular : env.Regular scopeOf)
include regular

/-- Every type ends in one of the three ways. -/
theorem ends (ty : Ty) : env.Ends ty (env.ending ty) := by
  have followed := head_follow regular.consistent regular.acyclic ty
  unfold ending
  split
  · rename_i headScope headName isHead
    cases isFollowed : env.follow ty with
    | named scope name => exact .dangling isFollowed isHead
    | placeholder scope id =>
        have stands : env.standsFor? (.placeholder scope id) = none :=
          binding?_of_follow_eq regular.consistent isFollowed
        rw [isFollowed, isHead, head_eq_self stands] at followed
        contradiction
    | _ =>
        rw [isFollowed, isHead, head_eq_self rfl] at followed
        contradiction
  · rename_i notNamed
    cases isHead : env.head ty with
    | placeholder scope id =>
        cases isFollowed : env.follow ty with
        | placeholder otherScope other =>
            have unbound := binding?_of_follow_eq regular.consistent isFollowed
            have stands : env.standsFor? (.placeholder otherScope other) = none := unbound
            rw [isFollowed, isHead, head_eq_self stands] at followed
            cases followed
            exact .unbound isFollowed unbound
        | named otherScope name =>
            have isFound := regular.heads otherScope name
            rw [isFollowed, isHead] at followed
            rw [followed] at isFound
            contradiction
        | _ =>
            rw [isFollowed, isHead, head_eq_self rfl] at followed
            contradiction
    | named scope name => exact absurd isHead (notNamed scope name)
    | _ => exact .solid isHead rfl

/-- A type ends at a placeholder only by following bindings to an unbound one. -/
theorem follow_of_ending
    {ty : Ty}
    {scope : ScopeId}
    {id : PlaceholderId}
    (isEnding : env.ending ty = .placeholder scope id) :
    env.follow ty = .placeholder scope id ∧ env.binding? id = none := by
  have ends := regular.ends ty
  rw [isEnding] at ends
  cases ends with
  | unbound isFollowed unbound => exact ⟨isFollowed, unbound⟩
  | solid _ isSolid => contradiction

/-- A type that ends at a reference is followed to this reference. -/
theorem follow_of_named
    {ty : Ty}
    {scope : ScopeId}
    {name : String}
    (isEnding : env.ending ty = .named scope name) :
    env.follow ty = .named scope name := by
  have ends := regular.ends ty
  rw [isEnding] at ends
  cases ends with
  | dangling isFollowed _ => exact isFollowed
  | solid _ isSolid => contradiction

/-- A type that ends at neither a placeholder nor a reference ends at its head. -/
theorem follow_of_isSolid
    {ty : Ty}
    (isSolid : (env.ending ty).isSolid = true) :
    (env.follow ty).isPlaceholder = false ∧ env.head (env.follow ty) = env.ending ty := by
  have ends := regular.ends ty
  have sameHead := head_follow regular.consistent regular.acyclic ty
  generalize env.ending ty = found at isSolid ends
  cases ends with
  | unbound => contradiction
  | dangling => contradiction
  | solid isHead _ =>
      refine ⟨?_, sameHead.trans isHead⟩
      cases isFollowed : env.follow ty with
      | placeholder scope id =>
          have stands : env.standsFor? (.placeholder scope id) = none :=
            binding?_of_follow_eq regular.consistent isFollowed
          rw [isFollowed, head_eq_self stands, isHead] at sameHead
          rw [← sameHead] at isSolid
          contradiction
      | _ => rfl

/-- A bound placeholder ends where its binding ends. -/
theorem ending_bound
    {id : PlaceholderId}
    {bound : Ty}
    (isBound : env.binding? id = some bound)
    (scope : ScopeId) :
    env.ending (.placeholder scope id) = env.ending bound := by
  have stands : env.standsFor? (.placeholder scope id) = some bound := isBound
  unfold ending
  rw [head_eq_of_standsFor? regular.consistent regular.acyclic stands,
    follow_bound regular.consistent isBound]

/-- Following a type does not change where it ends. -/
theorem ending_follow (ty : Ty) : env.ending (env.follow ty) = env.ending ty := by
  unfold ending
  rw [head_follow regular.consistent regular.acyclic,
    (Grows.refl env).follow_follow regular.consistent]

/-- Where a type ends, it ends again. -/
theorem ending_ending (ty : Ty) : env.ending (env.ending ty) = env.ending ty := by
  have ends := regular.ends ty
  generalize isEnding : env.ending ty = found at ends
  cases ends with
  | unbound _ unbound => exact ending_eq_self unbound
  | dangling isFollowed _ => rw [← isFollowed, regular.ending_follow, isEnding, isFollowed]
  | solid _ isSolid => exact ending_eq_self (standsFor?_of_isSolid isSolid)

/-- A type that does not end at a reference ends at its head. -/
theorem ending_eq_head
    {ty : Ty}
    (notNamed : ∀ scope name, env.ending ty ≠ .named scope name) :
    env.ending ty = env.head ty := by
  refine ending_eq_head_of_ne fun scope name isHead => ?_
  have ends := regular.ends ty
  generalize env.ending ty = found at ends notNamed
  cases ends with
  | @unbound otherScope id isFollowed unbound =>
      have stands : env.standsFor? (.placeholder otherScope id) = none := unbound
      have followed := head_follow regular.consistent regular.acyclic ty
      rw [isFollowed, isHead, head_eq_self stands] at followed
      contradiction
  | dangling isFollowed _ => exact notNamed _ _ rfl
  | solid same isSolid => exact Ty.ne_named_of_isSolid isSolid _ _ (same.symm.trans isHead)

/-- A tidy type ends at a tidy one. -/
theorem tidy_ending {ty : Ty} (tidy : ty.Tidy scopeOf) : (env.ending ty).Tidy scopeOf :=
  ending_induction (motive := Ty.Tidy scopeOf) (fun _ stands => regular.tidy stands) tidy

/-- A tidy type is followed to a tidy one. -/
theorem tidy_follow {ty : Ty} (tidy : ty.Tidy scopeOf) : (env.follow ty).Tidy scopeOf := by
  refine follow_induction (motive := Ty.Tidy scopeOf) ?_ tidy
  intro scope id bound _ isBound
  have stands : env.standsFor? (.placeholder scope id) = some bound := isBound
  exact regular.tidy stands

/-- A type ends at one whose placeholders have their scopes. -/
theorem inScope_ending {ty : Ty} (inScope : ty.ScopedBy scopeOf) :
    (env.ending ty).ScopedBy scopeOf :=
  ending_induction (motive := Ty.ScopedBy scopeOf)
    (fun _ stands => (regular.tidy stands).inScope) inScope

/-- What is at the head of a type, if that is no reference, ends where the type ends. -/
theorem head_of_ne
    {ty : Ty}
    (tidy : ty.Tidy scopeOf)
    (notNamed : ∀ scope name, env.head ty ≠ .named scope name) :
    (env.head ty).Tidy scopeOf ∧ env.ending (env.head ty) = env.ending ty := by
  have isHead := ending_eq_head_of_ne notNamed
  rw [← isHead]
  exact ⟨regular.tidy_ending tidy, regular.ending_ending ty⟩

/-- A type that ends at a placeholder ends at one in its scope. -/
theorem exists_ending
    {ty : Ty}
    (inScope : ty.ScopedBy scopeOf)
    (isPlaceholder : (env.ending ty).isPlaceholder = true) :
    ∃ id, env.ending ty = .placeholder (scopeOf id) id := by
  have endingInScope := regular.inScope_ending inScope
  cases isEnding : env.ending ty with
  | placeholder scope id =>
      rw [isEnding] at endingInScope
      exact ⟨id, congrArg (Ty.placeholder · id) endingInScope.eq_scopeOf⟩
  | _ =>
      rw [isEnding] at isPlaceholder
      contradiction

end Regular

/-! ## The occurs check -/

/-- A placeholder is an ending inside a type. -/
inductive Harbors (env : Environment) (var : Ty) : Ty → Prop where
  | here {ty : Ty} :
      env.ending ty = var →
      Harbors env var ty
  | part {ty leaf : Ty} :
      leaf ∈ (env.ending ty).leaves →
      Harbors env var leaf →
      Harbors env var ty

namespace Harbors

variable {var ty : Ty}

/-- Whether a placeholder is inside a type depends on where the type ends. -/
theorem congr
    {other : Ty}
    (harbors : env.Harbors var ty)
    (sameEnding : env.ending other = env.ending ty) :
    env.Harbors var other := by
  cases harbors with
  | here isVar => exact .here (sameEnding.trans isVar)
  | part isLeaf inside => exact .part (sameEnding ▸ isLeaf) inside

/-- Nothing is found behind a reference that stands for no type. -/
theorem ending_ne_named
    (regular : env.Regular scopeOf)
    (harbors : env.Harbors var ty)
    (isPlaceholder : var.isPlaceholder = true)
    (scope : ScopeId)
    (name : String) :
    env.ending ty ≠ .named scope name := by
  intro isNamed
  induction harbors with
  | here isVar =>
      rw [← isVar, isNamed] at isPlaceholder
      contradiction
  | @part ty leaf isLeaf _ inductionHypothesis =>
      rw [isNamed, Ty.leaves_named, List.mem_singleton] at isLeaf
      refine inductionHypothesis ?_
      rw [isLeaf, ← isNamed, regular.ending_ending]

/-- A type that ends at a placeholder harbors that one alone. -/
theorem eq_ending
    (regular : env.Regular scopeOf)
    (harbors : env.Harbors var ty)
    {scope : ScopeId}
    {id : PlaceholderId}
    (isEnding : env.ending ty = .placeholder scope id) :
    var = .placeholder scope id := by
  induction harbors with
  | here isVar => exact isVar.symm.trans isEnding
  | @part ty leaf isLeaf _ inductionHypothesis =>
      rw [isEnding, Ty.leaves_placeholder, List.mem_singleton] at isLeaf
      refine inductionHypothesis ?_
      rw [isLeaf, ← isEnding, regular.ending_ending]

/-- What a leaf of a type harbors, the type harbors. -/
theorem of_mem_leaves
    {leaf : Ty}
    (harbors : env.Harbors var leaf)
    (isLeaf : leaf ∈ ty.leaves) :
    env.Harbors var ty := by
  cases ty with
  | placeholder scope id =>
      rw [Ty.leaves_placeholder, List.mem_singleton] at isLeaf
      exact isLeaf ▸ harbors
  | named scope name =>
      rw [Ty.leaves_named, List.mem_singleton] at isLeaf
      exact isLeaf ▸ harbors
  | _ => exact .part (by rwa [ending_eq_self rfl]) harbors

/-- What is harbored by the type that a leaf stands for, the leaf harbors. -/
theorem of_standsFor?
    (regular : env.Regular scopeOf)
    (isPlaceholder : var.isPlaceholder = true)
    {leaf next : Ty}
    (stands : env.standsFor? leaf = some next)
    (harbors : env.Harbors var next) :
    env.Harbors var leaf := by
  refine harbors.congr ?_
  cases leaf with
  | placeholder scope id => exact regular.ending_bound stands scope
  | named scope name =>
      have sameHead := head_eq_of_standsFor? regular.consistent regular.acyclic stands
      have notNamed := harbors.ending_ne_named regular isPlaceholder
      have isHead := regular.ending_eq_head notNamed
      rw [isHead, ← sameHead] at notNamed
      rw [isHead, ← sameHead, ending_eq_head_of_ne notNamed]
  | _ => cases stands

/-- An unbound placeholder that is reached from a type is harbored by it. -/
theorem of_reaches
    (regular : env.Regular scopeOf)
    {scope : ScopeId}
    {id : PlaceholderId}
    (unbound : env.binding? id = none)
    (reaches : env.Reaches ty (.placeholder scope id)) :
    env.Harbors (.placeholder scope id) ty := by
  obtain ⟨leaf, isLeaf, path⟩ := reaches
  refine of_mem_leaves ?_ isLeaf
  clear isLeaf
  induction path using Relation.ReflTransGen.head_induction_on with
  | refl => exact .here (ending_eq_self unbound)
  | head step _ inductionHypothesis =>
      obtain ⟨next, stands, isInside⟩ := step
      exact of_standsFor? regular rfl stands (inductionHypothesis.of_mem_leaves isInside)

/-- What is harbored by a type is reached from it. -/
theorem reaches
    {scope : ScopeId}
    {id : PlaceholderId}
    (harbors : env.Harbors (.placeholder scope id) ty) :
    env.Reaches ty (.placeholder scope id) := by
  have ofEnding {ty : Ty}
      (reaches : env.Reaches (env.ending ty) (.placeholder scope id)) :
      env.Reaches ty (.placeholder scope id) := by
    refine ending_induction
      (motive := fun other => env.Reaches other _ → env.Reaches ty _) ?_ (fun inside => inside)
      reaches
    intro leaf next toTy stands inside
    refine toTy (inside.of_standsFor? ?_ stands)
    cases leaf with
    | placeholder | named => simp
    | _ => cases stands
  induction harbors with
  | here isEnding =>
      refine ofEnding ?_
      rw [isEnding]
      exact ⟨_, by simp, .refl⟩
  | part isLeaf _ inductionHypothesis =>
      refine ofEnding ?_
      obtain ⟨inside, isInside, path⟩ := inductionHypothesis
      rw [(Ty.isLeaf_of_mem_leaves isLeaf).leaves_eq, List.mem_singleton] at isInside
      exact ⟨inside, isInside ▸ isLeaf, path⟩

end Harbors

/-- What a leaf leads to has its placeholders in their scopes. -/
theorem Regular.inScope_of_leadsTo
    (regular : env.Regular scopeOf)
    {leaf target : Ty}
    (inScope : leaf.ScopedBy scopeOf)
    (path : Relation.ReflTransGen env.LeadsTo leaf target) :
    target.ScopedBy scopeOf := by
  induction path with
  | refl => exact inScope
  | tail _ step _ =>
      obtain ⟨next, stands, isInside⟩ := step
      exact (regular.tidy stands).inScope.of_mem_leaves isInside

/-- The occurs check finds an unbound placeholder exactly if it is an ending inside the type. -/
theorem Regular.occurs_eq_true_iff
    (regular : env.Regular scopeOf)
    {id : PlaceholderId}
    (unbound : env.binding? id = none)
    {ty : Ty}
    (inScope : ty.ScopedBy scopeOf) :
    env.occurs id ty = true ↔ env.Harbors (.placeholder (scopeOf id) id) ty := by
  rw [Environment.occurs_eq_true_iff regular.consistent]
  constructor
  · rintro ⟨scope, reaches⟩
    have isScope : scope = scopeOf id := by
      obtain ⟨leaf, isLeaf, path⟩ := reaches
      exact (regular.inScope_of_leadsTo (inScope.of_mem_leaves isLeaf) path).eq_scopeOf
    rw [isScope] at reaches
    exact .of_reaches regular unbound reaches
  · exact fun harbors => ⟨_, harbors.reaches⟩

/-! ## Binding variables -/

/-- Where no steps are kept, writing one down changes nothing. -/
theorem traceUnify_of_quiet
    (quiet : env.options.trace = false)
    (event : UnifyEvent)
    (left right : Operand) :
    env.traceUnify event left right = env := by
  rw [traceUnify, if_neg (quiet ▸ Bool.false_ne_true)]

/-- A length is resolved as before, unless it ended at a variable that is bound now. -/
theorem Grows.resolveLength_eq
    (grows : env.Grows later)
    (consistent : later.frames.Consistent)
    {length : Length}
    (stillUnbound : ∀ id, env.resolveLength length = .var id → later.frames.length? id = none) :
    later.resolveLength length = env.resolveLength length := by
  rw [← grows.resolveLength_resolveLength consistent]
  cases resolved : env.resolveLength length with
  | known count => rfl
  | var id => rw [resolveLength_var consistent, stillUnbound id resolved]

/-- Binding a length binds no placeholder. -/
theorem binding?_bindLength
    (env : Environment)
    (id : LengthId)
    (length : Length)
    (other : PlaceholderId) :
    (env.bindLength id length).binding? other = env.binding? other := by
  rw [binding?, bindLength]
  exact FrameStack.read_write_of_eq rfl

/-- Binding a length does not bind another one. -/
theorem length?_bindLength_of_ne
    {id other : LengthId}
    (different : other ≠ id)
    {length : Length} :
    (env.bindLength id length).frames.length? other = env.frames.length? other :=
  (FrameStack.length?_bindLength id length env.frames other).trans (if_neg different)

namespace Regular

variable (regular : env.Regular scopeOf)
include regular

/-- Binding an unbound placeholder to a type without it is a step of unification. -/
theorem binds_placeholder
    {id : PlaceholderId}
    {ty : Ty}
    (unbound : env.binding? id = none)
    (notFound : env.occurs id ty = false) :
    env.Binds (env.bindPlaceholder id ty) := by
  have step := Binds.placeholder .identity (.type ty) (.type ty) unbound notFound
  rwa [traceUnify_of_quiet regular.quiet] at step

/-- Binding an unbound length variable to another length is a step of unification. -/
theorem binds_length
    {id : LengthId}
    {first second : Length}
    (isVar : env.resolveLength first = .var id)
    (different : env.resolveLength second ≠ .var id) :
    env.Binds (env.bindLength id (env.resolveLength second)) := by
  have step := Binds.length .identity (.length first) (.length second) isVar different
  rwa [traceUnify_of_quiet regular.quiet] at step

/-- An environment stays regular if unification binds tidy types. -/
theorem of_binds
    (step : env.Binds later)
    (quiet : later.options.trace = false)
    (tidy :
      ∀ {leaf next},
        later.standsFor? leaf = some next →
        env.standsFor? leaf = some next ∨ next.Tidy scopeOf) :
    later.Regular scopeOf := by
  have consistent := step.consistent regular.consistent
  have acyclic := step.acyclic regular.consistent regular.acyclic
  refine ⟨quiet, consistent, acyclic, fun stands => ?_, fun scope name => ?_⟩
  · exact (tidy stands).elim regular.tidy id
  · have isFound := regular.heads scope name
    have grows := Grows.of_binds regular.consistent step
    rwa [grows.head_eq consistent acyclic regular.consistent regular.acyclic isFound]

/-- Binding an unbound placeholder to a tidy type without it keeps the environment regular. -/
theorem bindPlaceholder
    {id : PlaceholderId}
    {ty : Ty}
    (tidy : ty.Tidy scopeOf)
    (unbound : env.binding? id = none)
    (notFound : env.occurs id ty = false) :
    (env.bindPlaceholder id ty).Regular scopeOf := by
  refine regular.of_binds (regular.binds_placeholder unbound notFound) regular.quiet ?_
  intro leaf next stands
  cases leaf with
  | placeholder scope other =>
      change FrameStack.placeholder? (env.frames.bindPlaceholder id ty) other = some next at stands
      rw [FrameStack.placeholder?_bindPlaceholder] at stands
      split at stands
      · cases stands
        exact Or.inr tidy
      · exact Or.inl stands
  | named scope name => exact Or.inl stands
  | _ => cases stands

/-- Binding an unbound length variable to another length keeps the environment regular. -/
theorem bindLength
    {id : LengthId}
    {first second : Length}
    (isVar : env.resolveLength first = .var id)
    (different : env.resolveLength second ≠ .var id) :
    (env.bindLength id (env.resolveLength second)).Regular scopeOf := by
  refine regular.of_binds (regular.binds_length isVar different) regular.quiet ?_
  intro leaf next stands
  cases leaf with
  | placeholder scope other =>
      exact Or.inl ((binding?_bindLength env id _ other).symm.trans stands)
  | named scope name => exact Or.inl stands
  | _ => cases stands

/-- A type ends where it ended before, unless it ended at a placeholder that is bound now. -/
theorem ending_of_grows
    (grows : env.Grows later)
    (laterRegular : later.Regular scopeOf)
    {ty : Ty}
    (stillUnbound : ∀ scope id, env.ending ty = .placeholder scope id → later.binding? id = none) :
    later.ending ty = env.ending ty := by
  have head_eq (notPlaceholder : (env.head ty).isPlaceholder = false) :
      later.head ty = env.head ty :=
    grows.head_eq laterRegular.consistent laterRegular.acyclic regular.consistent regular.acyclic
      notPlaceholder
  have ends := regular.ends ty
  generalize env.ending ty = found at stillUnbound ends
  cases ends with
  | @unbound scope id isFollowed _ =>
      rw [← laterRegular.ending_follow, ← grows.follow_follow laterRegular.consistent, isFollowed,
        laterRegular.ending_follow]
      exact ending_eq_self (stillUnbound scope id rfl)
  | dangling isFollowed isHead =>
      have laterHead := head_eq (isHead ▸ rfl)
      unfold ending
      rw [laterHead, isHead, ← grows.follow_follow laterRegular.consistent, isFollowed]
      exact follow_eq_self rfl
  | solid isHead isSolid =>
      have laterHead : later.head ty = found :=
        (head_eq (isHead ▸ Ty.isPlaceholder_of_isSolid isSolid)).trans isHead
      rw [ending_eq_head_of_ne (laterHead ▸ Ty.ne_named_of_isSolid isSolid), laterHead]

/-- Where a type ends after a placeholder has been bound. -/
theorem ending_bindPlaceholder
    {id : PlaceholderId}
    {ty : Ty}
    (tidy : ty.Tidy scopeOf)
    (unbound : env.binding? id = none)
    (notFound : env.occurs id ty = false)
    {other : Ty}
    (inScope : other.ScopedBy scopeOf) :
    (env.bindPlaceholder id ty).ending other =
      if env.ending other = .placeholder (scopeOf id) id then env.ending ty
      else env.ending other := by
  have later := regular.bindPlaceholder tidy unbound notFound
  have grows := Grows.of_binds regular.consistent (regular.binds_placeholder unbound notFound)
  have kept {other : Ty}
      (inScope : other.ScopedBy scopeOf)
      (different : env.ending other ≠ .placeholder (scopeOf id) id) :
      (env.bindPlaceholder id ty).ending other = env.ending other := by
    refine regular.ending_of_grows grows later fun scope otherId isEnding => ?_
    have otherScope := regular.inScope_ending inScope
    rw [isEnding] at different otherScope
    have isOther : otherId ≠ id := by
      rintro rfl
      exact different (congrArg (Ty.placeholder · otherId) otherScope.eq_scopeOf)
    exact (FrameStack.placeholder?_bindPlaceholder id ty env.frames otherId).trans
      ((if_neg isOther).trans (regular.follow_of_ending isEnding).2)
  split
  · rename_i isEnding
    have isBound : (env.bindPlaceholder id ty).binding? id = some ty :=
      binding?_bindPlaceholder env id ty
    have notEnding : env.ending ty ≠ .placeholder (scopeOf id) id := by
      intro same
      have found := (regular.occurs_eq_true_iff unbound tidy.inScope).mpr (.here same)
      rw [notFound] at found
      contradiction
    rw [← later.ending_follow, ← grows.follow_follow later.consistent,
      (regular.follow_of_ending isEnding).1,
      later.ending_follow, later.ending_bound isBound]
    exact kept tidy.inScope notEnding
  · exact kept inScope ‹_›

/-- Lengths change no endings. -/
theorem ending_bindLength
    {id : LengthId}
    {first second : Length}
    (isVar : env.resolveLength first = .var id)
    (different : env.resolveLength second ≠ .var id)
    (ty : Ty) :
    (env.bindLength id (env.resolveLength second)).ending ty = env.ending ty := by
  have grows := Grows.of_binds regular.consistent (regular.binds_length isVar different)
  refine regular.ending_of_grows grows (regular.bindLength isVar different) ?_
  intro scope otherId isEnding
  rw [binding?_bindLength]
  exact (regular.follow_of_ending isEnding).2

/-- Placeholders change no lengths. -/
theorem resolveLength_bindPlaceholder
    {id : PlaceholderId}
    {ty : Ty}
    (tidy : ty.Tidy scopeOf)
    (unbound : env.binding? id = none)
    (notFound : env.occurs id ty = false)
    (length : Length) :
    (env.bindPlaceholder id ty).resolveLength length = env.resolveLength length := by
  have grows := Grows.of_binds regular.consistent (regular.binds_placeholder unbound notFound)
  refine grows.resolveLength_eq (regular.bindPlaceholder tidy unbound notFound).consistent ?_
  intro otherId resolved
  have stillUnbound := length?_of_resolveLength_eq_var regular.consistent resolved
  exact (FrameStack.read_write_of_eq rfl).trans stillUnbound

/-- What a length is resolved to after a variable has been bound. -/
theorem resolveLength_bindLength
    {id : LengthId}
    {first second : Length}
    (isVar : env.resolveLength first = .var id)
    (different : env.resolveLength second ≠ .var id)
    (length : Length) :
    (env.bindLength id (env.resolveLength second)).resolveLength length =
      if env.resolveLength length = .var id then env.resolveLength second
      else env.resolveLength length := by
  have later := regular.bindLength isVar different
  have grows := Grows.of_binds regular.consistent (regular.binds_length isVar different)
  have kept {other : Length} (notVar : env.resolveLength other ≠ .var id) :
      (env.bindLength id (env.resolveLength second)).resolveLength other =
        env.resolveLength other := by
    refine grows.resolveLength_eq later.consistent fun otherId resolved => ?_
    have isOther : otherId ≠ id := fun same => notVar (same ▸ resolved)
    rw [length?_bindLength_of_ne isOther]
    exact length?_of_resolveLength_eq_var regular.consistent resolved
  split
  · rename_i isEnding
    rw [← grows.resolveLength_resolveLength later.consistent, isEnding,
      resolveLength_var later.consistent, length?_bindLength]
    exact (grows.resolveLength_resolveLength later.consistent second).trans (kept different)
  · exact kept ‹_›

end Regular

end Environment

end ShaderTyping
