import ShaderTyping.Proofs.Composition

namespace ShaderTyping

/-!
# Traversals with effects

A traversal may change a state while it visits the leaves of a type, and its visits may
return what is known only when the whole traversal has ended.  `Ty.traverse_visits`
relates such a traversal to a substitution: if every visit puts what the substitution
puts, so does the traversal, and the effects of its visits add up along the leaves and
lengths of the rebuilt type.  Parts that visits leave alone are returned as they are.
-/

namespace Ty

section Traversal

variable {m : Type → Type} [Monad m] {σ : Type}
variable {motive : ∀ {α : Type}, m α → (σ → α) → List Ty → List Length → Prop}
variable
  (pure :
    ∀ {α : Type} (value : α), motive (pure value : m α) (fun _ => value) [] [])
  (bind :
    ∀ {α β : Type} {first : m α} {next : α → m β} {value : σ → α} {result : α → σ → β}
      {leaves moreLeaves : List Ty} {lengths moreLengths : List Length},
      motive first value leaves lengths →
      (∀ given, motive (next given) (result given) moreLeaves moreLengths) →
      motive (first >>= next) (fun later => result (value later) later)
        (leaves ++ moreLeaves) (lengths ++ moreLengths))

include pure bind

/-- Continuing with a value alone adds neither leaves nor lengths. -/
theorem visits_map
    {first : m α}
    {value : σ → α}
    {leaves : List Ty}
    {lengths : List Length}
    (given : motive first value leaves lengths)
    (rebuild : α → β) :
    motive (first >>= fun part => Pure.pure (rebuild part)) (fun later => rebuild (value later))
      leaves lengths := by
  have both := bind given fun part => pure (rebuild part)
  rwa [List.append_nil, List.append_nil] at both

variable {visitor : Visitor m} {substitution : σ → Substitution} {now : Substitution}

/-- If every field puts in what the substitution does, so do all fields in a row. -/
theorem traverseFields_visits
    {fields : List (String × Ty)}
    (each :
      ∀ field ∈ fields,
        motive (field.2.traverse visitor) (fun later => field.2.subst (substitution later))
          (field.2.subst now).leaves (field.2.subst now).lengths) :
    motive (traverseFields visitor fields)
      (fun later => fields.map fun field => (field.1, field.2.subst (substitution later)))
      (fields.flatMap fun field => (field.2.subst now).leaves)
      (fields.flatMap fun field => (field.2.subst now).lengths) := by
  induction fields with
  | nil => exact pure []
  | cons field rest inductionHypothesis =>
      obtain ⟨first, others⟩ := List.forall_mem_cons.mp each
      exact bind first fun ty =>
        visits_map pure bind (inductionHypothesis others) fun rest => (field.1, ty) :: rest

/-- If every member puts in what the substitution does, so do all members in a row. -/
theorem traverseMembers_visits
    {members : List Ty}
    (each :
      ∀ member ∈ members,
        motive (member.traverse visitor) (fun later => member.subst (substitution later))
          (member.subst now).leaves (member.subst now).lengths) :
    motive (traverseMembers visitor members)
      (fun later => members.map fun member => member.subst (substitution later))
      (members.flatMap fun member => (member.subst now).leaves)
      (members.flatMap fun member => (member.subst now).lengths) := by
  induction members with
  | nil => exact pure []
  | cons member rest inductionHypothesis =>
      obtain ⟨first, others⟩ := List.forall_mem_cons.mp each
      exact bind first fun ty =>
        visits_map pure bind (inductionHypothesis others) fun rest => ty :: rest

/--
A traversal puts what a substitution puts, if each of its visits does.

What a visit puts may depend on a state that is known only later; the leaves and
lengths of the rebuilt type are those that the visits add up to now.
-/
theorem traverse_visits
    (congr :
      ∀ {α : Type} {computation : m α} {value : σ → α}
        {leaves sameLeaves : List Ty} {lengths sameLengths : List Length},
        (∀ leaf, leaf ∈ leaves ↔ leaf ∈ sameLeaves) →
        (∀ length, length ∈ lengths ↔ length ∈ sameLengths) →
        motive computation value leaves lengths →
        motive computation value sameLeaves sameLengths)
    (length :
      ∀ length,
        motive (visitor.length length) (fun later => (substitution later).length length)
          [] [now.length length])
    {ty : Ty}
    (visits :
      ∀ leaf ∈ ty.leaves,
        motive (leaf.traverse visitor) (fun later => leaf.subst (substitution later))
          (leaf.subst now).leaves (leaf.subst now).lengths) :
    motive (ty.traverse visitor) (fun later => ty.subst (substitution later))
      (ty.subst now).leaves (ty.subst now).lengths := by
  induction ty using Ty.induction with
  | primitive | named | placeholder | parametric => exact visits _ (by simp)
  | array component bound inductionHypothesis =>
      rw [leaves_array] at visits
      have both := bind (inductionHypothesis visits) fun component =>
        visits_map pure bind (length bound) (Ty.array component)
      rw [List.append_nil] at both
      simp only [subst_array, leaves_array, lengths_array]
      exact both
  | struct fields inductionHypothesis =>
      rw [leaves_struct, List.forall_mem_flatMap] at visits
      have all := traverseFields_visits pure bind fun field isField =>
        inductionHypothesis field isField (visits field isField)
      simp only [subst_struct, leaves_struct, lengths_struct, List.flatMap_map]
      exact visits_map pure bind all Ty.struct
  | function param result paramHypothesis resultHypothesis =>
      rw [leaves_function, List.forall_mem_append] at visits
      simp only [subst_function, leaves_function, lengths_function]
      exact bind (paramHypothesis visits.1) fun param =>
        visits_map pure bind (resultHypothesis visits.2) (Ty.function param)
  | union members inductionHypothesis =>
      rw [leaves_union, List.forall_mem_flatMap] at visits
      have all := traverseMembers_visits pure bind fun member isMember =>
        inductionHypothesis member isMember (visits member isMember)
      have rebuilt :=
        visits_map pure bind all fun members => (ofMembers members).getD (.union [])
      simp only [subst_union]
      refine congr (fun leaf => ?_) (fun length => ?_) rebuilt
      · rw [leaves, mem_collect_ofMembers_iff, List.mem_flatMap]
        simp only [List.mem_map, exists_exists_and_eq_and]
        rfl
      · rw [lengths, mem_collect_ofMembers_iff, List.mem_flatMap]
        simp only [List.mem_map, exists_exists_and_eq_and]
        rfl

end Traversal

section Unchanged

variable {m : Type → Type} [Monad m] [LawfulMonad m] {visitor : Visitor m}

/-- Visiting fields changes nothing if visiting each of them does not. -/
theorem traverseFields_eq_pure
    {fields : List (String × Ty)}
    (each : ∀ field ∈ fields, field.2.traverse visitor = pure field.2) :
    traverseFields visitor fields = pure fields := by
  induction fields with
  | nil => rfl
  | cons field rest inductionHypothesis =>
      obtain ⟨fieldKept, restKept⟩ := List.forall_mem_cons.mp each
      simp only [traverseFields, fieldKept, inductionHypothesis restKept, pure_bind]

/-- If no member is changed, the members are not. -/
theorem traverseMembers_eq_pure
    {members : List Ty}
    (each : ∀ member ∈ members, member.traverse visitor = pure member) :
    traverseMembers visitor members = pure members := by
  induction members with
  | nil => rfl
  | cons member rest inductionHypothesis =>
      obtain ⟨memberKept, restKept⟩ := List.forall_mem_cons.mp each
      simp only [traverseMembers, memberKept, inductionHypothesis restKept, pure_bind]

end Unchanged

end Ty

end ShaderTyping
