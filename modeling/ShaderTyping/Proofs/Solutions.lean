import ShaderTyping.Proofs.Descent

namespace ShaderTyping

/-!
# Solutions of bindings

Rigid types are built from primitives other than `int`, arrays, functions,
placeholders and parametric types: no type among them agrees with a different one, so
two of them can be unified only by making them equal.  A solution chooses a type for
each placeholder and a length for each length variable, and it solves an environment if
it gives bound variables what they are bound to.  `Action.Narrows` says of an action
that it narrows the solutions by exactly one condition, and that it fails only if no
solution meets the condition.
-/

namespace Ty

/--
A type of the fragment in which unification is by equality alone.

Each placeholder has one scope, which two placeholders with the same identity share.
-/
inductive Rigid (scopeOf : PlaceholderId → ScopeId) : Ty → Prop where
  | primitive {kind : Primitive} : kind ≠ .int → Rigid scopeOf (.primitive kind)
  | array {component : Ty} (length : Length) :
      Rigid scopeOf component → Rigid scopeOf (.array component length)
  | function {param result : Ty} :
      Rigid scopeOf param → Rigid scopeOf result → Rigid scopeOf (.function param result)
  | placeholder (id : PlaceholderId) : Rigid scopeOf (.placeholder (scopeOf id) id)
  | parametric (scope : ScopeId) (label : LabelId) : Rigid scopeOf (.parametric scope label)

namespace Rigid

variable {scopeOf : PlaceholderId → ScopeId}

/-- The parts of a rigid type are rigid. -/
theorem of_mem_children
    {whole part : Ty}
    (rigid : whole.Rigid scopeOf)
    (isPart : part ∈ whole.children) :
    part.Rigid scopeOf := by
  cases rigid with
  | array length component =>
      rw [List.mem_singleton.mp isPart]
      exact component
  | function param result =>
      rcases List.mem_cons.mp isPart with isParam | isResult
      · exact isParam ▸ param
      · exact List.mem_singleton.mp isResult ▸ result
  | primitive | placeholder | parametric => contradiction

/-- Everything inside a rigid type is rigid. -/
theorem of_mem_parts
    {ty part : Ty}
    (rigid : ty.Rigid scopeOf)
    (isPart : part ∈ ty.parts) :
    part.Rigid scopeOf := by
  induction ty using childrenInduction with
  | step ty inductionHypothesis =>
      rw [parts_eq] at isPart
      rcases List.mem_cons.mp isPart with same | inside
      · exact same ▸ rigid
      · obtain ⟨child, isChild, inChild⟩ := List.mem_flatMap.mp inside
        exact inductionHypothesis child isChild (rigid.of_mem_children isChild) inChild

/-- The leaves of a rigid type are rigid. -/
theorem of_mem_leaves
    {ty leaf : Ty}
    (rigid : ty.Rigid scopeOf)
    (isLeaf : leaf ∈ ty.leaves) :
    leaf.Rigid scopeOf := by
  induction rigid with
  | primitive notInt => exact List.mem_singleton.mp isLeaf ▸ .primitive notInt
  | placeholder id => exact List.mem_singleton.mp isLeaf ▸ .placeholder id
  | parametric scope label => exact List.mem_singleton.mp isLeaf ▸ .parametric scope label
  | array length _ inductionHypothesis =>
      rw [leaves_array] at isLeaf
      exact inductionHypothesis isLeaf
  | function _ _ paramHypothesis resultHypothesis =>
      rw [leaves_function] at isLeaf
      exact (List.mem_append.mp isLeaf).elim paramHypothesis resultHypothesis

end Rigid

end Ty

/-- A choice of a type for each placeholder and of a length for each length variable. -/
structure Solution where
  types : PlaceholderId → Ty
  lengths : LengthId → Length

namespace Solution

/-- The length with the chosen lengths in place of variables. -/
def applyLength (solution : Solution) : Length → Length
  | .known count => .known count
  | .var id => solution.lengths id

/-- The type with the chosen types and lengths in place of its variables. -/
def apply (solution : Solution) (ty : Ty) : Ty :=
  ty.subst
    { named := .named
      placeholder := fun _ id => solution.types id
      parametric := .parametric
      length := solution.applyLength }

/-- Whether bound variables are given what they are bound to. -/
structure Solves (solution : Solution) (env : Environment) : Prop where
  placeholders :
    ∀ {id ty}, env.binding? id = some ty → solution.types id = solution.apply ty
  lengths :
    ∀ {id length},
      env.frames.length? id = some length →
      solution.lengths id = solution.applyLength length

variable {solution : Solution} {env : Environment}

/-- A solution puts its type for a placeholder. -/
@[simp] theorem apply_placeholder (solution : Solution) (scope : ScopeId) (id : PlaceholderId) :
    solution.apply (.placeholder scope id) = solution.types id :=
  rfl

/-- A solution keeps primitives. -/
@[simp] theorem apply_primitive (solution : Solution) (kind : Primitive) :
    solution.apply (.primitive kind) = .primitive kind :=
  rfl

/-- A solution keeps quantified types. -/
@[simp] theorem apply_parametric (solution : Solution) (scope : ScopeId) (label : LabelId) :
    solution.apply (.parametric scope label) = .parametric scope label :=
  rfl

/-- A solution of an array is an array of the solutions. -/
@[simp] theorem apply_array (solution : Solution) (component : Ty) (length : Length) :
    solution.apply (.array component length) =
      .array (solution.apply component) (solution.applyLength length) :=
  rfl

/-- A solution of a function is a function of the solutions. -/
@[simp] theorem apply_function (solution : Solution) (param result : Ty) :
    solution.apply (.function param result) =
      .function (solution.apply param) (solution.apply result) :=
  rfl

/-- A type and what is followed at its head become equal. -/
theorem Solves.apply_follow
    (solves : solution.Solves env)
    (ty : Ty) :
    solution.apply (env.follow ty) = solution.apply ty := by
  refine Environment.follow_induction
    (motive := fun followed => solution.apply followed = solution.apply ty) ?_ rfl
  intro scope id bound same found
  rw [← solves.placeholders found]
  exact same

/-- A length and what it is resolved to become equal. -/
theorem Solves.applyLength_resolveLength
    (solves : solution.Solves env)
    (length : Length) :
    solution.applyLength (env.resolveLength length) = solution.applyLength length := by
  have within (steps : Nat) (length : Length) :
      solution.applyLength (env.resolveLengthWithin steps length) =
        solution.applyLength length := by
    induction steps generalizing length with
    | zero => cases length <;> rfl
    | succ steps inductionHypothesis =>
        cases length with
        | known count => rfl
        | var id =>
            rw [Environment.resolveLengthWithin]
            cases found : env.frames.length? id with
            | none => rfl
            | some bound =>
                exact (inductionHypothesis bound).trans (solves.lengths found).symm
  cases length with
  | known count => rfl
  | var id => exact within _ _

end Solution

namespace Environment

/-- Bindings are consistent, and placeholders are bound to rigid types. -/
structure RigidlyBound (scopeOf : PlaceholderId → ScopeId) (env : Environment) : Prop where
  consistent : env.frames.Consistent
  rigid : ∀ {id ty}, env.binding? id = some ty → ty.Rigid scopeOf

end Environment

/-! ## The occurs check refuses nothing that can be solved -/

namespace Solution

variable {scopeOf : PlaceholderId → ScopeId} {solution : Solution} {env : Environment}

/-- A leaf becomes smaller than the type around it. -/
theorem size_apply_leaf
    {ty leaf : Ty}
    (rigid : ty.Rigid scopeOf)
    (isLeaf : leaf ∈ ty.leaves) :
    leaf = ty ∨ (solution.apply leaf).size < (solution.apply ty).size := by
  have smaller {part : Ty} (hypothesis :
      leaf = part ∨ (solution.apply leaf).size < (solution.apply part).size) :
      (solution.apply leaf).size ≤ (solution.apply part).size :=
    hypothesis.elim (fun same => same ▸ Nat.le_refl _) Nat.le_of_lt
  induction rigid with
  | primitive | placeholder | parametric => exact Or.inl (List.mem_singleton.mp isLeaf)
  | array length _ inductionHypothesis =>
      rw [Ty.leaves_array] at isLeaf
      have notMore := smaller (inductionHypothesis isLeaf)
      exact Or.inr (by simp only [apply_array, Ty.size]; omega)
  | function _ _ paramHypothesis resultHypothesis =>
      rw [Ty.leaves_function] at isLeaf
      refine Or.inr ?_
      simp only [apply_function, Ty.size]
      rcases List.mem_append.mp isLeaf with inParam | inResult
      · have notMore := smaller (paramHypothesis inParam)
        omega
      · have notMore := smaller (resultHypothesis inResult)
        omega

/-- What a leaf leads to along rigid bindings does not become larger than the leaf. -/
theorem Solves.size_le_of_leadsTo
    (solves : solution.Solves env)
    (bound : env.RigidlyBound scopeOf)
    {leaf target : Ty}
    (rigid : leaf.Rigid scopeOf)
    (path : Relation.ReflTransGen env.LeadsTo leaf target) :
    (solution.apply target).size ≤ (solution.apply leaf).size := by
  induction path using Relation.ReflTransGen.head_induction_on with
  | refl => exact Nat.le_refl _
  | head step _ inductionHypothesis =>
      obtain ⟨ty, stands, isLeaf⟩ := step
      cases rigid with
      | placeholder id =>
          have tyRigid := bound.rigid stands
          have rest := inductionHypothesis (tyRigid.of_mem_leaves isLeaf)
          have same : solution.types id = solution.apply ty := solves.placeholders stands
          rw [apply_placeholder, same]
          rcases size_apply_leaf tyRigid isLeaf with rfl | isLess
          · exact rest
          · exact rest.trans isLess.le
      | _ => cases stands

/-- A placeholder never becomes equal to another type in which it occurs. -/
theorem Solves.types_ne_of_occurs
    (solves : solution.Solves env)
    (bound : env.RigidlyBound scopeOf)
    {id : PlaceholderId}
    {ty : Ty}
    (rigid : ty.Rigid scopeOf)
    (unbound : ∀ {scope other}, ty = .placeholder scope other → env.binding? other = none)
    (different : ty ≠ .placeholder (scopeOf id) id)
    (occurs : env.occurs id ty = true) :
    solution.types id ≠ solution.apply ty := by
  obtain ⟨scope, leaf, isLeaf, path⟩ :=
    (Environment.occurs_eq_true_iff bound.consistent).mp occurs
  have notMore := solves.size_le_of_leadsTo bound (rigid.of_mem_leaves isLeaf) path
  rw [apply_placeholder] at notMore
  intro same
  rcases size_apply_leaf rigid isLeaf with rfl | isLess
  · -- The type is a leaf of its own, so it would have to be the placeholder itself.
    rcases Relation.ReflTransGen.cases_head path with isTarget | ⟨_, ⟨next, stands, _⟩, _⟩
    · subst isTarget
      cases rigid with
      | placeholder => exact different rfl
    · cases rigid with
      | placeholder other => exact absurd ((unbound rfl).symm.trans stands) (by simp)
      | _ => cases stands
  · rw [same] at notMore
    exact Nat.lt_irrefl _ (notMore.trans_lt isLess)

end Solution

/-! ## Steps that narrow the choices -/

namespace Action

/--
The action narrows the solutions of the environment to those that meet a condition; if
it fails, there are none.
-/
structure Narrows
    (scopeOf : PlaceholderId → ScopeId)
    (action : Action ε α)
    (env : Environment)
    (condition : Solution → Prop) : Prop where
  bound : ∀ {value final}, action env = .ok value final → final.RigidlyBound scopeOf
  succeeds :
    ∀ {value final},
      action env = .ok value final →
      ∀ solution : Solution, solution.Solves final ↔ solution.Solves env ∧ condition solution
  fails :
    ∀ {cause final},
      action env = .error cause final →
      ∀ solution : Solution, solution.Solves env → ¬ condition solution

namespace Narrows

variable {scopeOf : PlaceholderId → ScopeId} {env : Environment}
variable {condition : Solution → Prop}

/-- Returning a value narrows to what all solutions meet anyway. -/
theorem pure
    {value : α}
    (rigidlyBound : env.RigidlyBound scopeOf)
    (holds : ∀ {solution : Solution}, solution.Solves env → condition solution) :
    Narrows scopeOf (Pure.pure value : Action ε α) env condition where
  bound ended := by
    cases ended
    exact rigidlyBound
  succeeds ended solution := by
    cases ended
    exact ⟨fun solves => ⟨solves, holds solves⟩, And.left⟩
  fails ended := by cases ended

/-- Failing narrows if no solution meets the condition. -/
theorem fail
    {cause : ε}
    (unsolvable : ∀ {solution : Solution}, solution.Solves env → ¬ condition solution) :
    Narrows scopeOf (Action.fail cause : Action ε α) env condition where
  bound ended := by cases ended
  succeeds ended := by cases ended
  fails _ _ solves := unsolvable solves

theorem exhausted :
    Narrows scopeOf (Action.exhausted : Action ε α) env condition where
  bound ended := by cases ended
  succeeds ended := by cases ended
  fails ended := by cases ended

/-- A change narrows if the solutions afterwards are those that meet the condition. -/
theorem update
    {change : Environment → Environment}
    (rigidlyBound : (change env).RigidlyBound scopeOf)
    (solutions :
      ∀ solution : Solution,
        solution.Solves (change env) ↔ solution.Solves env ∧ condition solution) :
    Narrows scopeOf (Action.update change : Action ε Unit) env condition where
  bound ended := by
    cases ended
    exact rigidlyBound
  succeeds ended := by
    cases ended
    exact solutions
  fails ended := by cases ended

/-- An action that reads the environment narrows as what follows does. -/
theorem bind_environment
    {next : Environment → Action ε α}
    (narrows : Narrows scopeOf (next env) env condition) :
    Narrows scopeOf (Action.environment >>= next) env condition :=
  ⟨narrows.bound, narrows.succeeds, narrows.fails⟩

/-- Conditions that solutions of the environment do not tell apart may be exchanged. -/
theorem congr
    {other : Solution → Prop}
    {action : Action ε α}
    (narrows : Narrows scopeOf action env condition)
    (same : ∀ {solution : Solution}, solution.Solves env → (condition solution ↔ other solution)) :
    Narrows scopeOf action env other where
  bound := narrows.bound
  succeeds ended solution :=
    (narrows.succeeds ended solution).trans (and_congr_right fun solves => same solves)
  fails ended solution solves holds :=
    narrows.fails ended solution solves ((same solves).mpr holds)

/-- Two actions in a row narrow to the solutions that meet both conditions. -/
theorem bind
    {first : Action ε α}
    {next : α → Action ε β}
    {second : Solution → Prop}
    (firstNarrows : Narrows scopeOf first env condition)
    (nextNarrows :
      ∀ value {middle},
        middle.RigidlyBound scopeOf → Narrows scopeOf (next value) middle second) :
    Narrows scopeOf (first >>= next) env fun solution =>
      condition solution ∧ second solution where
  bound ended := by
    obtain ⟨value, middle, firstEnded, nextEnded⟩ := bind_eq_ok.mp ended
    exact (nextNarrows value (firstNarrows.bound firstEnded)).bound nextEnded
  succeeds ended solution := by
    obtain ⟨value, middle, firstEnded, nextEnded⟩ := bind_eq_ok.mp ended
    have next := nextNarrows value (firstNarrows.bound firstEnded)
    rw [next.succeeds nextEnded, firstNarrows.succeeds firstEnded, and_assoc]
  fails ended solution solves := by
    rintro ⟨firstHolds, secondHolds⟩
    rcases bind_eq_error.mp ended with failed | ⟨value, middle, firstEnded, nextEnded⟩
    · exact firstNarrows.fails failed solution solves firstHolds
    · have middleSolves :=
        (firstNarrows.succeeds firstEnded solution).mpr ⟨solves, firstHolds⟩
      have next := nextNarrows value (firstNarrows.bound firstEnded)
      exact next.fails nextEnded solution middleSolves secondHolds

/-- What is done after the last condition is met does not matter. -/
theorem map
    {first : Action ε α}
    {convert : α → β}
    (narrows : Narrows scopeOf first env condition) :
    Narrows scopeOf (first >>= fun value => Pure.pure (convert value)) env condition :=
  (narrows.bind fun _ _ rigidlyBound => .pure rigidlyBound fun _ => trivial).congr
    fun _ => and_iff_left trivial

/-- An alternative narrows as its parts do. -/
theorem orElse
    {first second : Action ε α}
    (firstNarrows : Narrows scopeOf first env condition)
    (secondNarrows : Narrows scopeOf second env condition) :
    Narrows scopeOf (first.orElse second) env condition := by
  have isEither : first.orElse second env = first env ∨ first.orElse second env = second env := by
    unfold Action.orElse
    cases first env with
    | ok | error => exact Or.inl rfl
    | exhausted => exact Or.inr rfl
  rcases isEither with same | same
  · exact
      ⟨fun ended => firstNarrows.bound (same ▸ ended),
        fun ended => firstNarrows.succeeds (same ▸ ended),
        fun ended => firstNarrows.fails (same ▸ ended)⟩
  · exact
      ⟨fun ended => secondNarrows.bound (same ▸ ended),
        fun ended => secondNarrows.succeeds (same ▸ ended),
        fun ended => secondNarrows.fails (same ▸ ended)⟩

end Narrows

end Action

/-! ## What a binding asks of solutions -/

namespace Solution

variable {solution : Solution} {env other : Environment}

/-- Only the frames matter. -/
theorem Solves.of_frames
    (solves : solution.Solves env)
    (same : other.frames = env.frames) :
    solution.Solves other where
  placeholders found := solves.placeholders (by rwa [Environment.binding?, same] at found)
  lengths found := solves.lengths (by rwa [same] at found)

/-- A step of unification binds nothing, so it has the same solutions. -/
theorem solves_traceUnify (event : UnifyEvent) (left right : Operand) :
    solution.Solves (env.traceUnify event left right) ↔ solution.Solves env := by
  have same := Environment.frames_traceUnify event left right env
  exact ⟨fun solves => solves.of_frames same.symm, fun solves => solves.of_frames same⟩

/-- Binding a placeholder narrows to the solutions that choose what it is bound to. -/
theorem solves_bindPlaceholder
    {id : PlaceholderId}
    {ty : Ty}
    (unbound : env.binding? id = none) :
    solution.Solves (env.bindPlaceholder id ty) ↔
      solution.Solves env ∧ solution.types id = solution.apply ty := by
  have bindings (other : PlaceholderId) :
      (env.bindPlaceholder id ty).binding? other =
        if other = id then some ty else env.binding? other :=
    FrameStack.placeholder?_bindPlaceholder id ty env.frames other
  have lengths (length : LengthId) :
      (env.bindPlaceholder id ty).frames.length? length = env.frames.length? length :=
    FrameStack.read_write_of_eq rfl
  constructor
  · intro solves
    refine ⟨⟨fun {other bound} found => solves.placeholders ?_,
      fun {length _} found => solves.lengths ((lengths length).trans found)⟩,
      solves.placeholders ((bindings id).trans (if_pos rfl))⟩
    have different : other ≠ id := by
      rintro rfl
      rw [unbound] at found
      contradiction
    rw [bindings, if_neg different]
    exact found
  · rintro ⟨solves, isSame⟩
    refine ⟨fun {other bound} found => ?_,
      fun {length _} found => solves.lengths ((lengths length).symm.trans found)⟩
    rw [bindings] at found
    split at found
    · rename_i same
      cases found
      rw [same]
      exact isSame
    · exact solves.placeholders found

/-- Binding a length variable narrows to the solutions that choose what it is bound to. -/
theorem solves_bindLength
    {id : LengthId}
    {length : Length}
    (unbound : env.frames.length? id = none) :
    solution.Solves (env.bindLength id length) ↔
      solution.Solves env ∧ solution.lengths id = solution.applyLength length := by
  have lengths (other : LengthId) :
      (env.bindLength id length).frames.length? other =
        if other = id then some length else env.frames.length? other :=
    FrameStack.length?_bindLength id length env.frames other
  have bindings (other : PlaceholderId) :
      (env.bindLength id length).binding? other = env.binding? other := by
    rw [Environment.binding?, Environment.bindLength, FrameStack.bindLength,
      FrameStack.placeholder?, FrameStack.read_write_of_eq rfl]
    rfl
  constructor
  · intro solves
    refine ⟨⟨fun {other _} found => solves.placeholders ((bindings other).trans found),
      fun {other bound} found => solves.lengths ?_⟩,
      solves.lengths ((lengths id).trans (if_pos rfl))⟩
    have different : other ≠ id := by
      rintro rfl
      rw [unbound] at found
      contradiction
    rw [lengths, if_neg different]
    exact found
  · rintro ⟨solves, isSame⟩
    refine ⟨fun {other _} found => solves.placeholders ((bindings other).symm.trans found),
      fun {other bound} found => ?_⟩
    rw [lengths] at found
    split at found
    · rename_i same
      cases found
      rw [same]
      exact isSame
    · exact solves.lengths found

end Solution

namespace Environment.RigidlyBound

variable {scopeOf : PlaceholderId → ScopeId} {env other : Environment}

/-- What is bound depends on the frames only. -/
theorem of_frames
    (bound : env.RigidlyBound scopeOf)
    (same : other.frames = env.frames) :
    other.RigidlyBound scopeOf where
  consistent := same ▸ bound.consistent
  rigid found := bound.rigid (by rwa [Environment.binding?, same] at found)

/-- Binding an unbound placeholder to a rigid type without it keeps all bindings rigid. -/
theorem bindPlaceholder
    (bound : env.RigidlyBound scopeOf)
    {id : PlaceholderId}
    {ty : Ty}
    (unbound : env.binding? id = none)
    (notFound : env.occurs id ty = false)
    (rigid : ty.Rigid scopeOf) :
    (env.bindPlaceholder id ty).RigidlyBound scopeOf where
  consistent := consistent_bindPlaceholder bound.consistent unbound notFound
  rigid {other _} found := by
    change FrameStack.placeholder? (FrameStack.bindPlaceholder id ty _) other = _ at found
    rw [FrameStack.placeholder?_bindPlaceholder] at found
    split at found
    · cases found
      exact rigid
    · exact bound.rigid found

/-- The variable at the end of one length may be bound to the end of another one. -/
theorem bindLength
    (bound : env.RigidlyBound scopeOf)
    {id : LengthId}
    {first second : Length}
    (isVar : env.resolveLength first = .var id)
    (different : env.resolveLength second ≠ .var id) :
    (env.bindLength id (env.resolveLength second)).RigidlyBound scopeOf where
  consistent :=
    bound.consistent.bindLength (length?_of_resolveLength_eq_var bound.consistent isVar) different
      fun _ isOther => length?_of_resolveLength_eq_var bound.consistent isOther
  rigid found := by
    rw [Environment.binding?, Environment.bindLength, FrameStack.bindLength,
      FrameStack.placeholder?, FrameStack.read_write_of_eq rfl] at found
    exact bound.rigid found

/-- Rigid types are followed to rigid ones. -/
theorem follow
    (bound : env.RigidlyBound scopeOf)
    {ty : Ty}
    (rigid : ty.Rigid scopeOf) :
    (env.follow ty).Rigid scopeOf :=
  follow_induction (motive := Ty.Rigid scopeOf) (fun _ found => bound.rigid found) rigid

end Environment.RigidlyBound

end ShaderTyping
