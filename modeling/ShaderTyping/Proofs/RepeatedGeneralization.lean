import ShaderTyping.Proofs.MirroredEnvironments

namespace ShaderTyping

/-!
# Generalizing a generalized type

Generalizing changes the bindings while it walks through a type, and expanding reads
the bindings that it leaves.  Both give the same type, because what is bound on the way
is bound to parametric types, which lead nowhere.  If no declared type that a type
leads to leads back to itself, nothing is left to quantify once it is generalized:
nothing in the result is bound or declared, and what is open in it depends on the
surroundings.  Generalizing it again gives it back and binds nothing.
-/

namespace Environment

variable {env final : Environment}

/-! ## Expanding after quantifying -/

/-- What is left of a type after quantifying is what expanding it gives afterwards. -/
theorem Quantified.expandWithin
    (consistent : env.frames.Consistent)
    {kept : VarSet}
    {leaves : List Ty}
    {lengths : List Length}
    (quantified : Quantified kept leaves lengths env final)
    {steps : Nat}
    (enough : env.walkLimit < steps)
    (ty : Ty) :
    final.expandWithin steps [] ty = (env.expand ty).subst final.quantification := by
  refine expandInduction consistent
    (motive := fun granted expanding ty =>
      ∀ steps, granted ≤ steps →
        final.expandWithin steps expanding ty =
          (env.expandWithin granted expanding ty).subst final.quantification)
    ?_ ty steps enough
  intro granted expanding ty bindings definitions steps enough
  obtain ⟨steps, rfl⟩ : ∃ fewer, steps = fewer + 1 := ⟨steps - 1, by omega⟩
  have enough : granted ≤ steps := Nat.le_of_succ_le_succ enough
  rw [Environment.expandWithin, Environment.expandWithin,
    Ty.subst_subst final.quantification_isCanonical]
  refine Ty.subst_congr quantified.resolveLength fun leaf isLeaf => ?_
  cases Ty.isLeaf_of_mem_leaves isLeaf with
  | primitive kind => rfl
  | parametric scope label => rfl
  | placeholder scope id =>
      simp only [Ty.subst_placeholder, Substitution.andThen]
      cases found : env.binding? id with
      | some bound =>
          simp only [quantified.numbered.kept found]
          exact bindings isLeaf found steps enough
      | none =>
          simp only [Ty.subst_placeholder, quantification]
          cases finalFound : final.binding? id with
          | none => rfl
          | some bound =>
              -- What was bound in between is a parametric type.
              obtain ⟨_, boundScope, label, _, rfl⟩ := quantified.parametric found finalFound
              cases steps <;> rfl
  | named scope name =>
      have sameDeclared : final.declared = env.declared := by
        rw [quantified.unchanged]
      simp only [Ty.subst_named, Substitution.andThen, definition?_congr sameDeclared]
      cases found : env.definition? scope name with
      | none => rfl
      | some entry =>
          cases isAround : expanding.contains entry.1 with
          | true =>
              simp only [isAround, if_true]
              rfl
          | false =>
              simp only [isAround, Bool.false_eq_true, if_false]
              exact definitions isLeaf found isAround steps enough

/-- Steps beyond those that are granted do not change what expanding a type gives. -/
theorem expandWithin_eq
    (consistent : env.frames.Consistent)
    {steps : Nat}
    (enough : env.walkLimit < steps)
    (ty : Ty) :
    env.expandWithin steps [] ty = env.expand ty := by
  have nothing : Quantified VarSet.empty [] [] env env := .refl (by simp) (by simp)
  have long := nothing.expandWithin consistent enough ty
  have short := nothing.expandWithin consistent (Nat.lt_succ_self _) ty
  exact long.trans short.symm

/-- Quantifying a type gives what expanding it gives afterwards. -/
theorem quantify_eq_expand
    (consistent : env.frames.Consistent)
    (kept : VarSet)
    (ty : Ty) :
    (quantify kept ty env).1 = (quantify kept ty env).2.expand ty := by
  obtain ⟨quantified, isResult⟩ := quantify_quantified consistent kept ty
  have finalConsistent : (quantify kept ty env).2.frames.Consistent :=
    (quantify_run kept ty env).run.consistent consistent
  have more := Nat.lt_succ_of_le (Nat.le_max_left env.walkLimit (quantify kept ty env).2.walkLimit)
  have moreFinal :=
    Nat.lt_succ_of_le (Nat.le_max_right env.walkLimit (quantify kept ty env).2.walkLimit)
  rw [isResult, ← expandWithin_eq finalConsistent moreFinal]
  exact (quantified.expandWithin consistent more ty).symm

/-- What is left of a type by resolving it is quantified alike. -/
theorem Quantified.resolve
    (consistent : env.frames.Consistent)
    (finalConsistent : final.frames.Consistent)
    {kept : VarSet}
    {leaves : List Ty}
    {lengths : List Length}
    (quantified : Quantified kept leaves lengths env final)
    (ty : Ty) :
    final.resolve ty = (env.resolve ty).subst final.quantification := by
  induction ty using bindingInduction consistent with
  | step ty inductionHypothesis =>
      rw [resolve_eq_subst finalConsistent, resolve_eq_subst consistent,
        Ty.subst_subst final.quantification_isCanonical]
      refine Ty.subst_congr quantified.resolveLength fun leaf isLeaf => ?_
      cases Ty.isLeaf_of_mem_leaves isLeaf with
      | primitive kind => rfl
      | named scope name => rfl
      | parametric scope label => rfl
      | placeholder scope id =>
          simp only [Ty.subst_placeholder, Substitution.andThen, resolution]
          cases found : env.binding? id with
          | some bound =>
              simp only [quantified.numbered.kept found]
              exact inductionHypothesis isLeaf found
          | none =>
              simp only [Ty.subst_placeholder, quantification]
              cases finalFound : final.binding? id with
              | none => rfl
              | some bound =>
                  obtain ⟨_, boundScope, label, _, rfl⟩ := quantified.parametric found finalFound
                  exact resolve_eq_subst finalConsistent _

/-- What the surroundings depend on they still depend on, unless it was quantified. -/
theorem Quantified.dependsOn
    (consistent : env.frames.Consistent)
    (finalConsistent : final.frames.Consistent)
    {kept : VarSet}
    {leaves : List Ty}
    {lengths : List Length}
    (quantified : Quantified kept leaves lengths env final)
    {var : Var}
    (isOpen : var.isParametric = false)
    (unbound : final.isBound var = false)
    (depends : env.dependsOn var) :
    final.dependsOn var := by
  have sameRoots : final.roots = env.roots := by
    rw [quantified.unchanged]
    rfl
  obtain ⟨root, isRoot, inRoot⟩ := depends
  refine ⟨root, sameRoots ▸ isRoot, ?_⟩
  rw [quantified.resolve consistent finalConsistent]
  cases var with
  | parametric scope label => contradiction
  | placeholder id =>
      obtain ⟨scope, isLeaf⟩ := Ty.mentions_iff_mem_leaves.mp inRoot
      refine Ty.mentions_iff_mem_leaves.mpr
        ⟨scope, mem_leaves_quantification_iff.mpr ⟨isLeaf, fun _ _ found => ?_⟩⟩
      rw [isBound, found] at unbound
      contradiction
  | length id =>
      rw [Ty.length_mem_vars_iff] at inRoot ⊢
      exact Ty.mem_lengths_subst_iff.mpr (.inr ⟨.var id, inRoot, rfl⟩)

/-! ## Types with nothing left to quantify -/

/-- No declared type that a type leads to leads back to itself. -/
def LeadsToNoCycle (env : Environment) (ty : Ty) : Prop :=
  ∀ scope name,
    env.Reaches ty (.named scope name) →
    ¬ Relation.TransGen env.LeadsTo (.named scope name) (.named scope name)

/-- References to the same definition lead to the same. -/
theorem transGen_leadsTo_of_same_definition
    {scope otherScope : ScopeId}
    {name otherName : String}
    {key : AliasKey}
    {definition otherDefinition leaf : Ty}
    (found : env.definition? scope name = some (key, definition))
    (otherFound : env.definition? otherScope otherName = some (key, otherDefinition))
    (path : Relation.TransGen env.LeadsTo (.named otherScope otherName) leaf) :
    Relation.TransGen env.LeadsTo (.named scope name) leaf := by
  obtain ⟨next, ⟨value, otherStands, isNext⟩, onward⟩ := Relation.TransGen.head'_iff.mp path
  rw [standsFor?, otherFound, Option.map_some, definition_unique otherFound found] at otherStands
  cases otherStands
  exact .head' ⟨definition, by rw [standsFor?, found, Option.map_some], isNext⟩ onward

/-- Where nothing leads back to itself, an expanded type refers to nothing declared. -/
theorem definition?_of_mem_leaves_expand
    (consistent : env.frames.Consistent)
    {ty : Ty}
    (noCycle : env.LeadsToNoCycle ty)
    {scope : ScopeId}
    {name : String}
    (isLeaf : .named scope name ∈ (env.expand ty).leaves) :
    env.definition? scope name = none := by
  -- Every declared type around a part leads to all leaves of the part.
  refine expandInduction consistent
    (motive := fun granted expanding part =>
      (∀ leaf ∈ part.leaves, env.Reaches ty leaf) →
      (∀ key ∈ expanding, ∀ leaf ∈ part.leaves,
        ∃ around name definition,
          env.definition? around name = some (key, definition) ∧
            Relation.TransGen env.LeadsTo (.named around name) leaf) →
      .named scope name ∈ (env.expandWithin granted expanding part).leaves →
      env.definition? scope name = none)
    ?_ ty (fun leaf isLeaf => ⟨leaf, isLeaf, .refl⟩)
    (fun _ member => absurd member List.not_mem_nil) isLeaf
  intro granted expanding part bindings definitions reaches around isLeaf
  have further {leaf next : Ty} {inside : Ty} (isPart : leaf ∈ part.leaves)
      (stands : env.standsFor? leaf = some next) (isInside : inside ∈ next.leaves) :
      env.Reaches ty inside := by
    obtain ⟨start, isStart, path⟩ := reaches leaf isPart
    exact ⟨start, isStart, path.tail ⟨next, stands, isInside⟩⟩
  rw [Environment.expandWithin, Ty.mem_leaves_subst_iff] at isLeaf
  obtain ⟨leaf, isPart, inLeaf⟩ := isLeaf
  cases Ty.isLeaf_of_mem_leaves isPart with
  | primitive kind => simp at inLeaf
  | parametric label => simp at inLeaf
  | placeholder leafScope id =>
      cases found : env.binding? id with
      | none => simp [found] at inLeaf
      | some bound =>
          have stands : env.standsFor? (.placeholder leafScope id) = some bound := found
          simp only [Ty.subst_placeholder, found] at inLeaf
          refine bindings isPart found (fun inside => further isPart stands) ?_ inLeaf
          intro key isAround inside isInside
          obtain ⟨aroundScope, aroundName, definition, isDefined, path⟩ :=
            around key isAround _ isPart
          exact ⟨aroundScope, aroundName, definition, isDefined,
            path.tail ⟨bound, stands, isInside⟩⟩
  | named leafScope leafName =>
      cases found : env.definition? leafScope leafName with
      | none =>
          simp only [Ty.subst_named, found, Ty.leaves_named, List.mem_singleton] at inLeaf
          cases inLeaf
          exact found
      | some entry =>
          obtain ⟨key, definition⟩ := entry
          have stands : env.standsFor? (.named leafScope leafName) = some definition := by
            rw [standsFor?, found, Option.map_some]
          simp only [Ty.subst_named, found] at inLeaf
          cases isAround : expanding.contains key with
          | true =>
              obtain ⟨aroundScope, aroundName, aroundDefinition, isDefined, path⟩ :=
                around key (List.contains_iff_mem.mp isAround) _ isPart
              have loop := transGen_leadsTo_of_same_definition found isDefined path
              exact absurd loop (noCycle leafScope leafName (reaches _ isPart))
          | false =>
              simp only [isAround, Bool.false_eq_true, if_false] at inLeaf
              refine definitions isPart found isAround (fun inside => further isPart stands) ?_
                inLeaf
              intro other isOther inside isInside
              rcases List.mem_cons.mp isOther with rfl | isOuter
              · exact ⟨leafScope, leafName, definition, found, .single ⟨_, stands, isInside⟩⟩
              · obtain ⟨aroundScope, aroundName, aroundDefinition, isDefined, path⟩ :=
                  around other isOuter _ isPart
                exact ⟨aroundScope, aroundName, aroundDefinition, isDefined,
                  path.tail ⟨_, stands, isInside⟩⟩

/-- A length variable is not bound, and it is kept or generic already. -/
def LengthSettled (env : Environment) (kept : VarSet) (id : LengthId) : Prop :=
  env.frames.length? id = none ∧
    (kept.contains (.length id) = true ∨ env.frames.isGeneric id = true)

/--
Nothing in a type is bound or declared; its placeholders are kept, and so are its
length variables, unless they are generic already.
-/
structure FullyQuantified (env : Environment) (kept : VarSet) (ty : Ty) : Prop where
  canonical : ty.Canonical
  final : ∀ leaf ∈ ty.leaves, env.standsFor? leaf = none
  placeholders :
    ∀ {scope id}, .placeholder scope id ∈ ty.leaves → kept.contains (.placeholder id) = true
  lengths : ∀ {id}, .var id ∈ ty.lengths → env.LengthSettled kept id

/-- Marking a length variable as generic again shows nothing new. -/
theorem ReadsLike.markGeneric
    {id : LengthId}
    (isGeneric : env.frames.isGeneric id = true) :
    env.ReadsLike (env.markGeneric id) where
  declared := rfl
  snapshot := by
    refine (FrameStack.snapshot_writeTo (.generic id) env.frames).trans ?_
    have same : Function.update env.frames.snapshot.isGeneric id true = env.frames.snapshot.isGeneric :=
      Function.update_eq_self_iff.mpr isGeneric.symm
    rw [Finding.addTo, same]
  context := rfl
  fresh := rfl
  maxDepth := rfl

/--
Wherever the same is read as in the environment, the computation returns the value for
that environment and shows nothing new, if the length variables are settled.
-/
def Repeats
    (env : Environment)
    (settled : LengthId → Prop)
    (computation : StateM Environment α)
    (value : Environment → α)
    (lengths : List Length) : Prop :=
  (∀ id, .var id ∈ lengths → settled id) →
    ∀ later, env.ReadsLike later →
      (computation later).1 = value env ∧ env.ReadsLike (computation later).2

namespace Repeats

variable {settled : LengthId → Prop}

theorem pure (value : α) :
    env.Repeats settled (Pure.pure value : StateM Environment α) (fun _ => value) [] :=
  fun _ _ shows => ⟨rfl, shows⟩

/-- Two computations in a row repeat if both do, with the lengths of both settled. -/
theorem bind
    {first : StateM Environment α}
    {next : α → StateM Environment β}
    {value : Environment → α}
    {result : α → Environment → β}
    {lengths moreLengths : List Length}
    (firstRepeats : env.Repeats settled first value lengths)
    (nextRepeats : ∀ given, env.Repeats settled (next given) (result given) moreLengths) :
    env.Repeats settled (first >>= next) (fun later => result (value later) later)
      (lengths ++ moreLengths) := by
  intro areSettled later shows
  obtain ⟨isValue, showsFirst⟩ :=
    firstRepeats (fun id member => areSettled id (List.mem_append_left _ member)) later shows
  obtain ⟨isResult, showsNext⟩ :=
    nextRepeats (first later).1 (fun id member => areSettled id (List.mem_append_right _ member))
      (first later).2 showsFirst
  refine ⟨?_, showsNext⟩
  change (next (first later).1 (first later).2).1 = result (value env) env
  rw [isResult, isValue]

/-- Only which lengths are settled matters, not how they are listed. -/
theorem congr
    {computation : StateM Environment α}
    {value : Environment → α}
    {lengths sameLengths : List Length}
    (lengthsAgree : ∀ length, length ∈ lengths ↔ length ∈ sameLengths)
    (repeats : env.Repeats settled computation value lengths) :
    env.Repeats settled computation value sameLengths :=
  fun areSettled => repeats fun id member => areSettled id ((lengthsAgree _).mp member)

/-- A leaf is given back where the visit of the leaf does so. -/
theorem leaf
    {computation : StateM Environment Ty}
    {leaf : Ty}
    {lengths : List Length}
    (gives : ∀ later, env.ReadsLike later → computation later = (leaf, later)) :
    env.Repeats settled computation (fun _ => leaf) lengths := by
  intro _ later shows
  rw [gives later shows]
  exact ⟨rfl, shows⟩

end Repeats

namespace FullyQuantified

variable {kept : VarSet} {ty : Ty}

/-- A length with nothing left to quantify is given back. -/
theorem quantifyLength_repeats (kept : VarSet) (length : Length) :
    env.Repeats (env.LengthSettled kept) (quantifyLength kept length) (fun _ => length)
      [length] := by
  intro settled later shows
  cases length with
  | known count =>
      rw [quantifyLength_of_known (show later.resolveLength (.known count) = .known count from rfl)]
      exact ⟨rfl, shows⟩
  | var id =>
      obtain ⟨unbound, isSettled⟩ := settled id (List.mem_singleton_self _)
      have stays : later.resolveLength (.var id) = .var id := by
        have laterUnbound := (shows.length? id).trans unbound
        rw [resolveLength]
        cases later.frames.lengthBindingCount with
        | zero => rfl
        | succ steps => rw [resolveLengthWithin, laterUnbound]
      rw [quantifyLength_of_var stays]
      refine ⟨rfl, ?_⟩
      cases isKept : kept.contains (.length id) with
      | true => exact shows
      | false =>
          have isGeneric : later.frames.isGeneric id = true := by
            have sameGeneric := congrFun (congrArg Snapshot.isGeneric shows.snapshot) id
            refine sameGeneric.trans (isSettled.resolve_left ?_)
            rw [isKept]
            exact Bool.false_ne_true
          exact shows.trans (.markGeneric isGeneric)

/-- A type with nothing left to quantify is given back, and nothing is bound. -/
theorem quantify (finished : env.FullyQuantified kept ty) :
    (Environment.quantify kept ty env).1 = ty ∧
      env.ReadsLike (Environment.quantify kept ty env).2 := by
  have identical : ty.subst .identity = ty :=
    finished.canonical.subst_eq_self (fun _ => rfl) (fun _ _ => rfl) fun leaf isLeaf => by
      cases Ty.isLeaf_of_mem_leaves isLeaf <;> rfl
  have walk :
      env.Repeats (env.LengthSettled kept) (quantifyWithin kept (env.walkLimit + 1) [] ty)
        (fun _ => ty.subst .identity) (ty.subst .identity).lengths := by
    rw [quantifyWithin_succ]
    refine Ty.traverse_visits
      (motive := fun computation value _ lengths => env.Repeats _ computation value lengths)
      .pure .bind (fun _ => .congr) (quantifyLength_repeats kept) fun leaf isLeaf => ?_
    have isFinal := finished.final leaf isLeaf
    cases Ty.isLeaf_of_mem_leaves isLeaf with
    | primitive kind => exact .leaf fun _ _ => rfl
    | parametric scope label => exact .leaf fun _ _ => rfl
    | placeholder scope id =>
        refine .leaf fun later shows => ?_
        have unbound : later.binding? id = none := (shows.binding? id).trans isFinal
        refine (visitPlaceholder_of_unbound unbound kept env.walkLimit [] scope).trans ?_
        exact quantifyPlaceholder_of_kept (finished.placeholders isLeaf) scope later
    | named scope name =>
        refine .leaf fun later shows => ?_
        have undeclared : env.definition? scope name = none := Option.map_eq_none_iff.mp isFinal
        refine (visitNamed_of_declared shows.declared kept env.walkLimit [] scope name).trans ?_
        rw [undeclared]
        rfl
  have result :=
    walk (by rw [identical]; exact fun id member => finished.lengths member) env (.refl env)
  rw [identical] at result
  exact result

end FullyQuantified

/-! ## Generalizing twice -/

/-- Quantifying puts no references. -/
theorem named_of_quantification
    {ty : Ty}
    {scope : ScopeId}
    {name : String}
    (isLeaf : .named scope name ∈ (ty.subst env.quantification).leaves) :
    .named scope name ∈ ty.leaves := by
  obtain ⟨part, isPart, inPart⟩ := Ty.mem_leaves_subst_iff.mp isLeaf
  have isAlone := env.quantification_isLeaf (Ty.isLeaf_of_mem_leaves isPart)
  rw [isAlone.leaves_eq, List.mem_singleton] at inPart
  cases Ty.isLeaf_of_mem_leaves isPart with
  | primitive kind => cases inPart
  | parametric label => cases inPart
  | named partScope partName =>
      cases inPart
      exact isPart
  | placeholder partScope id =>
      simp only [Ty.subst_placeholder, quantification] at inPart
      split at inPart <;> cases inPart

/-- Quantifying puts no lengths. -/
theorem length_of_quantification
    {ty : Ty}
    {length : Length}
    (isLength : length ∈ (ty.subst env.quantification).lengths) :
    length ∈ ty.lengths := by
  rcases Ty.mem_lengths_subst_iff.mp isLength with ⟨part, isPart, inPart⟩ | ⟨bound, isBound, rfl⟩
  · have isAlone := env.quantification_isLeaf (Ty.isLeaf_of_mem_leaves isPart)
    rw [isAlone.lengths_eq_nil] at inPart
    contradiction
  · exact isBound

/-- A generalized type has nothing left to quantify, unless it leads to a cycle. -/
theorem fullyQuantified_generalize
    (consistent : env.frames.Consistent)
    {ty : Ty}
    (noCycle : env.LeadsToNoCycle ty) :
    (generalize ty env).2.FullyQuantified (generalize ty env).2.monomorphic
      (generalize ty env).1 := by
  obtain ⟨quantified, isResult⟩ := generalize_quantified consistent ty
  have finalConsistent : (generalize ty env).2.frames.Consistent :=
    (generalize_run ty env).run.consistent consistent
  generalize (generalize ty env).1 = result at isResult ⊢
  generalize (generalize ty env).2 = final at isResult quantified finalConsistent ⊢
  subst isResult
  have sameDeclared : final.declared = env.declared := by
    rw [quantified.unchanged]
  -- What was kept and is still unbound is kept again.
  have stillKept {var : Var} (isOpen : var.isParametric = false) (wasUnbound : env.isBound var = false)
      (unbound : final.isBound var = false) (wasKept : env.monomorphic.contains var = true) :
      final.monomorphic.contains var = true := by
    refine (monomorphic_contains_iff finalConsistent isOpen unbound).mpr ?_
    refine quantified.dependsOn consistent finalConsistent isOpen unbound ?_
    exact (monomorphic_contains_iff consistent isOpen wasUnbound).mp wasKept
  have placeholderUnbound {scope : ScopeId} {id : PlaceholderId}
      (isLeaf : .placeholder scope id ∈ (env.expand ty).leaves) : env.binding? id = none :=
    isBound_placeholder_eq_false_iff.mp
      (isBound_of_mem_vars_expand consistent (Ty.mentions_iff_mem_leaves.mpr ⟨scope, isLeaf⟩))
  have left {scope : ScopeId} {id : PlaceholderId}
      (isLeaf : .placeholder scope id ∈ ((env.expand ty).subst final.quantification).leaves) :
      .placeholder scope id ∈ (env.expand ty).leaves ∧ final.binding? id = none := by
    have wasLeaf := (mem_leaves_quantification_iff.mp isLeaf).1
    exact ⟨wasLeaf, quantified.binding?_eq_none (placeholderUnbound wasLeaf) isLeaf⟩
  refine
    { canonical := Substitution.IsCanonical.subst final.quantification_isCanonical _
      final := fun leaf isLeaf => ?_
      placeholders := fun {scope id} isLeaf => ?_
      lengths := fun {id} isLength => ?_ }
  · cases Ty.isLeaf_of_mem_leaves isLeaf with
    | primitive kind => rfl
    | parametric scope label => rfl
    | placeholder scope id => exact (left isLeaf).2
    | named scope name =>
        have undeclared :=
          definition?_of_mem_leaves_expand consistent noCycle (named_of_quantification isLeaf)
        rw [standsFor?, definition?_congr sameDeclared, undeclared, Option.map_none]
  · obtain ⟨wasLeaf, unbound⟩ := left isLeaf
    refine stillKept rfl (isBound_placeholder_eq_false_iff.mpr (placeholderUnbound wasLeaf))
      (isBound_placeholder_eq_false_iff.mpr unbound) ?_
    by_contra notKept
    have covered := quantified.covered wasLeaf (Bool.eq_false_iff.mpr notKept)
    rw [unbound] at covered
    contradiction
  · have wasLength := length_of_quantification isLength
    have wasUnbound :=
      isBound_of_mem_vars_expand consistent (Ty.length_mem_vars_iff.mpr wasLength)
    have unbound : final.frames.length? id = none := by
      rw [quantified.length?]
      exact isBound_length_eq_false_iff.mp wasUnbound
    refine ⟨unbound, ?_⟩
    cases wasKept : env.monomorphic.contains (.length id) with
    | true =>
        exact .inl (stillKept rfl wasUnbound (isBound_length_eq_false_iff.mpr unbound) wasKept)
    | false => exact .inr ((quantified.generic id).mpr (.inr ⟨wasLength, wasKept⟩))

/--
Generalizing and closing give what expanding gives afterwards.

If no declared type that the type leads to leads back to itself, generalizing the
result again gives it back, and all that can be read afterwards is the same.
-/
theorem generalize_eq_expand
    (reachable : env.Reachable)
    (ty : Ty) :
    (generalize ty env).1 = (generalize ty env).2.expand ty ∧
      (close ty env).1 = (close ty env).2.expand ty ∧
        (env.LeadsToNoCycle ty →
          (generalize (generalize ty env).1 (generalize ty env).2).1 = (generalize ty env).1 ∧
            (generalize ty env).2.ReadsLike
              (generalize (generalize ty env).1 (generalize ty env).2).2) := by
  have consistent := reachable.consistent
  refine ⟨?_, quantify_eq_expand consistent VarSet.empty ty, fun noCycle => ?_⟩
  · rw [generalize_eq]
    exact quantify_eq_expand consistent env.monomorphic ty
  · have finished := fullyQuantified_generalize consistent noCycle
    rw [generalize_eq (generalize ty env).1]
    exact finished.quantify

/-- Two declared types: one leads back to itself, the other has an open field. -/
def withCycle : Environment :=
  Operation.declare
    (Operation.declare (Environment.empty Options.standard) fun declared =>
      declared.declareType .native "Node" (.struct [("next", .named .native "Node")]))
    fun declared =>
      declared.declareType .native "Cell" (.struct [("value", .placeholder .native ⟨1⟩)])

/-- The environment of the example is reachable. -/
theorem withCycle_reachable : withCycle.Reachable :=
  ⟨Options.standard,
    [.declareType .native "Node" (.struct [("next", .named .native "Node")]),
      .declareType .native "Cell" (.struct [("value", .placeholder .native ⟨1⟩)])],
    rfl⟩

/-- A function from cells to arrays of an open type and length. -/
def fromCells : Ty :=
  .function (.named .native "Cell") (.array (.placeholder .native ⟨0⟩) (.var ⟨0⟩))

/-- The references of the function lead to no cycle, although there is one. -/
theorem fromCells_leadsToNoCycle : withCycle.LeadsToNoCycle fromCells := by
  have ends {id : PlaceholderId} (isOpen : withCycle.binding? id = none) {scope name} :
      ¬ Relation.ReflTransGen withCycle.LeadsTo (.placeholder .native id) (.named scope name) := by
    intro path
    rcases path.cases_head with same | ⟨next, ⟨bound, found, _⟩, _⟩
    · contradiction
    · cases isOpen.symm.trans found
  have fromCell {next : Ty} (step : withCycle.LeadsTo (.named .native "Cell") next) :
      next = .placeholder .native ⟨1⟩ := by
    obtain ⟨definition, found, isLeaf⟩ := step
    have isCell :
        withCycle.standsFor? (.named .native "Cell") =
          some (.struct [("value", .placeholder .native ⟨1⟩)]) := by
      decide +kernel
    cases isCell.symm.trans found
    exact List.mem_singleton.mp isLeaf
  have firstOpen : withCycle.binding? ⟨0⟩ = none := by decide +kernel
  have secondOpen : withCycle.binding? ⟨1⟩ = none := by decide +kernel
  rintro scope name ⟨leaf, isLeaf, path⟩ cycle
  have isEither : leaf ∈ [.named .native "Cell", .placeholder .native ⟨0⟩] := isLeaf
  rcases List.mem_pair.mp isEither with rfl | rfl
  · rcases path.cases_head with same | ⟨next, step, onward⟩
    · rw [← same] at cycle
      obtain ⟨next, step, onward⟩ := Relation.TransGen.head'_iff.mp cycle
      exact ends secondOpen (fromCell step ▸ onward)
    · exact ends secondOpen (fromCell step ▸ onward)
  · exact ends firstOpen path

/-- Beside a cycle a function is generalized once and then given back. -/
theorem generalize_eq_expand_withCycle :
    (withCycle.Reachable ∧ withCycle.LeadsToNoCycle fromCells ∧
        withCycle.definition? .native "Node" =
          some ((.native, "Node"), .struct [("next", .named .native "Node")])) ∧
      (generalize fromCells withCycle).1 =
        .function (.struct [("value", .parametric .native ⟨0⟩)])
          (.array (.parametric .native ⟨1⟩) (.var ⟨0⟩)) ∧
      (generalize fromCells withCycle).1 = (generalize fromCells withCycle).2.expand fromCells ∧
      (close fromCells withCycle).1 = (close fromCells withCycle).2.expand fromCells ∧
      (generalize (generalize fromCells withCycle).1 (generalize fromCells withCycle).2).1 =
        (generalize fromCells withCycle).1 ∧
      (generalize fromCells withCycle).2.ReadsLike
        (generalize (generalize fromCells withCycle).1 (generalize fromCells withCycle).2).2 := by
  have noCycle := fromCells_leadsToNoCycle
  obtain ⟨generalized, closed, again⟩ := generalize_eq_expand withCycle_reachable fromCells
  refine ⟨⟨withCycle_reachable, noCycle, by decide +kernel⟩, by decide +kernel, generalized, closed,
    again noCycle⟩

end Environment

end ShaderTyping
