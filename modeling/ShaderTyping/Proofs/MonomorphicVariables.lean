import ShaderTyping.Generalization
import ShaderTyping.Proofs.Composition
import ShaderTyping.Proofs.Resolution

namespace ShaderTyping

/-!
# Monomorphic variables

`monomorphic` looks through the types that the surroundings depend on with a list of
pending types, and meets bound variables as well as unbound ones.  This module shows
that an unbound variable is met exactly if it is left in one of those types when its
bindings are replaced, and that the steps granted to the search suffice.
-/

namespace Environment

/-- A variable is met in a type, directly or along bindings. -/
inductive Meets (env : Environment) : Ty → Var → Prop where
  | here {ty : Ty} {var : Var} :
      var ∈ env.varsOf ty → Meets env ty var
  | along {ty bound : Ty} {id : PlaceholderId} {var : Var} :
      .placeholder id ∈ env.varsOf ty →
      env.binding? id = some bound →
      Meets env bound var →
      Meets env ty var

variable {env : Environment}

/-- The variables of a type are those of its leaves and of its resolved lengths. -/
theorem mem_varsOf_iff {ty : Ty} {var : Var} :
    var ∈ env.varsOf ty ↔
      (∃ leaf ∈ ty.leaves, var ∈ leaf.leafVars) ∨
        ∃ length ∈ ty.lengths, var ∈ Ty.lengthVars (env.resolveLength length) :=
  Ty.mem_collect_iff

/-- The placeholders of a type are among its leaves. -/
theorem placeholder_mem_varsOf_iff {ty : Ty} {id : PlaceholderId} :
    .placeholder id ∈ env.varsOf ty ↔ ∃ scope, .placeholder scope id ∈ ty.leaves := by
  rw [mem_varsOf_iff]
  constructor
  · rintro (⟨leaf, isLeaf, inLeaf⟩ | ⟨length, _, inLength⟩)
    · cases Ty.isLeaf_of_mem_leaves isLeaf <;> simp [Ty.leafVars] at inLeaf
      exact ⟨_, inLeaf ▸ isLeaf⟩
    · cases resolved : env.resolveLength length <;> simp [resolved, Ty.lengthVars] at inLength
  · rintro ⟨scope, isLeaf⟩
    exact Or.inl ⟨_, isLeaf, by simp [Ty.leafVars]⟩

/-- The variables of a resolved type are those of what its placeholders are bound to. -/
theorem mem_vars_resolve
    (consistent : env.frames.Consistent)
    {ty : Ty}
    {var : Var} :
    var ∈ (env.resolve ty).vars ↔
      (∃ leaf ∈ ty.leaves, var ∈ (leaf.subst env.resolution).vars) ∨
        ∃ length ∈ ty.lengths, var ∈ Ty.lengthVars (env.resolveLength length) := by
  rw [resolve_eq_subst consistent]
  exact Ty.mem_collect_subst_iff

/-- The unbound variables that are met in a type are those that resolving leaves in it. -/
theorem meets_iff_mem_vars_resolve
    (consistent : env.frames.Consistent)
    {ty : Ty}
    {var : Var}
    (unbound : env.isBound var = false) :
    env.Meets ty var ↔ var ∈ (env.resolve ty).vars := by
  constructor
  · intro meets
    induction meets with
    | here isVar =>
        rw [mem_vars_resolve consistent]
        rcases mem_varsOf_iff.mp isVar with ⟨leaf, isLeaf, inLeaf⟩ | inLength
        · refine Or.inl ⟨leaf, isLeaf, ?_⟩
          cases Ty.isLeaf_of_mem_leaves isLeaf with
          | placeholder scope id =>
              cases List.mem_singleton.mp inLeaf
              rw [isBound_placeholder_eq_false_iff] at unbound
              simp [resolution, unbound, Ty.vars, Ty.leafVars]
          | parametric scope label =>
              cases List.mem_singleton.mp inLeaf
              simp [resolution, Ty.vars, Ty.leafVars]
          | named => contradiction
          | primitive => contradiction
        · exact Or.inr inLength
    | along isPlaceholder found _ inductionHypothesis =>
        obtain ⟨scope, isLeaf⟩ := placeholder_mem_varsOf_iff.mp isPlaceholder
        refine (mem_vars_resolve consistent).mpr (Or.inl ⟨_, isLeaf, ?_⟩)
        simpa [resolution, found] using inductionHypothesis unbound
  · intro inResolved
    induction ty using bindingInduction consistent with
    | step ty inductionHypothesis =>
        rcases (mem_vars_resolve consistent).mp inResolved with
          ⟨leaf, isLeaf, inLeaf⟩ | inLength
        · cases Ty.isLeaf_of_mem_leaves isLeaf with
          | placeholder scope id =>
              have isVar : .placeholder id ∈ env.varsOf ty :=
                placeholder_mem_varsOf_iff.mpr ⟨scope, isLeaf⟩
              simp only [Ty.subst_placeholder, resolution] at inLeaf
              cases found : env.binding? id with
              | none =>
                  simp only [found, Ty.vars, Ty.collect_placeholder, Ty.leafVars,
                    List.mem_singleton] at inLeaf
                  exact .here (inLeaf ▸ isVar)
              | some bound =>
                  simp only [found] at inLeaf
                  exact .along isVar found (inductionHypothesis isLeaf found inLeaf)
          | parametric scope label =>
              simp only [Ty.subst_parametric, resolution, Ty.vars, Ty.collect_parametric] at inLeaf
              exact .here (mem_varsOf_iff.mpr (Or.inl ⟨_, isLeaf, inLeaf⟩))
          | named => simp [resolution, Ty.vars, Ty.leafVars] at inLeaf
          | primitive => simp [Ty.vars, Ty.leafVars] at inLeaf
        · exact .here (mem_varsOf_iff.mpr (Or.inr inLength))

/-! ## The steps of the search -/

/-- The placeholders that are bound, with repetitions. -/
def boundIds (env : Environment) : List PlaceholderId :=
  env.frames.frames.flatMap fun frame => frame.placeholders.keys

/-- There are as many bound placeholders as bindings. -/
theorem length_boundIds (env : Environment) : env.boundIds.length = env.bindingCount := by
  refine Eq.trans ?_ (Frame.length_values Frame.placeholders env.frames.frames)
  simp [boundIds, Frame.values, List.length_flatMap]

/-- A placeholder with a binding is listed as bound. -/
theorem mem_boundIds
    {id : PlaceholderId}
    {bound : Ty}
    (found : env.binding? id = some bound) :
    id ∈ env.boundIds := by
  obtain ⟨frame, isFrame, isEntry⟩ := List.exists_of_findSome?_eq_some found
  refine List.mem_flatMap.mpr ⟨frame, isFrame, Std.TreeMap.mem_keys.mpr ?_⟩
  rw [Std.TreeMap.mem_iff_isSome_getElem?, isEntry]
  rfl

namespace Reach

/-- The bound placeholders that were not met. -/
def unmet (env : Environment) (reach : Reach) : List PlaceholderId :=
  env.boundIds.filter fun id => !reach.met.contains (.placeholder id)

/-- The steps that a search still needs: for what is pending and for what can become it. -/
def need (env : Environment) (reach : Reach) : Nat :=
  reach.pending.length + (reach.unmet env).length

/-- What meeting some variables, one after the other, makes of a search. -/
structure Met (env : Environment) (vars : List Var) (before after : Reach) : Prop where
  met :
    ∀ var,
      after.met.contains var = true ↔
        before.met.contains var = true ∨ var ∈ vars ∧ var.isParametric = false
  kept : before.pending ⊆ after.pending
  added :
    ∀ ty ∈ after.pending,
      ty ∈ before.pending ∨ ∃ id, .placeholder id ∈ vars ∧ env.binding? id = some ty
  bound :
    ∀ {id ty},
      after.met.contains (.placeholder id) = true →
      env.binding? id = some ty →
      before.met.contains (.placeholder id) = true ∨ ty ∈ after.pending
  need_le : after.need env ≤ before.need env

namespace Met

theorem refl (reach : Reach) : Met env [] reach reach where
  met var := by simp
  kept := List.Subset.refl _
  added ty isPending := Or.inl isPending
  bound isMet _ := Or.inl isMet
  need_le := le_rfl

/-- Meeting some variables and then more is meeting all of them. -/
theorem append
    {first second : List Var}
    {before middle after : Reach}
    (earlier : Met env first before middle)
    (later : Met env second middle after) :
    Met env (first ++ second) before after where
  met var := by
    rw [later.met, earlier.met, List.mem_append, or_and_right, or_assoc]
  kept := List.Subset.trans earlier.kept later.kept
  added ty isPending := by
    rcases later.added ty isPending with inMiddle | ⟨id, isVar, found⟩
    · rcases earlier.added ty inMiddle with inBefore | ⟨id, isVar, found⟩
      · exact Or.inl inBefore
      · exact Or.inr ⟨id, List.mem_append_left _ isVar, found⟩
    · exact Or.inr ⟨id, List.mem_append_right _ isVar, found⟩
  bound isMet found := by
    rcases later.bound isMet found with inMiddle | isPending
    · rcases earlier.bound inMiddle found with inBefore | wasPending
      · exact Or.inl inBefore
      · exact Or.inr (later.kept wasPending)
    · exact Or.inr isPending
  need_le := later.need_le.trans earlier.need_le

end Met

/-- Meeting a placeholder that is bound leaves fewer of them. -/
theorem need_insert_lt
    {reach : Reach}
    {id : PlaceholderId}
    {bound : Ty}
    (isNew : reach.met.contains (.placeholder id) = false)
    (found : env.binding? id = some bound) :
    need env ⟨reach.met.insert (.placeholder id), bound :: reach.pending⟩ ≤ reach.need env := by
  have isUnmet : id ∈ reach.unmet env :=
    List.mem_filter.mpr ⟨mem_boundIds found, by simp [isNew]⟩
  have fewer :
      unmet env ⟨reach.met.insert (.placeholder id), bound :: reach.pending⟩ =
        (reach.unmet env).filter fun other => decide (other ≠ id) := by
    rw [unmet, unmet, List.filter_filter]
    refine List.filter_congr fun other _ => ?_
    rw [VarSet.contains_insert rfl]
    simp
  have isLess :
      ((reach.unmet env).filter fun other => decide (other ≠ id)).length <
        (reach.unmet env).length :=
    List.length_filter_lt_length_iff_exists.mpr ⟨id, isUnmet, by simp⟩
  rw [need, need, fewer, List.length_cons]
  omega

/-- Meeting a variable does not make a search need more steps. -/
theorem need_insert_le
    {reach : Reach}
    {var : Var}
    (isOpen : var.isParametric = false) :
    need env ⟨reach.met.insert var, reach.pending⟩ ≤ reach.need env := by
  refine Nat.add_le_add_left (List.Sublist.length_le ?_) _
  refine List.monotone_filter_right _ fun other => ?_
  simp only [VarSet.contains_insert isOpen, Bool.not_or, Bool.and_eq_true]
  exact And.right

/-- A variable that was met before changes nothing, and a parametric type leads nowhere. -/
theorem met_meet (env : Environment) (reach : Reach) (var : Var) :
    Met env [var] reach (reach.meet env var) := by
  have unchanged
      (noNews : var.isParametric = false → reach.met.contains var = true) :
      Met env [var] reach reach := by
    refine { Met.refl reach with met := fun other => ?_, added := fun ty => Or.inl }
    constructor
    · exact Or.inl
    · rintro (inBefore | ⟨same, isOpen⟩)
      · exact inBefore
      · cases List.mem_singleton.mp same
        exact noNews isOpen
  unfold meet
  by_cases isMet : reach.met.contains var = true
  · rw [if_pos isMet]
    exact unchanged fun _ => isMet
  · rw [if_neg isMet]
    by_cases isOpen : var.isParametric = false
    · have inserted := VarSet.contains_insert isOpen reach.met
      have metNow (other : Var) :
          (reach.met.insert var).contains other = true ↔
            reach.met.contains other = true ∨ other ∈ [var] ∧ other.isParametric = false := by
        rw [inserted, Bool.or_eq_true, decide_eq_true_iff, List.mem_singleton, or_comm]
        exact or_congr_right ⟨fun same => ⟨same, same ▸ isOpen⟩, And.left⟩
      cases isBoundTo : env.boundType? var with
      | none =>
          refine ⟨metNow, List.Subset.refl _, fun ty => Or.inl, fun {id ty} nowMet found => ?_,
            need_insert_le isOpen⟩
          rcases (metNow _).mp nowMet with inBefore | ⟨same, _⟩
          · exact Or.inl inBefore
          · cases List.mem_singleton.mp same
            cases isBoundTo.symm.trans found
      | some bound =>
          cases var with
          | placeholder id =>
              refine ⟨metNow, List.subset_cons_self _ _, fun ty isPending => ?_,
                fun {other ty} nowMet found => ?_,
                need_insert_lt (Bool.eq_false_of_not_eq_true isMet) isBoundTo⟩
              · rcases List.mem_cons.mp isPending with same | inBefore
                · exact Or.inr ⟨id, List.mem_singleton_self _, same ▸ isBoundTo⟩
                · exact Or.inl inBefore
              · rcases (metNow _).mp nowMet with inBefore | ⟨same, _⟩
                · exact Or.inl inBefore
                · cases List.mem_singleton.mp same
                  cases isBoundTo.symm.trans found
                  exact Or.inr List.mem_cons_self
          | parametric => contradiction
          | length => contradiction
    · cases var with
      | parametric scope label => exact unchanged fun isOpen => by contradiction
      | placeholder => exact absurd rfl isOpen
      | length => exact absurd rfl isOpen

/-- Meeting variables one after the other is meeting all of them. -/
theorem met_foldl (env : Environment) (vars : List Var) (reach : Reach) :
    Met env vars reach (vars.foldl (meet env) reach) := by
  induction vars generalizing reach with
  | nil => exact .refl reach
  | cons var rest inductionHypothesis =>
      exact (met_meet env reach var).append (inductionHypothesis (reach.meet env var))

/-! ## What the search finds -/

/-- The types that a search has to look at: the roots and what was bound on the way. -/
def Due (env : Environment) (roots : List Ty) (reach : Reach) (ty : Ty) : Prop :=
  ty ∈ roots ∨
    ∃ id, reach.met.contains (.placeholder id) = true ∧ env.binding? id = some ty

/-- Where a search from some roots stands. -/
structure Searching (env : Environment) (roots : List Ty) (reach : Reach) : Prop where
  met :
    ∀ {var}, reach.met.contains var = true → ∃ root ∈ roots, env.Meets root var
  pending :
    ∀ {ty var}, ty ∈ reach.pending → env.Meets ty var → ∃ root ∈ roots, env.Meets root var
  due :
    ∀ {ty}, reach.Due env roots ty →
      ty ∈ reach.pending ∨
        ∀ var ∈ env.varsOf ty, var.isParametric = false → reach.met.contains var = true

namespace Searching

variable {roots : List Ty}

/-- A search starts with its roots pending. -/
theorem start (roots : List Ty) : Searching env roots ⟨VarSet.empty, roots⟩ where
  met isMet := by simp at isMet
  pending isRoot meets := ⟨_, isRoot, meets⟩
  due isDue := by
    rcases isDue with isRoot | ⟨id, isMet, _⟩
    · exact Or.inl isRoot
    · simp at isMet

/-- Meeting all variables of a pending type is a step of the search. -/
theorem step
    {met : VarSet}
    {ty : Ty}
    {pending : List Ty}
    {after : Reach}
    (searching : Searching env roots ⟨met, ty :: pending⟩)
    (step : Met env (env.varsOf ty) ⟨met, pending⟩ after) :
    Searching env roots after where
  met {var} isMet := by
    rcases (step.met var).mp isMet with wasMet | ⟨isVar, _⟩
    · exact searching.met wasMet
    · exact searching.pending List.mem_cons_self (.here isVar)
  pending {other var} isPending meets := by
    rcases step.added other isPending with wasPending | ⟨id, isVar, found⟩
    · exact searching.pending (List.mem_cons_of_mem _ wasPending) meets
    · exact searching.pending List.mem_cons_self (.along isVar found meets)
  due {other} isDue := by
    have known :
        other ∈ after.pending ∨ Due env roots ⟨met, ty :: pending⟩ other := by
      rcases isDue with isRoot | ⟨id, isMet, found⟩
      · exact Or.inr (Or.inl isRoot)
      · rcases step.bound isMet found with wasMet | isPending
        · exact Or.inr (Or.inr ⟨id, wasMet, found⟩)
        · exact Or.inl isPending
    rcases known with isPending | wasDue
    · exact Or.inl isPending
    · rcases searching.due wasDue with wasPending | allMet
      · rcases List.mem_cons.mp wasPending with same | inRest
        · cases same
          exact Or.inr fun var isVar isOpen => (step.met var).mpr (Or.inr ⟨isVar, isOpen⟩)
        · exact Or.inl (step.kept inRest)
      · exact Or.inr fun var isVar isOpen =>
          (step.met var).mpr (Or.inl (allMet var isVar isOpen))

/-- A search without pending types has met everything. -/
theorem contains_of_meets
    {met : VarSet}
    (searching : Searching env roots ⟨met, []⟩)
    {ty : Ty}
    {var : Var}
    (isDue : Due env roots ⟨met, []⟩ ty)
    (isOpen : var.isParametric = false)
    (meets : env.Meets ty var) :
    met.contains var = true := by
  induction meets with
  | here isVar =>
      exact (searching.due isDue).resolve_left List.not_mem_nil _ isVar isOpen
  | along isVar found _ inductionHypothesis =>
      have isMet := (searching.due isDue).resolve_left List.not_mem_nil _ isVar rfl
      exact inductionHypothesis (Or.inr ⟨_, isMet, found⟩) isOpen

/-- A search within enough steps finds what is met from its roots. -/
theorem closeWithin_contains_iff
    {steps : Nat}
    {reach : Reach}
    (searching : Searching env roots reach)
    (enough : reach.need env ≤ steps)
    {var : Var}
    (isOpen : var.isParametric = false) :
    (closeWithin env steps reach).contains var = true ↔ ∃ root ∈ roots, env.Meets root var := by
  induction steps generalizing reach with
  | zero =>
      obtain ⟨met, pending⟩ := reach
      cases pending with
      | nil =>
          refine ⟨searching.met, fun ⟨root, isRoot, meets⟩ => ?_⟩
          exact searching.contains_of_meets (Or.inl isRoot) isOpen meets
      | cons ty pending => simp [need] at enough
  | succ steps inductionHypothesis =>
      obtain ⟨met, pending⟩ := reach
      cases pending with
      | nil =>
          refine ⟨searching.met, fun ⟨root, isRoot, meets⟩ => ?_⟩
          exact searching.contains_of_meets (Or.inl isRoot) isOpen meets
      | cons ty pending =>
          have step := met_foldl env (env.varsOf ty) ⟨met, pending⟩
          refine inductionHypothesis (searching.step step) ?_
          have oneLess : need env ⟨met, pending⟩ < need env ⟨met, ty :: pending⟩ :=
            Nat.add_lt_add_right (Nat.lt_succ_self _) _
          have notMore := step.need_le
          omega

end Searching

end Reach

/--
An unbound variable is monomorphic exactly if it is left in one of the roots when
bindings are replaced.
-/
theorem monomorphic_contains_iff
    (consistent : env.frames.Consistent)
    {var : Var}
    (isOpen : var.isParametric = false)
    (unbound : env.isBound var = false) :
    env.monomorphic.contains var = true ↔ ∃ root ∈ env.roots, var ∈ (env.resolve root).vars := by
  have enough :
      Reach.need env ⟨VarSet.empty, env.roots⟩ ≤ env.roots.length + env.bindingCount := by
    rw [← length_boundIds]
    exact Nat.add_le_add_left (List.length_filter_le _ _) _
  rw [monomorphic, (Reach.Searching.start env.roots).closeWithin_contains_iff enough isOpen]
  exact exists_congr fun root =>
    and_congr_right fun _ => meets_iff_mem_vars_resolve consistent unbound

end Environment

end ShaderTyping
