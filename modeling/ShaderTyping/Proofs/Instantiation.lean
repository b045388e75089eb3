import ShaderTyping.Proofs.Quantification

namespace ShaderTyping

/-!
# Fresh variables for quantified ones

`instantiate` puts a fresh placeholder for every parametric type and a fresh length
variable for every generic one, the same one wherever a variable is met.  The fresh
variables made so far are threaded through the traversal; this module describes the
instance that it ends with, and shows that the result is what that instance puts into
the type.
-/

/-- The number of a placeholder. -/
def Ty.placeholderNumber : Ty → Nat
  | .placeholder _ id => id.number
  | _ => 0

/-- The number of a length variable. -/
def Length.varNumber : Length → Nat
  | .var id => id.number
  | .known _ => 0

/-- Looking up a key finds the first entry for it. -/
theorem lookup_cons_eq_ite
    [BEq κ] [LawfulBEq κ] [DecidableEq κ]
    (entry : κ × ν)
    (table : List (κ × ν))
    (key : κ) :
    (entry :: table).lookup key = if key = entry.1 then some entry.2 else table.lookup key := by
  rw [List.lookup_cons]
  by_cases same : key = entry.1
  · simp [same]
  · simp [beq_eq_false_iff_ne.mpr same, same]

namespace Environment

/-- The fresh variables that were made so far, and the environment. -/
abbrev Making := Instance × Environment

/--
What meeting some leaves and lengths makes of an instance and of the environment.
-/
structure Instantiated
    (leaves : List Ty)
    (lengths : List Length)
    (before after : Making) : Prop where
  unchanged :
    after.2 = { before.2 with
      fresh.placeholder := after.2.fresh.placeholder
      fresh.length := after.2.fresh.length }
  newTypes :
    Numbered Ty.placeholderNumber (before.1.types.lookup ·) (after.1.types.lookup ·)
      before.2.fresh.placeholder after.2.fresh.placeholder
  newLengths :
    Numbered Length.varNumber (before.1.lengths.lookup ·) (after.1.lengths.lookup ·)
      before.2.fresh.length after.2.fresh.length
  placeholder :
    ∀ {key ty},
      before.1.types.lookup key = none →
      after.1.types.lookup key = some ty →
      ∃ id, ty = .placeholder key.1 id
  lengthVar :
    ∀ {id length},
      before.1.lengths.lookup id = none →
      after.1.lengths.lookup id = some length →
      ∃ fresh, length = .var fresh
  typesCovered :
    ∀ {scope label},
      .parametric scope label ∈ leaves → (after.1.types.lookup (scope, label)).isSome = true
  lengthsCovered :
    ∀ {id},
      .var id ∈ lengths →
      after.2.frames.isGeneric id = true →
      (after.1.lengths.lookup id).isSome = true

namespace Instantiated

variable {leaves moreLeaves : List Ty} {lengths moreLengths : List Length}
variable {before middle after : Making}

/-- Instantiating writes to no frame. -/
theorem frames (instantiated : Instantiated leaves lengths before after) :
    after.2.frames = before.2.frames := by
  rw [instantiated.unchanged]

/-- Nothing is done where nothing is left to make. -/
theorem refl
    {making : Making}
    (typesMade :
      ∀ {scope label},
        .parametric scope label ∈ leaves → (making.1.types.lookup (scope, label)).isSome = true)
    (lengthsMade :
      ∀ {id},
        .var id ∈ lengths →
        making.2.frames.isGeneric id = true →
        (making.1.lengths.lookup id).isSome = true) :
    Instantiated leaves lengths making making where
  unchanged := rfl
  newTypes := .refl _ _
  newLengths := .refl _ _
  placeholder unset found := by
    cases unset.symm.trans found
  lengthVar unset found := by
    cases unset.symm.trans found
  typesCovered := typesMade
  lengthsCovered := lengthsMade

/-- Meeting some leaves and lengths and then more makes an instance of all of them. -/
theorem append
    (earlier : Instantiated leaves lengths before middle)
    (later : Instantiated moreLeaves moreLengths middle after) :
    Instantiated (leaves ++ moreLeaves) (lengths ++ moreLengths) before after where
  unchanged := by
    rw [later.unchanged, earlier.unchanged]
  newTypes := earlier.newTypes.trans later.newTypes
  newLengths := earlier.newLengths.trans later.newLengths
  placeholder {key ty} unset found := by
    cases inMiddle : middle.1.types.lookup key with
    | some first =>
        cases (later.newTypes.kept inMiddle).symm.trans found
        exact earlier.placeholder unset inMiddle
    | none => exact later.placeholder inMiddle found
  lengthVar {id length} unset found := by
    cases inMiddle : middle.1.lengths.lookup id with
    | some first =>
        cases (later.newLengths.kept inMiddle).symm.trans found
        exact earlier.lengthVar unset inMiddle
    | none => exact later.lengthVar inMiddle found
  typesCovered isLeaf := by
    rcases List.mem_append.mp isLeaf with isEarlier | isLater
    · obtain ⟨ty, found⟩ := Option.isSome_iff_exists.mp (earlier.typesCovered isEarlier)
      exact Option.isSome_iff_exists.mpr ⟨ty, later.newTypes.kept found⟩
    · exact later.typesCovered isLater
  lengthsCovered isLength isGeneric := by
    rcases List.mem_append.mp isLength with isEarlier | isLater
    · rw [later.frames] at isGeneric
      obtain ⟨length, found⟩ :=
        Option.isSome_iff_exists.mp (earlier.lengthsCovered isEarlier isGeneric)
      exact Option.isSome_iff_exists.mpr ⟨length, later.newLengths.kept found⟩
    · exact later.lengthsCovered isLater isGeneric

/-- Only which leaves and lengths are met matters, not how they are listed. -/
theorem congr
    {sameLeaves : List Ty}
    {sameLengths : List Length}
    (leavesAgree : ∀ leaf, leaf ∈ leaves ↔ leaf ∈ sameLeaves)
    (lengthsAgree : ∀ length, length ∈ lengths ↔ length ∈ sameLengths)
    (instantiated : Instantiated leaves lengths before after) :
    Instantiated sameLeaves sameLengths before after :=
  { instantiated with
    typesCovered := fun isLeaf => instantiated.typesCovered ((leavesAgree _).mpr isLeaf)
    lengthsCovered := fun isLength =>
      instantiated.lengthsCovered ((lengthsAgree _).mpr isLength) }

/-- A parametric type that is met for the first time gets a fresh placeholder. -/
theorem newType
    {made : Instance}
    {env : Environment}
    {scope : ScopeId}
    {label : LabelId}
    (unset : made.types.lookup (scope, label) = none) :
    Instantiated [.parametric scope label] [] (made, env)
      ({ made with
          types := ((scope, label), .placeholder scope ⟨env.fresh.placeholder⟩) :: made.types },
        (freshPlaceholder scope env).2) := by
  have inserted := lookup_cons_eq_ite
    ((scope, label), Ty.placeholder scope ⟨env.fresh.placeholder⟩) made.types
  refine
    { unchanged := rfl
      newTypes :=
        .insert (made.types.lookup ·) _ (.placeholder scope ⟨env.fresh.placeholder⟩) unset inserted
      newLengths := .refl _ _
      placeholder := fun {key ty} isUnset found => ?_
      lengthVar := fun isUnset found => ?_
      typesCovered := fun isLeaf => ?_
      lengthsCovered := fun isLength => absurd isLength List.not_mem_nil }
  · have isFound := (inserted key).symm.trans found
    split at isFound
    · rename_i same
      cases isFound
      exact ⟨_, by rw [same]⟩
    · cases isUnset.symm.trans isFound
  · cases isUnset.symm.trans found
  · cases List.mem_singleton.mp isLeaf
    exact Option.isSome_iff_exists.mpr ⟨_, (inserted _).trans (if_pos rfl)⟩

/-- A generic length variable that is met for the first time gets a fresh one. -/
theorem newLength
    {made : Instance}
    {env : Environment}
    {id : LengthId}
    (unset : made.lengths.lookup id = none) :
    Instantiated [] [.var id] (made, env)
      ({ made with lengths := (id, .var ⟨env.fresh.length⟩) :: made.lengths },
        (freshLength env).2) := by
  have inserted := lookup_cons_eq_ite (id, Length.var ⟨env.fresh.length⟩) made.lengths
  refine
    { unchanged := rfl
      newTypes := .refl _ _
      newLengths :=
        .insert (made.lengths.lookup ·) _ (.var ⟨env.fresh.length⟩) unset inserted
      placeholder := fun isUnset found => ?_
      lengthVar := fun {other length} isUnset found => ?_
      typesCovered := fun isLeaf => absurd isLeaf List.not_mem_nil
      lengthsCovered := fun isLength _ => ?_ }
  · cases isUnset.symm.trans found
  · rw [inserted] at found
    split at found
    · cases found
      exact ⟨_, rfl⟩
    · cases isUnset.symm.trans found
  · cases List.mem_singleton.mp isLength
    exact Option.isSome_iff_exists.mpr ⟨_, (inserted _).trans (if_pos rfl)⟩

end Instantiated

/-! ## The traversal -/

/-- Some fresh variables may have been made in between. -/
def InstantiatesTo (making later : Making) : Prop :=
  ∃ leaves lengths, Instantiated leaves lengths making later

namespace InstantiatesTo

theorem refl (making : Making) : InstantiatesTo making making :=
  ⟨[], [], .refl (by simp) (by simp)⟩

theorem trans
    {making middle later : Making}
    (first : InstantiatesTo making middle)
    (second : InstantiatesTo middle later) :
    InstantiatesTo making later := by
  obtain ⟨_, _, earlier⟩ := first
  obtain ⟨_, _, further⟩ := second
  exact ⟨_, _, earlier.append further⟩

end InstantiatesTo

/-- What is put for the quantified variables of a type. -/
def instantiation (making : Making) : Substitution where
  named := .named
  placeholder := .placeholder
  parametric := fun scope label =>
    match making.1.types.lookup (scope, label) with
    | some (.placeholder freshScope id) => .placeholder freshScope id
    | _ => .parametric scope label
  length := fun length =>
    match length with
    | .known count => .known count
    | .var id =>
        if making.2.frames.isGeneric id then (making.1.lengths.lookup id).getD (.var id)
        else .var id

/-- What is put in for quantified variables is in canonical form. -/
theorem instantiation_isCanonical (making : Making) : (instantiation making).IsCanonical := by
  intro leaf isLeaf
  cases isLeaf with
  | parametric scope label =>
      simp only [Ty.subst_parametric, instantiation]
      split
      · exact .placeholder _ _
      · exact .parametric _ _
  | primitive kind => exact .primitive kind
  | named scope name => exact .named scope name
  | placeholder scope id => exact .placeholder scope id

/--
Whenever the computation runs after the start, it makes the fresh variables for some
leaves and lengths, and what it returns can be told from any later instance.
-/
def Instantiating
    (start : Environment)
    (computation : StateT Instance (StateM Environment) α)
    (value : Making → α)
    (leaves : List Ty)
    (lengths : List Length) : Prop :=
  ∀ made env,
    InstantiatesTo (⟨[], []⟩, start) (made, env) →
    Instantiated leaves lengths (made, env) ((computation made env).1.2, (computation made env).2) ∧
      ∀ later,
        InstantiatesTo ((computation made env).1.2, (computation made env).2) later →
        (computation made env).1.1 = value later

namespace Instantiating

variable {start : Environment}
variable {leaves moreLeaves : List Ty} {lengths moreLengths : List Length}

theorem pure (value : α) :
    Instantiating start (Pure.pure value) (fun _ => value) [] [] :=
  fun _ _ _ => ⟨.refl (by simp) (by simp), fun _ _ => rfl⟩

/-- Two visits in a row meet the leaves and lengths of both. -/
theorem bind
    {first : StateT Instance (StateM Environment) α}
    {next : α → StateT Instance (StateM Environment) β}
    {value : Making → α}
    {result : α → Making → β}
    (firstMakes : Instantiating start first value leaves lengths)
    (nextMakes : ∀ given, Instantiating start (next given) (result given) moreLeaves moreLengths) :
    Instantiating start (first >>= next) (fun later => result (value later) later)
      (leaves ++ moreLeaves) (lengths ++ moreLengths) := by
  intro made env before
  obtain ⟨earlier, isValue⟩ := firstMakes made env before
  obtain ⟨further, isResult⟩ := nextMakes (first made env).1.1 (first made env).1.2
    (first made env).2 (before.trans ⟨_, _, earlier⟩)
  refine ⟨earlier.append further, fun later after => ?_⟩
  have after :
      InstantiatesTo
        ((next (first made env).1.1 (first made env).1.2 (first made env).2).1.2,
          (next (first made env).1.1 (first made env).1.2 (first made env).2).2) later := after
  change (next (first made env).1.1 (first made env).1.2 (first made env).2).1.1 =
    result (value later) later
  rw [isResult later after, isValue later (.trans ⟨_, _, further⟩ after)]

/-- Only which leaves and lengths a visit meets matters, not how they are listed. -/
theorem congr
    {computation : StateT Instance (StateM Environment) α}
    {value : Making → α}
    {sameLeaves : List Ty}
    {sameLengths : List Length}
    (leavesAgree : ∀ leaf, leaf ∈ leaves ↔ leaf ∈ sameLeaves)
    (lengthsAgree : ∀ length, length ∈ lengths ↔ length ∈ sameLengths)
    (makes : Instantiating start computation value leaves lengths) :
    Instantiating start computation value sameLeaves sameLengths := by
  intro made env before
  obtain ⟨instantiated, isValue⟩ := makes made env before
  exact ⟨instantiated.congr leavesAgree lengthsAgree, isValue⟩

/-- A leaf that is not parametric is left as it is. -/
theorem leaf
    {leaf : Ty}
    (isLeaf : leaf.IsLeaf)
    (isOther : ∀ scope label, leaf ≠ .parametric scope label) :
    Instantiating start (Pure.pure leaf) (fun _ => leaf) leaf.leaves leaf.lengths := by
  intro made env _
  refine ⟨.refl (fun inLeaves => ?_) (fun inLengths => ?_), fun _ _ => rfl⟩
  · rw [isLeaf.leaves_eq, List.mem_singleton] at inLeaves
    exact absurd inLeaves.symm (isOther _ _)
  · rw [isLeaf.lengths_eq_nil] at inLengths
    contradiction

end Instantiating

/-- After reading the instance a computation goes on with the same instance. -/
theorem get_bind_run
    (next : Instance → StateT Instance (StateM Environment) α)
    (made : Instance)
    (env : Environment) :
    (get >>= next) made env = next made made env :=
  rfl

/-- A quantified type that was met before gets the same placeholder. -/
theorem instantiateParametric_of_made
    {made : Instance}
    {scope : ScopeId}
    {label : LabelId}
    {ty : Ty}
    (found : made.types.lookup (scope, label) = some ty)
    (env : Environment) :
    instantiateParametric scope label made env = ((ty, made), env) := by
  simp only [instantiateParametric, get_bind_run, found]
  rfl

/-- A quantified type that is met first gets a fresh placeholder. -/
theorem instantiateParametric_of_unset
    {made : Instance}
    {scope : ScopeId}
    {label : LabelId}
    (unset : made.types.lookup (scope, label) = none)
    (env : Environment) :
    instantiateParametric scope label made env =
      ((.placeholder scope ⟨env.fresh.placeholder⟩,
        { made with
          types := ((scope, label), .placeholder scope ⟨env.fresh.placeholder⟩) :: made.types }),
        (freshPlaceholder scope env).2) := by
  simp only [instantiateParametric, get_bind_run, unset]
  rfl

/-- What instantiating a length variable does, by what is known of it. -/
theorem instantiateLength_var (id : LengthId) (made : Instance) (env : Environment) :
    instantiateLength (.var id) made env =
      if env.frames.isGeneric id then
        match made.lengths.lookup id with
        | some length => ((length, made), env)
        | none =>
            ((.var ⟨env.fresh.length⟩,
              { made with lengths := (id, .var ⟨env.fresh.length⟩) :: made.lengths }),
              (freshLength env).2)
      else
        ((.var id, made), env) := by
  change (if env.frames.isGeneric id = true then _ else _ :
    StateT Instance (StateM Environment) Length) made env = _
  split
  · simp only [get_bind_run]
    cases made.lengths.lookup id <;> rfl
  · rfl

/-- A length variable that is not quantified is kept. -/
theorem instantiateLength_of_not_generic
    {env : Environment}
    {id : LengthId}
    (notGeneric : env.frames.isGeneric id = false)
    (made : Instance) :
    instantiateLength (.var id) made env = ((.var id, made), env) := by
  rw [instantiateLength_var, if_neg (by simp [notGeneric])]

/-- A quantified length that was met before gets the same variable. -/
theorem instantiateLength_of_made
    {made : Instance}
    {env : Environment}
    {id : LengthId}
    {length : Length}
    (isGeneric : env.frames.isGeneric id = true)
    (found : made.lengths.lookup id = some length) :
    instantiateLength (.var id) made env = ((length, made), env) := by
  rw [instantiateLength_var, if_pos isGeneric, found]

/-- A quantified length that is met first gets a fresh variable. -/
theorem instantiateLength_of_unset
    {made : Instance}
    {env : Environment}
    {id : LengthId}
    (isGeneric : env.frames.isGeneric id = true)
    (unset : made.lengths.lookup id = none) :
    instantiateLength (.var id) made env =
      ((.var ⟨env.fresh.length⟩,
        { made with lengths := (id, .var ⟨env.fresh.length⟩) :: made.lengths }),
        (freshLength env).2) := by
  rw [instantiateLength_var, if_pos isGeneric, unset]

/-- The visit of a quantified type puts in what the instance has for it. -/
theorem instantiateParametric_makes
    {start : Environment}
    (scope : ScopeId)
    (label : LabelId) :
    Instantiating start (instantiateParametric scope label)
      (fun later => (instantiation later).parametric scope label)
      [.parametric scope label] [] := by
  intro made env before
  obtain ⟨_, _, sinceStart⟩ := before
  cases found : made.types.lookup (scope, label) with
  | some ty =>
      obtain ⟨id, rfl⟩ := sinceStart.placeholder rfl found
      rw [instantiateParametric_of_made found]
      refine ⟨.refl (fun isLeaf => ?_) (by simp), fun later after => ?_⟩
      · cases List.mem_singleton.mp isLeaf
        exact Option.isSome_iff_exists.mpr ⟨_, found⟩
      · obtain ⟨_, _, further⟩ := after
        simp only [instantiation, further.newTypes.kept found]
  | none =>
      rw [instantiateParametric_of_unset found]
      refine ⟨.newType found, fun later after => ?_⟩
      obtain ⟨_, _, further⟩ := after
      have isMade := further.newTypes.kept (List.lookup_cons_self)
      simp only [instantiation, isMade]

/-- The visit of a length puts in what the instance has for it. -/
theorem instantiateLength_makes
    {start : Environment}
    (length : Length) :
    Instantiating start (instantiateLength length)
      (fun later => (instantiation later).length length) [] [length] := by
  intro made env before
  cases length with
  | known count => exact ⟨.refl (by simp) (by simp), fun _ _ => rfl⟩
  | var id =>
      cases isGeneric : env.frames.isGeneric id with
      | false =>
          rw [instantiateLength_of_not_generic isGeneric]
          refine ⟨.refl (by simp) (fun isLength generic => ?_), fun later after => ?_⟩
          · cases List.mem_singleton.mp isLength
            rw [isGeneric] at generic
            contradiction
          · obtain ⟨_, _, further⟩ := after
            simp [instantiation, further.frames, isGeneric]
      | true =>
          cases found : made.lengths.lookup id with
          | some fresh =>
              rw [instantiateLength_of_made isGeneric found]
              refine ⟨.refl (by simp) (fun isLength _ => ?_), fun later after => ?_⟩
              · cases List.mem_singleton.mp isLength
                exact Option.isSome_iff_exists.mpr ⟨_, found⟩
              · obtain ⟨_, _, further⟩ := after
                have isMade := further.newLengths.kept found
                simp [instantiation, further.frames, isGeneric, isMade]
          | none =>
              rw [instantiateLength_of_unset isGeneric found]
              refine ⟨.newLength found, fun later after => ?_⟩
              obtain ⟨_, _, further⟩ := after
              have isMade := further.newLengths.kept List.lookup_cons_self
              have sameFrames : later.2.frames = env.frames := further.frames
              simp [instantiation, sameFrames, isGeneric, isMade]

/--
Instantiating a resolved type puts fresh variables for all its quantified ones.

Where it has none, the type is returned as it is, which is the same as substituting.
-/
theorem instantiate_instantiated
    {env : Environment}
    {ty : Ty}
    (canonical : ty.Canonical)
    (resolved : env.resolve ty = ty) :
    ∃ made,
      Instantiated ty.leaves ty.lengths (⟨[], []⟩, env) (made, (instantiate ty env).2) ∧
        (instantiate ty env).1 = ty.subst (instantiation (made, (instantiate ty env).2)) := by
  have runs :
      instantiate ty env =
        if (env.resolve ty).vars.any env.isQuantified then
          (((env.resolve ty).traverse
            { named := fun scope name => pure (.named scope name)
              placeholder := fun scope id => pure (.placeholder scope id)
              parametric := instantiateParametric
              length := instantiateLength } :
              StateT Instance (StateM Environment) Ty) ⟨[], []⟩ >>= fun made => pure made.1) env
        else
          (env.resolve ty, env) := by
    unfold instantiate
    change (if (env.resolve ty).vars.any env.isQuantified = true then _ else _ :
      StateM Environment Ty) env = _
    split
    · rfl
    · rfl
  rw [resolved] at runs
  cases hasQuantified : ty.vars.any env.isQuantified with
  | true =>
      rw [hasQuantified, if_pos rfl] at runs
      have same : ty.subst .identity = ty := by
        refine canonical.subst_eq_self (fun _ => rfl) (fun _ _ => rfl) fun leaf isLeaf => ?_
        cases Ty.isLeaf_of_mem_leaves isLeaf <;> rfl
      have makes :
          Instantiating env
            (ty.traverse
              { named := fun scope name => pure (.named scope name)
                placeholder := fun scope id => pure (.placeholder scope id)
                parametric := instantiateParametric
                length := instantiateLength })
            (fun later => ty.subst (instantiation later))
            (ty.subst .identity).leaves (ty.subst .identity).lengths := by
        refine Ty.traverse_visits (motive := Instantiating env) .pure .bind .congr
          instantiateLength_makes fun leaf isLeaf => ?_
        cases Ty.isLeaf_of_mem_leaves isLeaf with
        | primitive kind => exact .leaf (.primitive kind) (by simp)
        | named scope name => exact .leaf (.named scope name) (by simp)
        | placeholder scope id => exact .leaf (.placeholder scope id) (by simp)
        | parametric scope label =>
            simp only [Ty.subst_parametric, Substitution.identity, Ty.leaves_parametric]
            exact instantiateParametric_makes scope label
      rw [same] at makes
      obtain ⟨instantiated, isValue⟩ := makes ⟨[], []⟩ env (.refl _)
      rw [runs]
      exact ⟨_, instantiated, isValue _ (.refl _)⟩
  | false =>
      rw [hasQuantified, if_neg Bool.false_ne_true] at runs
      have notQuantified : ∀ var ∈ ty.vars, env.isQuantified var = false := by
        simpa using hasQuantified
      rw [runs]
      refine ⟨⟨[], []⟩, .refl (fun isLeaf => ?_) (fun isLength isGeneric => ?_), ?_⟩
      · cases notQuantified _ (Ty.parametric_mem_vars_iff.mpr isLeaf)
      · have isFree := notQuantified _ (Ty.length_mem_vars_iff.mpr isLength)
        cases isFree.symm.trans isGeneric
      · symm
        refine canonical.subst_eq_self (fun _ => rfl) (fun id _ => ?_) fun leaf isLeaf => ?_
        · simp [instantiation]
        · cases Ty.isLeaf_of_mem_leaves isLeaf <;> rfl

end Environment

end ShaderTyping
