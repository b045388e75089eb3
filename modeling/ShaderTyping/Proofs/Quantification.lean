import ShaderTyping.Proofs.Closing
import ShaderTyping.Proofs.MonomorphicVariables
import ShaderTyping.Proofs.Occurs
import ShaderTyping.Proofs.Reachable
import ShaderTyping.Proofs.Visits

namespace ShaderTyping

/-!
# Which variables are quantified

`generalize` walks through a type, its bindings and the definitions of the types
that it refers to, and changes the environment that it reads on the way.  This module
shows that the outcome does not depend on the order of the walk: the placeholders
that become bound are the ones in the expanded type that are not monomorphic, and the
result is the expanded type with their parametric types put for them.

`Quantified` says what quantifying the variables of some leaves and lengths does to an
environment, and one visit of the walk after the other adds its leaves and lengths.
-/

/-- What a frame records besides bound placeholders and quantified lengths. -/
def Frame.others (frame : Frame) : Frame :=
  { frame with
    placeholders := ∅
    genericLengths := ∅ }

/-- What is read from the other records depends on them alone. -/
theorem FrameStack.read_of_others
    {entry : Frame → Option α}
    (recorded : ∀ frame, entry frame.others = entry frame)
    {first second : FrameStack}
    (same : first.frames.map Frame.others = second.frames.map Frame.others) :
    first.read entry = second.read entry := by
  have asMapped (stack : FrameStack) :
      stack.read entry = (stack.frames.map Frame.others).findSome? entry := by
    rw [List.findSome?_map]
    exact congrArg (stack.frames.findSome? ·) (funext fun frame => (recorded frame).symm)
  rw [asMapped, asMapped, same]

/-- Marking a length variable as quantified binds no placeholder. -/
theorem FrameStack.placeholder?_markGeneric
    (stack : FrameStack)
    (length : LengthId)
    (id : PlaceholderId) :
    (stack.markGeneric length).placeholder? id = stack.placeholder? id :=
  read_write_of_eq rfl

/--
The new entries of a table have numbers of their own, which a counter has run through
since.
-/
structure Numbered
    (number : ν → Nat)
    (before after : κ → Option ν)
    (low high : Nat) : Prop where
  counted : low ≤ high
  kept : ∀ {key value}, before key = some value → after key = some value
  range :
    ∀ {key value},
      before key = none →
      after key = some value →
      low ≤ number value ∧ number value < high
  distinct :
    ∀ {first second firstValue secondValue},
      before first = none →
      before second = none →
      after first = some firstValue →
      after second = some secondValue →
      number firstValue = number secondValue →
      first = second

namespace Numbered

variable {number : ν → Nat} {before middle after : κ → Option ν} {low between high : Nat}

theorem refl (table : κ → Option ν) (count : Nat) : Numbered number table table count count where
  counted := le_rfl
  kept found := found
  range unset found := by
    cases unset.symm.trans found
  distinct unset _ found := by
    cases unset.symm.trans found

/-- Numbers that are taken before are below those that are taken after. -/
theorem trans
    (earlier : Numbered number before middle low between)
    (later : Numbered number middle after between high) :
    Numbered number before after low high where
  counted := earlier.counted.trans later.counted
  kept found := later.kept (earlier.kept found)
  range {key value} unset found := by
    cases inMiddle : middle key with
    | some first =>
        cases (later.kept inMiddle).symm.trans found
        obtain ⟨above, below⟩ := earlier.range unset inMiddle
        exact ⟨above, below.trans_le later.counted⟩
    | none =>
        obtain ⟨above, below⟩ := later.range inMiddle found
        exact ⟨earlier.counted.trans above, below⟩
  distinct {first second firstValue secondValue} firstUnset secondUnset firstFound secondFound
      same := by
    cases firstMiddle : middle first with
    | some value =>
        cases (later.kept firstMiddle).symm.trans firstFound
        cases secondMiddle : middle second with
        | some other =>
            cases (later.kept secondMiddle).symm.trans secondFound
            exact earlier.distinct firstUnset secondUnset firstMiddle secondMiddle same
        | none =>
            have below := (earlier.range firstUnset firstMiddle).2
            have above := (later.range secondMiddle secondFound).1
            omega
    | none =>
        cases secondMiddle : middle second with
        | some other =>
            cases (later.kept secondMiddle).symm.trans secondFound
            have below := (earlier.range secondUnset secondMiddle).2
            have above := (later.range firstMiddle firstFound).1
            omega
        | none => exact later.distinct firstMiddle secondMiddle firstFound secondFound same

/-- A new entry takes the next number. -/
theorem insert
    [DecidableEq κ]
    (before after : κ → Option ν)
    {key : κ}
    (value : ν)
    (unset : before key = none)
    (inserted : ∀ other, after other = if other = key then some value else before other) :
    Numbered number before after (number value) (number value + 1) := by
  have isNew {other : κ} {found : ν} (isUnset : before other = none)
      (isFound : after other = some found) : other = key ∧ found = value := by
    rw [inserted] at isFound
    split at isFound
    · rename_i same
      cases isFound
      exact ⟨same, rfl⟩
    · cases isUnset.symm.trans isFound
  refine ⟨Nat.le_succ _, fun {other found} isFound => ?_, fun isUnset isFound => ?_,
    fun firstUnset secondUnset firstFound secondFound _ => ?_⟩
  · rw [inserted, if_neg]
    · exact isFound
    · rintro rfl
      cases unset.symm.trans isFound
  · rw [(isNew isUnset isFound).2]
    exact ⟨le_rfl, Nat.lt_succ_self _⟩
  · rw [(isNew firstUnset firstFound).1, (isNew secondUnset secondFound).1]

end Numbered

/-- The number of the label of a parametric type. -/
def Ty.labelNumber : Ty → Nat
  | .parametric _ label => label.number
  | _ => 0

namespace Environment

/--
What quantifying the variables of some leaves and lengths makes of an environment,
the given ones left alone.
-/
structure Quantified
    (kept : VarSet)
    (leaves : List Ty)
    (lengths : List Length)
    (env final : Environment) : Prop where
  unchanged :
    final = { env with frames := final.frames, fresh.label := final.fresh.label }
  others : final.frames.frames.map Frame.others = env.frames.frames.map Frame.others
  numbered :
    Numbered Ty.labelNumber env.binding? final.binding? env.fresh.label final.fresh.label
  parametric :
    ∀ {id bound},
      env.binding? id = none →
      final.binding? id = some bound →
      kept.contains (.placeholder id) = false ∧
        ∃ scope label, .placeholder scope id ∈ leaves ∧ bound = .parametric scope label
  covered :
    ∀ {scope id},
      .placeholder scope id ∈ leaves →
      kept.contains (.placeholder id) = false →
      (final.binding? id).isSome = true
  generic :
    ∀ id,
      final.frames.isGeneric id = true ↔
        env.frames.isGeneric id = true ∨ .var id ∈ lengths ∧ kept.contains (.length id) = false

namespace Quantified

variable {kept : VarSet} {leaves moreLeaves : List Ty} {lengths moreLengths : List Length}
variable {env middle final : Environment}

/-- Nothing is done where nothing is left to quantify. -/
theorem refl
    (leavesSettled :
      ∀ {scope id},
        .placeholder scope id ∈ leaves →
        kept.contains (.placeholder id) = false →
        (env.binding? id).isSome = true)
    (lengthsSettled : ∀ {id}, .var id ∈ lengths → kept.contains (.length id) = true) :
    Quantified kept leaves lengths env env where
  unchanged := rfl
  others := rfl
  numbered := .refl _ _
  parametric unbound found := by
    cases unbound.symm.trans found
  covered := leavesSettled
  generic id := by
    refine ⟨Or.inl, ?_⟩
    rintro (isGeneric | ⟨isLength, notKept⟩)
    · exact isGeneric
    · rw [lengthsSettled isLength] at notKept
      contradiction

/--
Quantifying the variables of some leaves and lengths and then of more quantifies those of all.
-/
theorem append
    (earlier : Quantified kept leaves lengths env middle)
    (later : Quantified kept moreLeaves moreLengths middle final) :
    Quantified kept (leaves ++ moreLeaves) (lengths ++ moreLengths) env final where
  unchanged := by
    rw [later.unchanged, earlier.unchanged]
  others := later.others.trans earlier.others
  numbered := earlier.numbered.trans later.numbered
  parametric {id bound} unbound found := by
    cases inMiddle : middle.binding? id with
    | some first =>
        cases (later.numbered.kept inMiddle).symm.trans found
        obtain ⟨notKept, scope, label, isLeaf, isBound⟩ := earlier.parametric unbound inMiddle
        exact ⟨notKept, scope, label, List.mem_append_left _ isLeaf, isBound⟩
    | none =>
        obtain ⟨notKept, scope, label, isLeaf, isBound⟩ := later.parametric inMiddle found
        exact ⟨notKept, scope, label, List.mem_append_right _ isLeaf, isBound⟩
  covered isLeaf notKept := by
    rcases List.mem_append.mp isLeaf with isEarlier | isLater
    · obtain ⟨bound, found⟩ := Option.isSome_iff_exists.mp (earlier.covered isEarlier notKept)
      rw [later.numbered.kept found]
      rfl
    · exact later.covered isLater notKept
  generic id := by
    rw [later.generic, earlier.generic, List.mem_append, or_and_right, or_assoc]

/-- Only which leaves and lengths are quantified matters, not how they are listed. -/
theorem congr
    {sameLeaves : List Ty}
    {sameLengths : List Length}
    (leavesAgree : ∀ leaf, leaf ∈ leaves ↔ leaf ∈ sameLeaves)
    (lengthsAgree : ∀ length, length ∈ lengths ↔ length ∈ sameLengths)
    (quantified : Quantified kept leaves lengths env final) :
    Quantified kept sameLeaves sameLengths env final :=
  { quantified with
    parametric := fun unbound found => by
      simpa only [leavesAgree] using quantified.parametric unbound found
    covered := fun isLeaf => quantified.covered ((leavesAgree _).mpr isLeaf)
    generic := fun id => by
      simpa only [lengthsAgree] using quantified.generic id }

/-- An unbound placeholder is bound to a parametric type with the next label. -/
theorem bindPlaceholder
    {id : PlaceholderId}
    (unbound : env.binding? id = none)
    (notKept : kept.contains (.placeholder id) = false)
    (scope : ScopeId) :
    Quantified kept [.placeholder scope id] [] env
      ((freshLabel env).2.bindPlaceholder id (.parametric scope ⟨env.fresh.label⟩)) := by
  have inserted :=
    FrameStack.placeholder?_bindPlaceholder id (.parametric scope ⟨env.fresh.label⟩) env.frames
  refine
    { unchanged := rfl
      others := rfl
      numbered := .insert env.binding? _ (.parametric scope ⟨env.fresh.label⟩) unbound inserted
      parametric := fun {other bound} isUnbound found => ?_
      covered := fun {otherScope other} isLeaf _ => ?_
      generic := fun other => ?_ }
  · have isNew := (inserted other).symm.trans found
    by_cases same : other = id
    · rw [if_pos same] at isNew
      cases isNew
      cases same
      exact ⟨notKept, scope, _, List.mem_singleton_self _, rfl⟩
    · rw [if_neg same] at isNew
      cases isUnbound.symm.trans isNew
  · cases List.mem_singleton.mp isLeaf
    exact Option.isSome_iff_exists.mpr ⟨_, (inserted id).trans (if_pos rfl)⟩
  · simp only [List.not_mem_nil, false_and, or_false]
    rfl

/-- Marking a length variable that is not kept quantifies it. -/
theorem markGeneric
    {id : LengthId}
    (notKept : kept.contains (.length id) = false) :
    Quantified kept [] [.var id] env (env.markGeneric id) := by
  have sameBinding : (env.markGeneric id).binding? = env.binding? :=
    funext (env.frames.placeholder?_markGeneric id)
  refine
    { unchanged := rfl
      others := rfl
      numbered := sameBinding ▸ .refl _ _
      parametric := fun unbound found => ?_
      covered := fun isLeaf => absurd isLeaf List.not_mem_nil
      generic := fun other => ?_ }
  · cases unbound.symm.trans (sameBinding ▸ found)
  · refine (Bool.eq_iff_iff.mp (FrameStack.isGeneric_markGeneric id env.frames other)).trans ?_
    rw [Bool.or_eq_true, decide_eq_true_iff, List.mem_singleton, Length.var.injEq, or_comm]
    exact or_congr_right ⟨fun same => ⟨same, same ▸ notKept⟩, And.left⟩

/-- Only labels are taken. -/
theorem counters (quantified : Quantified kept leaves lengths env final) :
    final.fresh.placeholder = env.fresh.placeholder ∧
      final.fresh.length = env.fresh.length := by
  rw [quantified.unchanged]
  exact ⟨rfl, rfl⟩

/-- Quantifying binds no length variable. -/
theorem length? (quantified : Quantified kept leaves lengths env final) (id : LengthId) :
    final.frames.length? id = env.frames.length? id :=
  FrameStack.read_of_others (fun _ => rfl) quantified.others

/-- Quantifying records no type of an expression. -/
theorem inferred? (quantified : Quantified kept leaves lengths env final) (id : ExprId) :
    final.frames.inferred? id = env.frames.inferred? id :=
  FrameStack.read_of_others (fun _ => rfl) quantified.others

/-- Quantifying records no type of a parameter. -/
theorem parameter?
    (quantified : Quantified kept leaves lengths env final)
    (function : ExprId)
    (position : Nat) :
    final.frames.parameter? function position = env.frames.parameter? function position :=
  FrameStack.read_of_others (fun _ => rfl) quantified.others

/-- Quantifying changes no resolved length. -/
theorem resolveLength
    (quantified : Quantified kept leaves lengths env final)
    (length : Length) :
    final.resolveLength length = env.resolveLength length := by
  have within (steps : Nat) (length : Length) :
      final.resolveLengthWithin steps length = env.resolveLengthWithin steps length := by
    induction steps generalizing length with
    | zero => rfl
    | succ steps inductionHypothesis =>
        cases length with
        | known count => rfl
        | var id =>
            rw [resolveLengthWithin, resolveLengthWithin, quantified.length?]
            cases env.frames.length? id with
            | none => rfl
            | some bound => exact inductionHypothesis bound
  have sameCount : final.frames.lengthBindingCount = env.frames.lengthBindingCount := by
    have asMapped (stack : FrameStack) :
        stack.lengthBindingCount =
          (stack.frames.map Frame.others).foldl (fun count frame => count + frame.lengths.size) 0 := by
      rw [List.foldl_map]
      rfl
    rw [asMapped, asMapped, quantified.others]
  cases length with
  | known count => rfl
  | var id => exact (within _ _).trans (congrArg (env.resolveLengthWithin · _) sameCount)

end Quantified

/-! ## The walk -/

/-- Some variables may have been quantified in between. -/
def QuantifiesTo (kept : VarSet) (env later : Environment) : Prop :=
  ∃ leaves lengths, Quantified kept leaves lengths env later

namespace QuantifiesTo

variable {kept : VarSet} {env middle later : Environment}

theorem refl (env : Environment) : QuantifiesTo kept env env :=
  ⟨[], [], .refl (fun isLeaf => absurd isLeaf List.not_mem_nil)
    fun isLength => absurd isLength List.not_mem_nil⟩

theorem trans
    (first : QuantifiesTo kept env middle)
    (second : QuantifiesTo kept middle later) :
    QuantifiesTo kept env later := by
  obtain ⟨_, _, earlier⟩ := first
  obtain ⟨_, _, further⟩ := second
  exact ⟨_, _, earlier.append further⟩

/-- Quantifying declares nothing. -/
theorem declared (quantifies : QuantifiesTo kept env later) : later.declared = env.declared := by
  obtain ⟨_, _, quantified⟩ := quantifies
  rw [quantified.unchanged]

/-- Quantifying keeps what is bound. -/
theorem binding
    (quantifies : QuantifiesTo kept env later)
    {id : PlaceholderId}
    {bound : Ty}
    (found : env.binding? id = some bound) :
    later.binding? id = some bound := by
  obtain ⟨_, _, quantified⟩ := quantifies
  exact quantified.numbered.kept found

/-- What quantifying binds was not kept, and is bound to a quantified type. -/
theorem parametric
    (quantifies : QuantifiesTo kept env later)
    {id : PlaceholderId}
    {bound : Ty}
    (unbound : env.binding? id = none)
    (found : later.binding? id = some bound) :
    kept.contains (.placeholder id) = false ∧ ∃ scope label, bound = .parametric scope label := by
  obtain ⟨_, _, quantified⟩ := quantifies
  obtain ⟨notKept, scope, label, _, isBound⟩ := quantified.parametric unbound found
  exact ⟨notKept, scope, label, isBound⟩

/-- Quantifying changes no resolved length. -/
theorem resolveLength (quantifies : QuantifiesTo kept env later) (length : Length) :
    later.resolveLength length = env.resolveLength length := by
  obtain ⟨_, _, quantified⟩ := quantifies
  exact quantified.resolveLength length

end QuantifiesTo

/-- What is put for quantified placeholders: the parametric types that they are bound to. -/
def quantification (env : Environment) : Substitution where
  named := .named
  placeholder := fun scope id =>
    match env.binding? id with
    | some (.parametric boundScope label) => .parametric boundScope label
    | _ => .placeholder scope id
  parametric := .parametric
  length := fun length => length

/-- A leaf is replaced by a leaf. -/
theorem quantification_isLeaf
    (env : Environment)
    {leaf : Ty}
    (isLeaf : leaf.IsLeaf) :
    (leaf.subst env.quantification).IsLeaf := by
  cases isLeaf with
  | placeholder scope id =>
      simp only [Ty.subst_placeholder, quantification]
      split
      · exact .parametric _ _
      · exact .placeholder _ _
  | primitive kind => exact .primitive kind
  | named scope name => exact .named scope name
  | parametric scope label => exact .parametric scope label

/-- What is put in for leaves is in canonical form. -/
theorem quantification_isCanonical (env : Environment) : env.quantification.IsCanonical :=
  fun isLeaf => (env.quantification_isLeaf isLeaf).canonical

/--
Whenever the computation runs after the start, it quantifies the variables of some
leaves and lengths, and what it returns can be told from any later environment.
-/
def Quantifying
    (start : Environment)
    (kept : VarSet)
    (computation : StateM Environment α)
    (value : Environment → α)
    (leaves : List Ty)
    (lengths : List Length) : Prop :=
  ∀ env, QuantifiesTo kept start env →
    Quantified kept leaves lengths env (computation env).2 ∧
      ∀ later, QuantifiesTo kept (computation env).2 later → (computation env).1 = value later

namespace Quantifying

variable {start : Environment} {kept : VarSet}
variable {leaves moreLeaves : List Ty} {lengths moreLengths : List Length}

theorem pure (value : α) :
    Quantifying start kept (Pure.pure value : StateM Environment α) (fun _ => value) [] [] :=
  fun _ _ =>
    ⟨.refl (fun isLeaf => absurd isLeaf List.not_mem_nil)
      fun isLength => absurd isLength List.not_mem_nil, fun _ _ => rfl⟩

/-- Two walks in a row quantify the variables of both. -/
theorem bind
    {first : StateM Environment α}
    {next : α → StateM Environment β}
    {value : Environment → α}
    {result : α → Environment → β}
    (firstQuantifies : Quantifying start kept first value leaves lengths)
    (nextQuantifies :
      ∀ given, Quantifying start kept (next given) (result given) moreLeaves moreLengths) :
    Quantifying start kept (first >>= next) (fun later => result (value later) later)
      (leaves ++ moreLeaves) (lengths ++ moreLengths) := by
  intro env before
  obtain ⟨earlier, isValue⟩ := firstQuantifies env before
  obtain ⟨further, isResult⟩ :=
    nextQuantifies (first env).1 (first env).2 (before.trans ⟨_, _, earlier⟩)
  refine ⟨earlier.append further, fun later after => ?_⟩
  have after : QuantifiesTo kept (next (first env).1 (first env).2).2 later := after
  change (next (first env).1 (first env).2).1 = result (value later) later
  rw [isResult later after, isValue later (.trans ⟨_, _, further⟩ after)]

/-- Only which leaves and lengths a walk quantifies matters, not how they are listed. -/
theorem congr
    {computation : StateM Environment α}
    {value : Environment → α}
    {sameLeaves : List Ty}
    {sameLengths : List Length}
    (leavesAgree : ∀ leaf, leaf ∈ leaves ↔ leaf ∈ sameLeaves)
    (lengthsAgree : ∀ length, length ∈ lengths ↔ length ∈ sameLengths)
    (quantifying : Quantifying start kept computation value leaves lengths) :
    Quantifying start kept computation value sameLeaves sameLengths := by
  intro env before
  obtain ⟨quantified, isValue⟩ := quantifying env before
  exact ⟨quantified.congr leavesAgree lengthsAgree, isValue⟩

/-- A walk may be replaced by one that does the same wherever quantifying leads from the start. -/
theorem of_eq
    {computation other : StateM Environment α}
    {value : Environment → α}
    (same : ∀ env, QuantifiesTo kept start env → computation env = other env)
    (quantifying : Quantifying start kept other value leaves lengths) :
    Quantifying start kept computation value leaves lengths := by
  intro env before
  rw [same env before]
  exact quantifying env before

/-- A leaf that is no placeholder is left as it is. -/
theorem leaf
    {leaf : Ty}
    (isLeaf : leaf.IsLeaf)
    (isOther : leaf.isPlaceholder = false) :
    Quantifying start kept (Pure.pure leaf) (fun _ => leaf) leaf.leaves leaf.lengths := by
  intro env _
  refine ⟨.refl (fun inLeaves => ?_) (fun inLengths => ?_), fun _ _ => rfl⟩
  · rw [isLeaf.leaves_eq, List.mem_singleton] at inLeaves
    subst inLeaves
    contradiction
  · rw [isLeaf.lengths_eq_nil] at inLengths
    contradiction

end Quantifying

/-- After reading the environment a computation goes on with the same environment. -/
theorem get_bind_apply
    (next : Environment → StateM Environment α)
    (env : Environment) :
    (get >>= next) env = next env env :=
  rfl

/-- An unbound length variable is marked unless it is kept. -/
theorem quantifyLength_of_var
    {env : Environment}
    {length : Length}
    {id : LengthId}
    (resolved : env.resolveLength length = .var id)
    (kept : VarSet) :
    quantifyLength kept length env =
      (.var id, if kept.contains (.length id) then env else env.markGeneric id) := by
  simp only [quantifyLength, get_bind_apply, resolved]
  cases kept.contains (.length id) with
  | true => rfl
  | false => rfl

/-- A known length is left as it is. -/
theorem quantifyLength_of_known
    {env : Environment}
    {length : Length}
    {count : Nat}
    (resolved : env.resolveLength length = .known count)
    (kept : VarSet) :
    quantifyLength kept length env = (.known count, env) := by
  simp only [quantifyLength, get_bind_apply, resolved]
  rfl

/-- The walk over a length quantifies the resolved length. -/
theorem quantifyLength_quantifying
    {start : Environment}
    (kept : VarSet)
    (length : Length) :
    Quantifying start kept (quantifyLength kept length) (fun _ => start.resolveLength length)
      [] [start.resolveLength length] := by
  intro env before
  have sameLength := before.resolveLength length
  cases resolved : start.resolveLength length with
  | known count =>
      rw [quantifyLength_of_known (sameLength.trans resolved)]
      exact ⟨.refl (by simp) (by simp), fun _ _ => rfl⟩
  | var id =>
      rw [quantifyLength_of_var (sameLength.trans resolved)]
      refine ⟨?_, fun _ _ => rfl⟩
      cases isKept : kept.contains (.length id) with
      | true => exact .refl (by simp) (by simpa using isKept)
      | false => exact .markGeneric isKept

/-- A kept placeholder is left as it is. -/
theorem quantifyPlaceholder_of_kept
    {kept : VarSet}
    {id : PlaceholderId}
    (isKept : kept.contains (.placeholder id) = true)
    (scope : ScopeId)
    (env : Environment) :
    quantifyPlaceholder kept scope id env = (.placeholder scope id, env) := by
  unfold quantifyPlaceholder
  rw [if_pos isKept]
  rfl

/-- A placeholder that is not kept is bound to a quantified type with a fresh label. -/
theorem quantifyPlaceholder_of_not_kept
    {kept : VarSet}
    {id : PlaceholderId}
    (notKept : kept.contains (.placeholder id) = false)
    (scope : ScopeId)
    (env : Environment) :
    quantifyPlaceholder kept scope id env =
      (.parametric scope ⟨env.fresh.label⟩,
        (freshLabel env).2.bindPlaceholder id (.parametric scope ⟨env.fresh.label⟩)) := by
  unfold quantifyPlaceholder
  rw [if_neg (by simp [notKept])]
  rfl

/-- What the walk does at a placeholder. -/
def visitPlaceholder
    (kept : VarSet)
    (steps : Nat)
    (expanding : List AliasKey)
    (scope : ScopeId)
    (id : PlaceholderId) : StateM Environment Ty := do
  match (← get).binding? id with
  | some bound => quantifyWithin kept steps expanding bound
  | none => quantifyPlaceholder kept scope id

/-- What the walk does at a reference. -/
def visitNamed
    (kept : VarSet)
    (steps : Nat)
    (expanding : List AliasKey)
    (scope : ScopeId)
    (name : String) : StateM Environment Ty := do
  match (← get).definition? scope name with
  | some (key, definition) =>
      if expanding.contains key then
        pure (.named scope name)
      else
        quantifyWithin kept steps (key :: expanding) definition
  | none => pure (.named scope name)

/-- With steps left the walk is a traversal that looks behind placeholders and references. -/
theorem quantifyWithin_succ
    (kept : VarSet)
    (steps : Nat)
    (expanding : List AliasKey)
    (ty : Ty) :
    quantifyWithin kept (steps + 1) expanding ty =
      ty.traverse
        { named := visitNamed kept steps expanding
          placeholder := visitPlaceholder kept steps expanding
          parametric := fun scope label => pure (.parametric scope label)
          length := quantifyLength kept } :=
  rfl

/-- At a bound placeholder the walk goes on with its binding. -/
theorem visitPlaceholder_of_bound
    {env : Environment}
    {id : PlaceholderId}
    {bound : Ty}
    (found : env.binding? id = some bound)
    (kept : VarSet)
    (steps : Nat)
    (expanding : List AliasKey)
    (scope : ScopeId) :
    visitPlaceholder kept steps expanding scope id env =
      quantifyWithin kept steps expanding bound env := by
  simp only [visitPlaceholder, get_bind_apply, found]

/-- At an unbound placeholder the walk quantifies it unless it is kept. -/
theorem visitPlaceholder_of_unbound
    {env : Environment}
    {id : PlaceholderId}
    (unbound : env.binding? id = none)
    (kept : VarSet)
    (steps : Nat)
    (expanding : List AliasKey)
    (scope : ScopeId) :
    visitPlaceholder kept steps expanding scope id env =
      quantifyPlaceholder kept scope id env := by
  simp only [visitPlaceholder, get_bind_apply, unbound]

/-- The visit depends on declarations alone, which no walk changes. -/
theorem visitNamed_of_declared
    {start env : Environment}
    (same : env.declared = start.declared)
    (kept : VarSet)
    (steps : Nat)
    (expanding : List AliasKey)
    (scope : ScopeId)
    (name : String) :
    visitNamed kept steps expanding scope name env =
      (match start.definition? scope name with
      | some (key, definition) =>
          if expanding.contains key then
            pure (.named scope name)
          else
            quantifyWithin kept steps (key :: expanding) definition
      | none => pure (.named scope name) : StateM Environment Ty) env := by
  rw [← definition?_congr same]
  rfl

/--
A placeholder that was unbound at the start is quantified, unless it is kept.

It may have been met and bound since the start; then its parametric type is found again.
-/
theorem visitPlaceholder_quantifying
    {start : Environment}
    {id : PlaceholderId}
    (unbound : start.binding? id = none)
    (kept : VarSet)
    (steps : Nat)
    (expanding : List AliasKey)
    (scope : ScopeId) :
    Quantifying start kept (visitPlaceholder kept steps expanding scope id)
      (fun later => later.quantification.placeholder scope id) [.placeholder scope id] [] := by
  intro env before
  cases found : env.binding? id with
  | some bound =>
      obtain ⟨_, boundScope, label, rfl⟩ := before.parametric unbound found
      rw [visitPlaceholder_of_bound found, quantifyWithin_parametric]
      refine ⟨.refl (fun isLeaf _ => ?_) (by simp), fun later after => ?_⟩
      · cases List.mem_singleton.mp isLeaf
        exact Option.isSome_iff_exists.mpr ⟨_, found⟩
      · simp only [quantification, QuantifiesTo.binding after found]
        rfl
  | none =>
      rw [visitPlaceholder_of_unbound found]
      cases isKept : kept.contains (.placeholder id) with
      | true =>
          rw [quantifyPlaceholder_of_kept isKept]
          refine ⟨.refl (fun isLeaf notKept => ?_) (by simp), fun later after => ?_⟩
          · cases List.mem_singleton.mp isLeaf
            rw [isKept] at notKept
            contradiction
          · have stillUnbound : later.binding? id = none := by
              by_contra isBound
              obtain ⟨bound, laterFound⟩ := Option.ne_none_iff_exists'.mp isBound
              have notKept := (QuantifiesTo.parametric (before.trans after) unbound laterFound).1
              rw [isKept] at notKept
              contradiction
            simp only [quantification, stillUnbound]
      | false =>
          rw [quantifyPlaceholder_of_not_kept isKept]
          refine ⟨.bindPlaceholder found isKept scope, fun later after => ?_⟩
          have isBound :
              ((freshLabel env).2.bindPlaceholder id
                (.parametric scope ⟨env.fresh.label⟩)).binding? id =
                some (.parametric scope ⟨env.fresh.label⟩) := by
            refine (FrameStack.placeholder?_bindPlaceholder id _ env.frames id).trans ?_
            rw [if_pos rfl]
          simp only [quantification, QuantifiesTo.binding after isBound]

/--
Induction along the walk that expands a type.

The walk has enough steps for every binding and for every definition that is not
around it, so the case without steps does not occur.
-/
theorem expandInduction
    {env : Environment}
    (consistent : env.frames.Consistent)
    {motive : Nat → List AliasKey → Ty → Prop}
    (step :
      ∀ {steps expanding ty},
        (∀ {scope id bound},
          .placeholder scope id ∈ ty.leaves →
          env.binding? id = some bound →
          motive steps expanding bound) →
        (∀ {scope name key definition},
          .named scope name ∈ ty.leaves →
          env.definition? scope name = some (key, definition) →
          expanding.contains key = false →
          motive steps (key :: expanding) definition) →
        motive (steps + 1) expanding ty)
    (ty : Ty) :
    motive (env.walkLimit + 1) [] ty := by
  obtain ⟨rank, bounded, falls⟩ := exists_bindingRank consistent
  have within {steps : Nat} {expanding : List AliasKey} {ty : Ty}
      (nodup : expanding.Nodup)
      (declared : expanding ⊆ env.aliasKeys)
      (enough : env.searchNeed rank expanding ty < steps) :
      motive steps expanding ty := by
    induction steps generalizing expanding ty with
    | zero => exact absurd enough (Nat.not_lt_zero _)
    | succ steps inductionHypothesis =>
        refine step (fun {scope id bound} isLeaf found => ?_)
          fun {scope name key definition} _ found notAround => ?_
        · have isLess : env.searchNeed rank expanding bound < env.searchNeed rank expanding ty :=
            searchNeed_binding nodup (List.Subset.refl _) (falls isLeaf found)
          exact inductionHypothesis nodup declared (by omega)
        · have isNew : key ∉ expanding := by
            rw [← List.contains_iff_mem, notAround]
            exact Bool.false_ne_true
          have keyNodup : (key :: expanding).Nodup := List.nodup_cons.mpr ⟨isNew, nodup⟩
          have keyDeclared : key :: expanding ⊆ env.aliasKeys :=
            List.cons_subset.mpr ⟨mem_aliasKeys found, declared⟩
          have isLess :
              env.searchNeed rank (key :: expanding) definition <
                env.searchNeed rank expanding ty :=
            searchNeed_definition bounded nodup (List.Subset.refl _) keyNodup keyDeclared
          exact inductionHypothesis keyNodup keyDeclared (by omega)
  exact within List.nodup_nil (List.nil_subset _) (searchNeed_lt_walkLimit bounded ty)

/--
Quantifying a type quantifies the variables of the expanded type.

The steps are counted along what was bound and declared at the start: what was bound
since then leads nowhere.
-/
theorem quantifyWithin_quantifying
    {start : Environment}
    (consistent : start.frames.Consistent)
    (kept : VarSet)
    (ty : Ty) :
    Quantifying start kept (quantifyWithin kept (start.walkLimit + 1) [] ty)
      (fun later => (start.expand ty).subst later.quantification)
      (start.expand ty).leaves (start.expand ty).lengths := by
  have composed (ty : Ty) (now : Substitution) (later : Environment) :
      (ty.subst now).subst later.quantification =
        ty.subst (now.andThen later.quantification) :=
    Ty.subst_subst later.quantification_isCanonical ty
  refine expandInduction consistent
    (motive := fun steps expanding ty =>
      Quantifying start kept (quantifyWithin kept steps expanding ty)
        (fun later => (start.expandWithin steps expanding ty).subst later.quantification)
        (start.expandWithin steps expanding ty).leaves
        (start.expandWithin steps expanding ty).lengths) ?_ ty
  intro steps expanding ty bindings definitions
  rw [quantifyWithin_succ]
  simp only [expandWithin, composed]
  refine Ty.traverse_visits (motive := Quantifying start kept) .pure .bind .congr
    (quantifyLength_quantifying kept) fun leaf isLeaf => ?_
  simp only [← composed]
  cases Ty.isLeaf_of_mem_leaves isLeaf with
  | primitive kind => exact .leaf (.primitive kind) rfl
  | parametric scope label => exact .leaf (.parametric scope label) rfl
  | placeholder scope id =>
      cases found : start.binding? id with
      | none =>
          simp only [Ty.subst_placeholder, found, Ty.leaves_placeholder]
          exact visitPlaceholder_quantifying found kept steps expanding scope
      | some bound =>
          simp only [Ty.subst_placeholder, found]
          refine .of_eq (fun env before => ?_) (bindings isLeaf found)
          exact visitPlaceholder_of_bound (before.binding found) kept steps expanding scope
  | named scope name =>
      have visit env (before : QuantifiesTo kept start env) :=
        visitNamed_of_declared before.declared kept steps expanding scope name
      cases found : start.definition? scope name with
      | none =>
          simp only [Ty.subst_named, found] at visit ⊢
          exact .of_eq visit (.leaf (.named scope name) rfl)
      | some entry =>
          obtain ⟨key, definition⟩ := entry
          simp only [Ty.subst_named, found] at visit ⊢
          cases isAround : expanding.contains key with
          | true =>
              simp only [isAround, if_true] at visit ⊢
              exact .of_eq visit (.leaf (.named scope name) rfl)
          | false =>
              simp only [isAround, Bool.false_eq_true, if_false] at visit ⊢
              exact .of_eq visit (definitions isLeaf found isAround)

/-- What quantifying a type does and returns. -/
theorem quantify_quantified
    {env : Environment}
    (consistent : env.frames.Consistent)
    (kept : VarSet)
    (ty : Ty) :
    Quantified kept (env.expand ty).leaves (env.expand ty).lengths env (quantify kept ty env).2 ∧
      (quantify kept ty env).1 =
        (env.expand ty).subst (quantify kept ty env).2.quantification := by
  obtain ⟨quantified, isValue⟩ :=
    quantifyWithin_quantifying consistent kept ty env (.refl env)
  exact ⟨quantified, isValue _ (.refl _)⟩

/-- Generalizing is quantifying all but the monomorphic variables. -/
theorem generalize_eq (ty : Ty) (env : Environment) :
    generalize ty env = quantify env.monomorphic ty env :=
  get_bind_apply (fun env => quantify env.monomorphic ty) env

/-- What generalizing a type does and returns. -/
theorem generalize_quantified
    {env : Environment}
    (consistent : env.frames.Consistent)
    (ty : Ty) :
    Quantified env.monomorphic (env.expand ty).leaves (env.expand ty).lengths env
        (generalize ty env).2 ∧
      (generalize ty env).1 = (env.expand ty).subst (generalize ty env).2.quantification := by
  rw [generalize_eq]
  exact quantify_quantified consistent env.monomorphic ty

/-- No bound variable is left in an expanded type. -/
theorem isBound_of_mem_vars_expand
    {env : Environment}
    (consistent : env.frames.Consistent)
    {ty : Ty}
    {var : Var}
    (member : var ∈ (env.expand ty).vars) :
    env.isBound var = false := by
  revert member
  refine expandInduction consistent
    (motive := fun steps expanding ty =>
      var ∈ (env.expandWithin steps expanding ty).vars → env.isBound var = false) ?_ ty
  intro steps expanding ty bindings definitions member
  rw [expandWithin] at member
  rcases Ty.mem_vars_subst member with ⟨leaf, isLeaf, inLeaf⟩ | ⟨length, inLength⟩
  · cases Ty.isLeaf_of_mem_leaves isLeaf with
    | primitive kind => simp [Ty.vars, Ty.leafVars] at inLeaf
    | parametric scope label =>
        simp only [Ty.subst_parametric, Ty.vars, Ty.collect_parametric, Ty.leafVars,
          List.mem_singleton] at inLeaf
        rw [inLeaf]
        rfl
    | placeholder scope id =>
        cases found : env.binding? id with
        | none =>
            simp only [Ty.subst_placeholder, found, Ty.vars, Ty.collect_placeholder,
              Ty.leafVars, List.mem_singleton] at inLeaf
            simp [inLeaf, isBound, found]
        | some bound =>
            simp only [Ty.subst_placeholder, found] at inLeaf
            exact bindings isLeaf found inLeaf
    | named scope name =>
        cases found : env.definition? scope name with
        | none => simp [found, Ty.vars, Ty.leafVars] at inLeaf
        | some entry =>
            simp only [Ty.subst_named, found] at inLeaf
            cases isAround : expanding.contains entry.1 with
            | true =>
                simp only [isAround, if_true] at inLeaf
                simp [Ty.vars, Ty.leafVars] at inLeaf
            | false =>
                simp only [isAround, Bool.false_eq_true, if_false] at inLeaf
                exact definitions isLeaf found isAround inLeaf
  · cases resolved : env.resolveLength length with
    | known count => simp [resolved, Ty.lengthVars] at inLength
    | var id =>
        simp only [resolved, Ty.lengthVars, List.mem_singleton] at inLength
        simp [inLength, isBound, length?_of_resolveLength_eq_var consistent resolved]

/-- Expanding brings a type into canonical form. -/
theorem canonical_expand
    {env : Environment}
    (consistent : env.frames.Consistent)
    (ty : Ty) :
    (env.expand ty).Canonical := by
  refine expandInduction consistent
    (motive := fun steps expanding ty => (env.expandWithin steps expanding ty).Canonical) ?_ ty
  intro steps expanding ty bindings definitions
  rw [expandWithin]
  refine Ty.Canonical.subst fun leaf isLeaf => ?_
  cases Ty.isLeaf_of_mem_leaves isLeaf with
  | primitive kind => exact .primitive kind
  | parametric scope label => exact .parametric scope label
  | placeholder scope id =>
      cases found : env.binding? id with
      | none =>
          simp only [Ty.subst_placeholder, found]
          exact .placeholder scope id
      | some bound =>
          simp only [Ty.subst_placeholder, found]
          exact bindings isLeaf found
  | named scope name =>
      cases found : env.definition? scope name with
      | none =>
          simp only [Ty.subst_named, found]
          exact .named scope name
      | some entry =>
          simp only [Ty.subst_named, found]
          cases isAround : expanding.contains entry.1 with
          | true =>
              simp only [if_true]
              exact .named scope name
          | false =>
              simp only [Bool.false_eq_true, if_false]
              exact definitions isLeaf found isAround

end Environment

end ShaderTyping
