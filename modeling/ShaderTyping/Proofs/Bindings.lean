import ShaderTyping.Environment.Resolve
import ShaderTyping.Proofs.Canonical
import ShaderTyping.Proofs.Table

namespace ShaderTyping

/-!
# Consistent bindings

The bindings in a stack of frames are consistent if no variable is bound in two
frames and no variable is bound, directly or through others, to something that
contains it.  Every operation on a stack keeps this, provided that only unbound
variables are bound and that the occurs check was made.  Along consistent
bindings every walk ends before the steps granted to it are used up.
-/

namespace Ty

/-- Whether a placeholder is a part of a type. -/
def Mentions (ty : Ty) (id : PlaceholderId) : Prop :=
  Var.placeholder id ∈ ty.vars

/-- A placeholder is a part of a type exactly if it is a leaf of the type. -/
theorem mentions_iff_mem_leaves {ty : Ty} {id : PlaceholderId} :
    ty.Mentions id ↔ ∃ scope, .placeholder scope id ∈ ty.leaves := by
  unfold Mentions
  induction ty using Ty.induction with
  | array component length inductionHypothesis =>
      rw [leaves_array, ← inductionHypothesis]
      cases length <;> simp [vars, lengthVars]
  | struct fields inductionHypothesis =>
      simp only [vars, collect_struct, leaves_struct, List.mem_flatMap]
      constructor
      · rintro ⟨field, isField, inField⟩
        obtain ⟨scope, isLeaf⟩ := (inductionHypothesis field isField).mp inField
        exact ⟨scope, field, isField, isLeaf⟩
      · rintro ⟨scope, field, isField, isLeaf⟩
        exact ⟨field, isField, (inductionHypothesis field isField).mpr ⟨scope, isLeaf⟩⟩
  | function param result paramHypothesis resultHypothesis =>
      simp only [vars, collect_function, leaves_function, List.mem_append, exists_or]
      exact or_congr paramHypothesis resultHypothesis
  | union members inductionHypothesis =>
      simp only [vars, collect_union, leaves_union, List.mem_flatMap]
      constructor
      · rintro ⟨member, isMember, inMember⟩
        obtain ⟨scope, isLeaf⟩ := (inductionHypothesis member isMember).mp inMember
        exact ⟨scope, member, isMember, isLeaf⟩
      · rintro ⟨scope, member, isMember, isLeaf⟩
        exact ⟨member, isMember, (inductionHypothesis member isMember).mpr ⟨scope, isLeaf⟩⟩
  | primitive | named | placeholder | parametric =>
      simp [vars, leafVars]

end Ty

namespace Length

/-- Whether a length is a variable. -/
def Mentions (length : Length) (id : LengthId) : Prop :=
  length = .var id

end Length

namespace Frame

section Once

variable {κ ν : Type} [Ord κ]
variable {table : Frame → Std.TreeMap κ ν}

/-- No key has an entry in two of the frames. -/
def Once (table : Frame → Std.TreeMap κ ν) (frames : List Frame) : Prop :=
  frames.Pairwise fun upper lower => ∀ key, key ∈ table upper → key ∉ table lower

/-- The entry of a key in the topmost frame that has one. -/
def topmost? (table : Frame → Std.TreeMap κ ν) (frames : List Frame) (key : κ) : Option ν :=
  frames.findSome? fun frame => (table frame)[key]?

/-- In a new frame nothing is set. -/
theorem Once.push
    {frames : List Frame}
    (unset : table Frame.empty = ∅)
    (once : Once table frames) :
    Once table (Frame.empty :: frames) := by
  refine List.Pairwise.cons ?_ once
  intro lower _ key member
  rw [unset] at member
  exact absurd member Std.TreeMap.not_mem_emptyc

/-- Frames that are merged set no key twice if they did not before. -/
theorem Once.merge
    [Std.TransOrd κ]
    {top parent : Frame}
    {rest : List Frame}
    (absorbed : table (parent.absorb top) = table parent ∪ table top)
    (once : Once table (top :: parent :: rest)) :
    Once table (parent.absorb top :: rest) := by
  obtain ⟨topOnce, parentOnce, restOnce⟩ :
      (∀ lower ∈ parent :: rest, ∀ key, key ∈ table top → key ∉ table lower) ∧
        (∀ lower ∈ rest, ∀ key, key ∈ table parent → key ∉ table lower) ∧
          Once table rest := by
    simpa only [Once, List.pairwise_cons] using once
  refine List.Pairwise.cons ?_ restOnce
  intro lower isLower key member
  rw [absorbed, Std.TreeMap.mem_union_iff] at member
  rcases member with inParent | inTop
  · exact parentOnce lower isLower key inParent
  · exact topOnce lower (List.mem_cons_of_mem _ isLower) key inTop

/-- An entry that no frame has may be written to the top frame. -/
theorem Once.insert
    [Std.TransOrd κ] [Std.LawfulEqOrd κ]
    {top changed : Frame}
    {rest : List Frame}
    {key : κ}
    {value : ν}
    (written : table changed = (table top).insert key value)
    (unset : topmost? table (top :: rest) key = none)
    (once : Once table (top :: rest)) :
    Once table (changed :: rest) := by
  obtain ⟨topOnce, restOnce⟩ := List.pairwise_cons.mp once
  refine List.Pairwise.cons ?_ restOnce
  intro lower isLower other member
  rw [written, Std.TreeMap.mem_insert] at member
  rcases member with same | inTop
  · cases Std.LawfulEqOrd.eq_of_compare same
    have absent := List.findSome?_eq_none_iff.mp unset lower (List.mem_cons_of_mem _ isLower)
    intro present
    rw [Std.TreeMap.mem_iff_isSome_getElem?, absent] at present
    contradiction
  · exact topOnce lower isLower other inTop

/-- What the lower frames say, all frames say. -/
theorem Once.topmost?_of_suffix
    [Std.TransOrd κ]
    {lower frames : List Frame}
    {key : κ}
    {value : ν}
    (once : Once table frames)
    (isSuffix : lower <:+ frames)
    (found : topmost? table lower key = some value) :
    topmost? table frames key = some value := by
  obtain ⟨upper, rfl⟩ := isSuffix
  obtain ⟨frame, isLower, isEntry⟩ := List.exists_of_findSome?_eq_some found
  have present : key ∈ table frame := by
    rw [Std.TreeMap.mem_iff_isSome_getElem?, isEntry]
    rfl
  have unset : topmost? table upper key = none := by
    refine List.findSome?_eq_none_iff.mpr fun other isUpper => ?_
    have apart := (List.pairwise_append.mp once).2.2 other isUpper frame isLower key
    refine Std.TreeMap.getElem?_eq_none fun inUpper => ?_
    exact apart inUpper present
  rw [topmost?, List.findSome?_append]
  simp only [topmost?] at unset found
  rw [unset, found]
  rfl

/-- The values of all entries, with repetitions. -/
def values (table : Frame → Std.TreeMap κ ν) (frames : List Frame) : List ν :=
  frames.flatMap fun frame => (table frame).toList.map Prod.snd

/-- What is found for a key is among the values. -/
theorem mem_values
    [Std.TransOrd κ] [Std.LawfulEqOrd κ]
    {frames : List Frame}
    {key : κ}
    {value : ν}
    (found : topmost? table frames key = some value) :
    value ∈ values table frames := by
  obtain ⟨frame, isFrame, isEntry⟩ := List.exists_of_findSome?_eq_some found
  refine List.mem_flatMap.mpr ⟨frame, isFrame, List.mem_map.mpr ⟨(key, value), ?_, rfl⟩⟩
  exact Std.TreeMap.mem_toList_iff_getElem?_eq_some.mpr isEntry

/-- Where no key has two entries, every entry is what is read for its key. -/
theorem Once.exists_of_mem_values
    [Std.TransOrd κ] [Std.LawfulEqOrd κ]
    {frames : List Frame}
    {value : ν}
    (once : Once table frames)
    (listed : value ∈ values table frames) :
    ∃ key, topmost? table frames key = some value := by
  obtain ⟨frame, isFrame, inFrame⟩ := List.mem_flatMap.mp listed
  obtain ⟨⟨key, _⟩, isEntry, rfl⟩ := List.mem_map.mp inFrame
  obtain ⟨upper, lower, rfl⟩ := List.append_of_mem isFrame
  refine ⟨key, once.topmost?_of_suffix (List.suffix_append upper _) ?_⟩
  have found := Std.TreeMap.mem_toList_iff_getElem?_eq_some.mp isEntry
  rw [topmost?, List.findSome?_cons, found]

/-- There are as many values as all frames have entries. -/
theorem length_values (table : Frame → Std.TreeMap κ ν) (frames : List Frame) :
    (values table frames).length =
      frames.foldl (fun count frame => count + (table frame).size) 0 := by
  have general (start : Nat) :
      frames.foldl (fun count frame => count + (table frame).size) start =
        start + (values table frames).length := by
    induction frames generalizing start with
    | nil => rfl
    | cons frame rest inductionHypothesis =>
        rw [List.foldl_cons, inductionHypothesis]
        simp only [values, List.flatMap_cons, List.length_append, List.length_map,
          Std.TreeMap.length_toList]
        omega
  rw [general 0, Nat.zero_add]

end Once

end Frame

/-- The empty stack binds no placeholder. -/
@[simp] theorem FrameStack.placeholder?_empty (id : PlaceholderId) :
    FrameStack.empty.placeholder? id = none := by
  simp [placeholder?, read, frames, empty, Frame.empty]

/-- The empty stack binds no length variable. -/
@[simp] theorem FrameStack.length?_empty (id : LengthId) :
    FrameStack.empty.length? id = none := by
  simp [length?, read, frames, empty, Frame.empty]

/-- No variable is bound twice or to something that contains it. -/
structure FrameStack.Consistent (stack : FrameStack) : Prop where
  placeholdersOnce : Frame.Once Frame.placeholders stack.frames
  lengthsOnce : Frame.Once Frame.lengths stack.frames
  placeholdersAcyclic : Table.Acyclic stack.placeholder? Ty.Mentions
  lengthsAcyclic : Table.Acyclic stack.length? Length.Mentions

namespace FrameStack.Consistent

variable {stack : FrameStack}

/-- The empty stack is consistent. -/
theorem empty : FrameStack.empty.Consistent where
  placeholdersOnce := List.pairwise_singleton _ _
  lengthsOnce := List.pairwise_singleton _ _
  placeholdersAcyclic := .of_final fun _ _ => placeholder?_empty _
  lengthsAcyclic := .of_final fun _ _ => length?_empty _

/-- A new frame binds nothing. -/
theorem push (consistent : stack.Consistent) : stack.push.Consistent where
  placeholdersOnce := consistent.placeholdersOnce.push rfl
  lengthsOnce := consistent.lengthsOnce.push rfl
  placeholdersAcyclic :=
    consistent.placeholdersAcyclic.of_le fun found => by rwa [placeholder?_push] at found
  lengthsAcyclic :=
    consistent.lengthsAcyclic.of_le fun found => by rwa [length?_push] at found

/-- A commit moves bindings down, of which there is one for each variable. -/
theorem commit
    {merged : FrameStack}
    (consistent : stack.Consistent)
    (committed : stack.commit? = some merged) :
    merged.Consistent := by
  have samePlaceholder := placeholder?_commit committed
  have sameLength := length?_commit committed
  obtain ⟨placeholdersOnce, lengthsOnce, placeholdersAcyclic, lengthsAcyclic⟩ := consistent
  cases below : stack.below with
  | nil =>
      simp [commit?, below] at committed
  | cons parent rest =>
      simp only [commit?, below, Option.some.injEq] at committed
      simp only [frames, below] at placeholdersOnce lengthsOnce
      refine ⟨?_, ?_, placeholdersAcyclic.of_le fun found => ?_,
        lengthsAcyclic.of_le fun found => ?_⟩
      · rw [← committed]
        exact placeholdersOnce.merge rfl
      · rw [← committed]
        exact lengthsOnce.merge rfl
      · rwa [samePlaceholder] at found
      · rwa [sameLength] at found

/-- The lower frames of a stack, taken for themselves, are consistent. -/
theorem of_suffix
    {lower : FrameStack}
    (consistent : stack.Consistent)
    (isSuffix : lower.frames <:+ stack.frames) :
    lower.Consistent where
  placeholdersOnce := consistent.placeholdersOnce.sublist isSuffix.sublist
  lengthsOnce := consistent.lengthsOnce.sublist isSuffix.sublist
  placeholdersAcyclic :=
    consistent.placeholdersAcyclic.of_le
      (consistent.placeholdersOnce.topmost?_of_suffix isSuffix)
  lengthsAcyclic :=
    consistent.lengthsAcyclic.of_le (consistent.lengthsOnce.topmost?_of_suffix isSuffix)

/-- An abort drops bindings. -/
theorem abort
    {restored : FrameStack}
    (consistent : stack.Consistent)
    (aborted : stack.abort? = some restored) :
    restored.Consistent := by
  cases below : stack.below with
  | nil =>
      simp [abort?, below] at aborted
  | cons parent rest =>
      simp only [abort?, below, Option.some.injEq] at aborted
      refine consistent.of_suffix ?_
      rw [← aborted, frames, frames, below]
      exact List.suffix_cons _ _

/-- Commit and abort both keep bindings consistent. -/
theorem finish
    (consistent : stack.Consistent)
    (keep : Bool) :
    (stack.finish keep).Consistent :=
  finish_induction consistent consistent.commit consistent.abort keep

/-- A write that leaves the bindings alone keeps them consistent. -/
theorem write
    {change : Frame → Frame}
    (consistent : stack.Consistent)
    (keepsPlaceholders : (change stack.top).placeholders = stack.top.placeholders)
    (keepsLengths : (change stack.top).lengths = stack.top.lengths) :
    (stack.write change).Consistent := by
  obtain ⟨placeholdersOnce, lengthsOnce, placeholdersAcyclic, lengthsAcyclic⟩ := consistent
  refine ⟨?_, ?_, placeholdersAcyclic.of_le fun found => ?_,
    lengthsAcyclic.of_le fun found => ?_⟩
  · simpa only [Frame.Once, frames, FrameStack.write, List.pairwise_cons,
      keepsPlaceholders] using placeholdersOnce
  · simpa only [Frame.Once, frames, FrameStack.write, List.pairwise_cons,
      keepsLengths] using lengthsOnce
  · rwa [placeholder?, read_write_of_eq (by rw [keepsPlaceholders])] at found
  · rwa [length?, read_write_of_eq (by rw [keepsLengths])] at found

/-- Marking a length variable as quantified binds nothing. -/
theorem markGeneric
    (consistent : stack.Consistent)
    (id : LengthId) :
    (stack.markGeneric id).Consistent := by
  unfold FrameStack.markGeneric
  exact consistent.write rfl rfl

/-- Recording the type of an expression binds nothing. -/
theorem recordInferred
    (consistent : stack.Consistent)
    (id : ExprId)
    (ty : Ty) :
    (stack.recordInferred id ty).Consistent := by
  unfold FrameStack.recordInferred
  exact consistent.write rfl rfl

/-- Recording the type of a parameter binds nothing. -/
theorem recordParameter
    (consistent : stack.Consistent)
    (function : ExprId)
    (position : Nat)
    (ty : Ty) :
    (stack.recordParameter function position ty).Consistent := by
  unfold FrameStack.recordParameter
  exact consistent.write rfl rfl

/-- An unbound placeholder may be bound to a type that does not lead to it. -/
theorem bindPlaceholder
    {id : PlaceholderId}
    {ty : Ty}
    (consistent : stack.Consistent)
    (unbound : stack.placeholder? id = none)
    (noReturn :
      ∀ {mentioned},
        ty.Mentions mentioned →
        ¬ Relation.ReflTransGen
          (Table.Leads stack.placeholder? Ty.Mentions) mentioned id) :
    (stack.bindPlaceholder id ty).Consistent := by
  obtain ⟨placeholdersOnce, lengthsOnce, placeholdersAcyclic, lengthsAcyclic⟩ := consistent
  refine ⟨placeholdersOnce.insert rfl unbound, ?_, ?_, lengthsAcyclic.of_le fun found => ?_⟩
  · simpa only [Frame.Once, frames, FrameStack.bindPlaceholder, FrameStack.write,
      List.pairwise_cons] using lengthsOnce
  · refine placeholdersAcyclic.of_new (· = id) ty.Mentions ?_ ?_
    · rintro source target ⟨value, found, isMentioned⟩
      rw [placeholder?_bindPlaceholder] at found
      split at found
      · rename_i isNew
        cases found
        exact Or.inr ⟨isNew, isMentioned⟩
      · exact Or.inl ⟨value, found, isMentioned⟩
    · rintro mentioned key isMentioned rfl
      exact noReturn isMentioned
  · rwa [FrameStack.bindPlaceholder, length?, read_write_of_eq rfl] at found

/-- An unbound length variable may be bound to another length that is not bound. -/
theorem bindLength
    {id : LengthId}
    {length : Length}
    (consistent : stack.Consistent)
    (unbound : stack.length? id = none)
    (different : length ≠ .var id)
    (final : ∀ other, length = .var other → stack.length? other = none) :
    (stack.bindLength id length).Consistent := by
  obtain ⟨placeholdersOnce, lengthsOnce, placeholdersAcyclic, lengthsAcyclic⟩ := consistent
  refine ⟨?_, lengthsOnce.insert rfl unbound, placeholdersAcyclic.of_le fun found => ?_, ?_⟩
  · simpa only [Frame.Once, frames, FrameStack.bindLength, FrameStack.write,
      List.pairwise_cons] using placeholdersOnce
  · rwa [FrameStack.bindLength, placeholder?, read_write_of_eq rfl] at found
  · refine lengthsAcyclic.of_new (· = id) length.Mentions ?_ ?_
    · rintro source target ⟨value, found, isMentioned⟩
      rw [length?_bindLength] at found
      split at found
      · rename_i isNew
        cases found
        exact Or.inr ⟨isNew, isMentioned⟩
      · exact Or.inl ⟨value, found, isMentioned⟩
    · rintro mentioned key isMentioned rfl path
      -- The length that is bound leads nowhere, so the path is empty.
      rcases Relation.ReflTransGen.cases_head path with same | ⟨_, ⟨value, found, _⟩, _⟩
      · exact different (same ▸ isMentioned)
      · rw [final mentioned isMentioned] at found
        contradiction

end FrameStack.Consistent

end ShaderTyping
