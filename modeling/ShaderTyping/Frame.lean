import Std.Data.TreeMap
import Std.Data.TreeSet
import ShaderTyping.Site
import ShaderTyping.Ty.Basic

namespace ShaderTyping

/-!
# Binding frames

A `Frame` records what inference finds out: bindings of placeholders and length
variables, quantified length variables, types of expressions and of function
parameters.

Frames are stacked.  Reading looks at the top frame first and then at the frames
below it; writing changes the top frame only.  Committing merges the top frame
into the one below, aborting forgets it.  The lowest frame can be neither
committed nor aborted.
-/

/-- A parameter of a function value: the function and the position. -/
@[ext] structure ParameterKey where
  function : ExprId
  position : Nat
  deriving Repr, DecidableEq

instance : Ord ParameterKey where
  compare := compareLex (compareOn ParameterKey.function) (compareOn ParameterKey.position)

instance : Std.TransOrd ParameterKey :=
  inferInstanceAs (Std.TransCmp
    (compareLex (compareOn ParameterKey.function) (compareOn ParameterKey.position)))

instance : Std.LawfulEqOrd ParameterKey where
  eq_of_compare same :=
    have ⟨sameFunction, samePosition⟩ := Ordering.then_eq_eq.mp same
    ParameterKey.ext
      (Std.LawfulEqOrd.eq_of_compare sameFunction)
      (Std.LawfulEqOrd.eq_of_compare samePosition)

/-- Identities compare equal exactly when they are the same. -/
theorem compare_beq_eq [Ord α] [Std.LawfulEqOrd α] [DecidableEq α] (first second : α) :
    (compare first second == Ordering.eq) = decide (second = first) := by
  rw [Bool.eq_iff_iff, beq_iff_eq, decide_eq_true_iff,
    Std.LawfulEqOrd.compare_eq_iff_eq, eq_comm]

/-- One layer of findings. -/
structure Frame where
  placeholders : Std.TreeMap PlaceholderId Ty
  lengths : Std.TreeMap LengthId Length
  genericLengths : Std.TreeSet LengthId
  inferred : Std.TreeMap ExprId Ty
  parameters : Std.TreeMap ParameterKey Ty
  deriving Repr

namespace Frame

/-- The frame without findings. -/
def empty : Frame where
  placeholders := ∅
  lengths := ∅
  genericLengths := ∅
  inferred := ∅
  parameters := ∅

/-- The findings of a frame and of a later one, which counts where both have some. -/
def absorb (frame later : Frame) : Frame where
  placeholders := frame.placeholders ∪ later.placeholders
  lengths := frame.lengths ∪ later.lengths
  genericLengths := frame.genericLengths ∪ later.genericLengths
  inferred := frame.inferred ∪ later.inferred
  parameters := frame.parameters ∪ later.parameters

end Frame

/-- The frame that is written to and the frames below it, nearest first. -/
structure FrameStack where
  top : Frame
  below : List Frame
  deriving Repr

namespace FrameStack

/-- The stack of one empty frame. -/
def empty : FrameStack where
  top := Frame.empty
  below := []

/-- The frames from the top down. -/
def frames (stack : FrameStack) : List Frame :=
  stack.top :: stack.below

/-- The number of transactions that are open. -/
def depth (stack : FrameStack) : Nat :=
  stack.below.length

/-- Open a transaction. -/
def push (stack : FrameStack) : FrameStack where
  top := Frame.empty
  below := stack.frames

/-- Keep the findings of the latest transaction. -/
def commit? (stack : FrameStack) : Option FrameStack :=
  match stack.below with
  | [] => none
  | parent :: rest => some { top := parent.absorb stack.top, below := rest }

/-- Forget the findings of the latest transaction. -/
def abort? (stack : FrameStack) : Option FrameStack :=
  match stack.below with
  | [] => none
  | parent :: rest => some { top := parent, below := rest }

/-- End the latest transaction; the only frame of a stack stays. -/
def finish (keep : Bool) (stack : FrameStack) : FrameStack :=
  (if keep then stack.commit? else stack.abort?).getD stack

/-- Change the top frame. -/
def write (change : Frame → Frame) (stack : FrameStack) : FrameStack :=
  { stack with top := change stack.top }

/-- What the topmost frame that says anything says. -/
def read (entry : Frame → Option α) (stack : FrameStack) : Option α :=
  stack.frames.findSome? entry

/-- What a placeholder is bound to. -/
def placeholder? (stack : FrameStack) (id : PlaceholderId) : Option Ty :=
  stack.read fun frame => frame.placeholders[id]?

/-- What a length variable is bound to. -/
def length? (stack : FrameStack) (id : LengthId) : Option Length :=
  stack.read fun frame => frame.lengths[id]?

/-- Whether a length variable is quantified. -/
def isGeneric (stack : FrameStack) (id : LengthId) : Bool :=
  stack.frames.any fun frame => frame.genericLengths.contains id

/-- The type that was inferred for an expression. -/
def inferred? (stack : FrameStack) (id : ExprId) : Option Ty :=
  stack.read fun frame => frame.inferred[id]?

/-- The type of the parameter at a position of a function value. -/
def parameter? (stack : FrameStack) (function : ExprId) (position : Nat) : Option Ty :=
  stack.read fun frame => frame.parameters[ParameterKey.mk function position]?

/-- Bind a placeholder. -/
def bindPlaceholder (id : PlaceholderId) (ty : Ty) (stack : FrameStack) : FrameStack :=
  stack.write fun frame =>
    { frame with placeholders := frame.placeholders.insert id ty }

/-- Bind a length variable. -/
def bindLength (id : LengthId) (length : Length) (stack : FrameStack) : FrameStack :=
  stack.write fun frame =>
    { frame with lengths := frame.lengths.insert id length }

/-- Quantify a length variable. -/
def markGeneric (id : LengthId) (stack : FrameStack) : FrameStack :=
  stack.write fun frame =>
    { frame with genericLengths := frame.genericLengths.insert id }

/-- Record the type of an expression. -/
def recordInferred (id : ExprId) (ty : Ty) (stack : FrameStack) : FrameStack :=
  stack.write fun frame =>
    { frame with inferred := frame.inferred.insert id ty }

/-- Record the type of a parameter. -/
def recordParameter (function : ExprId) (position : Nat) (ty : Ty)
    (stack : FrameStack) : FrameStack :=
  stack.write fun frame =>
    { frame with
      parameters := frame.parameters.insert ⟨function, position⟩ ty }

/-- The number of bindings of placeholders in all frames. -/
def bindingCount (stack : FrameStack) : Nat :=
  stack.frames.foldl (fun count frame => count + frame.placeholders.size) 0

/-- The number of bindings of length variables in all frames. -/
def lengthBindingCount (stack : FrameStack) : Nat :=
  stack.frames.foldl (fun count frame => count + frame.lengths.size) 0

/-- The types that placeholders are bound to in all frames. -/
def boundTypes (stack : FrameStack) : List Ty :=
  stack.frames.flatMap fun frame => frame.placeholders.toList.map Prod.snd

/-! ## What is read after an operation -/

/-- A transaction that is aborted at once leaves no trace. -/
@[simp] theorem abort?_push (stack : FrameStack) : stack.push.abort? = some stack :=
  rfl

/-- Whatever was written in a transaction is forgotten when it is aborted. -/
@[simp] theorem abort?_write (change : Frame → Frame) (stack : FrameStack) :
    (stack.write change).abort? = stack.abort? := by
  cases below : stack.below <;> simp [abort?, write, below]

/-- A transaction that is kept is committed, if one is open. -/
theorem finish_true_cases (stack : FrameStack) :
    stack.finish true = stack ∨ stack.commit? = some (stack.finish true) := by
  cases committed : stack.commit? with
  | none => exact Or.inl (by simp [finish, committed])
  | some merged => exact Or.inr (by simp [finish, committed])

/-- A transaction that is not kept is aborted, if one is open. -/
theorem finish_false_cases (stack : FrameStack) :
    stack.finish false = stack ∨ stack.abort? = some (stack.finish false) := by
  cases aborted : stack.abort? with
  | none => exact Or.inl (by simp [finish, aborted])
  | some restored => exact Or.inr (by simp [finish, aborted])

/-- The end of a transaction takes one frame away. -/
theorem below_finish (keep : Bool) (stack : FrameStack) :
    (stack.finish keep).below = stack.below.tail := by
  cases below : stack.below <;> cases keep <;> simp [finish, commit?, abort?, below]

/-- What a commit and an abort keep, the end of a transaction keeps. -/
theorem finish_induction
    {motive : FrameStack → Prop}
    {stack : FrameStack}
    (refused : motive stack)
    (committed : ∀ {merged}, stack.commit? = some merged → motive merged)
    (aborted : ∀ {restored}, stack.abort? = some restored → motive restored)
    (keep : Bool) :
    motive (stack.finish keep) := by
  cases keep with
  | true =>
      rcases stack.finish_true_cases with same | isCommit
      · rwa [same]
      · exact committed isCommit
  | false =>
      rcases stack.finish_false_cases with same | isAbort
      · rwa [same]
      · exact aborted isAbort

/-- A new transaction shows what was known before. -/
theorem read_push
    {entry : Frame → Option α}
    (unset : entry Frame.empty = none)
    (stack : FrameStack) :
    stack.push.read entry = stack.read entry := by
  simp [read, push, frames, unset]

/-- Committing changes nothing that can be read. -/
theorem read_commit
    {entry : Frame → Option α}
    (absorbed : ∀ frame later, entry (frame.absorb later) = (entry later).or (entry frame))
    {stack merged : FrameStack}
    (committed : stack.commit? = some merged) :
    merged.read entry = stack.read entry := by
  cases below : stack.below with
  | nil =>
      simp [commit?, below] at committed
  | cons parent rest =>
      simp only [commit?, below, Option.some.injEq] at committed
      subst committed
      simp only [read, frames, below, List.findSome?_cons, absorbed]
      cases entry stack.top <;> simp

/-- A transaction that is kept changes nothing that can be read. -/
theorem read_finish_true
    {entry : Frame → Option α}
    (absorbed : ∀ frame later, entry (frame.absorb later) = (entry later).or (entry frame))
    (stack : FrameStack) :
    (stack.finish true).read entry = stack.read entry := by
  rcases stack.finish_true_cases with same | committed
  · rw [same]
  · exact read_commit absorbed committed

/-- A write that an entry of the top frame does not notice changes no reading of it. -/
theorem read_write_of_eq
    {entry : Frame → Option α}
    {change : Frame → Frame}
    {stack : FrameStack}
    (kept : entry (change stack.top) = entry stack.top) :
    (stack.write change).read entry = stack.read entry := by
  simp only [read, write, frames, List.findSome?_cons, kept]

/-- What a write puts into the top frame is what is read. -/
theorem read_write_of_eq_some
    {entry : Frame → Option α}
    {change : Frame → Frame}
    {stack : FrameStack}
    {value : α}
    (written : entry (change stack.top) = some value) :
    (stack.write change).read entry = some value := by
  simp only [read, write, frames, List.findSome?_cons, written]

/-- A new frame shows the bindings of placeholders below it. -/
@[simp] theorem placeholder?_push (stack : FrameStack) (id : PlaceholderId) :
    stack.push.placeholder? id = stack.placeholder? id :=
  read_push (by simp [Frame.empty]) stack

/-- A new frame shows the bindings of lengths below it. -/
@[simp] theorem length?_push (stack : FrameStack) (id : LengthId) :
    stack.push.length? id = stack.length? id :=
  read_push (by simp [Frame.empty]) stack

/-- A new frame shows the types of expressions below it. -/
@[simp] theorem inferred?_push (stack : FrameStack) (id : ExprId) :
    stack.push.inferred? id = stack.inferred? id :=
  read_push (by simp [Frame.empty]) stack

/-- A new frame shows the types of parameters below it. -/
@[simp] theorem parameter?_push (stack : FrameStack) (function : ExprId) (position : Nat) :
    stack.push.parameter? function position = stack.parameter? function position :=
  read_push (by simp [Frame.empty]) stack

/-- A commit changes no binding of a placeholder. -/
theorem placeholder?_commit
    {stack merged : FrameStack}
    (committed : stack.commit? = some merged)
    (id : PlaceholderId) :
    merged.placeholder? id = stack.placeholder? id :=
  read_commit (fun _ _ => Std.TreeMap.getElem?_union) committed

/-- A commit changes no binding of a length. -/
theorem length?_commit
    {stack merged : FrameStack}
    (committed : stack.commit? = some merged)
    (id : LengthId) :
    merged.length? id = stack.length? id :=
  read_commit (fun _ _ => Std.TreeMap.getElem?_union) committed

/-- A commit changes no type of an expression. -/
theorem inferred?_commit
    {stack merged : FrameStack}
    (committed : stack.commit? = some merged)
    (id : ExprId) :
    merged.inferred? id = stack.inferred? id :=
  read_commit (fun _ _ => Std.TreeMap.getElem?_union) committed

/-- A commit changes no type of a parameter. -/
theorem parameter?_commit
    {stack merged : FrameStack}
    (committed : stack.commit? = some merged)
    (function : ExprId)
    (position : Nat) :
    merged.parameter? function position = stack.parameter? function position :=
  read_commit (fun _ _ => Std.TreeMap.getElem?_union) committed

@[simp] theorem placeholder?_finish_true (stack : FrameStack) (id : PlaceholderId) :
    (stack.finish true).placeholder? id = stack.placeholder? id :=
  read_finish_true (fun _ _ => Std.TreeMap.getElem?_union) stack

@[simp] theorem length?_finish_true (stack : FrameStack) (id : LengthId) :
    (stack.finish true).length? id = stack.length? id :=
  read_finish_true (fun _ _ => Std.TreeMap.getElem?_union) stack

@[simp] theorem inferred?_finish_true (stack : FrameStack) (id : ExprId) :
    (stack.finish true).inferred? id = stack.inferred? id :=
  read_finish_true (fun _ _ => Std.TreeMap.getElem?_union) stack

@[simp] theorem parameter?_finish_true (stack : FrameStack) (function : ExprId) (position : Nat) :
    (stack.finish true).parameter? function position = stack.parameter? function position :=
  read_finish_true (fun _ _ => Std.TreeMap.getElem?_union) stack

/-- A bound placeholder has its latest binding; the others keep theirs. -/
theorem placeholder?_bindPlaceholder
    (id : PlaceholderId)
    (ty : Ty)
    (stack : FrameStack)
    (other : PlaceholderId) :
    (stack.bindPlaceholder id ty).placeholder? other =
      if other = id then some ty else stack.placeholder? other := by
  by_cases same : other = id
  · rw [if_pos same]
    exact read_write_of_eq_some (by simp [same])
  · rw [if_neg same]
    exact read_write_of_eq (by simp [Std.TreeMap.getElem?_insert, Ne.symm same])

/-- A bound length variable has its latest binding; the others keep theirs. -/
theorem length?_bindLength
    (id : LengthId)
    (length : Length)
    (stack : FrameStack)
    (other : LengthId) :
    (stack.bindLength id length).length? other =
      if other = id then some length else stack.length? other := by
  by_cases same : other = id
  · rw [if_pos same]
    exact read_write_of_eq_some (by simp [same])
  · rw [if_neg same]
    exact read_write_of_eq (by simp [Std.TreeMap.getElem?_insert, Ne.symm same])

/-- An expression has the type recorded last; the others keep theirs. -/
theorem inferred?_recordInferred
    (id : ExprId)
    (ty : Ty)
    (stack : FrameStack)
    (other : ExprId) :
    (stack.recordInferred id ty).inferred? other =
      if other = id then some ty else stack.inferred? other := by
  by_cases same : other = id
  · rw [if_pos same]
    exact read_write_of_eq_some (by simp [same])
  · rw [if_neg same]
    exact read_write_of_eq (by simp [Std.TreeMap.getElem?_insert, Ne.symm same])

/-- A parameter has the type recorded last; the others keep theirs. -/
theorem parameter?_recordParameter
    (function : ExprId)
    (position : Nat)
    (ty : Ty)
    (stack : FrameStack)
    (otherFunction : ExprId)
    (otherPosition : Nat) :
    (stack.recordParameter function position ty).parameter? otherFunction otherPosition =
      if ParameterKey.mk otherFunction otherPosition = ⟨function, position⟩ then
        some ty
      else
        stack.parameter? otherFunction otherPosition := by
  by_cases same : ParameterKey.mk otherFunction otherPosition = ⟨function, position⟩
  · rw [if_pos same]
    exact read_write_of_eq_some (by rw [same]; simp)
  · rw [if_neg same]
    refine read_write_of_eq ?_
    rw [Std.TreeMap.getElem?_insert, if_neg]
    exact fun equal => same (Std.LawfulEqOrd.eq_of_compare equal).symm

/-- A length variable is quantified if it was marked, or was quantified before. -/
@[simp] theorem isGeneric_markGeneric
    (id : LengthId)
    (stack : FrameStack)
    (other : LengthId) :
    (stack.markGeneric id).isGeneric other =
      (decide (other = id) || stack.isGeneric other) := by
  simp [isGeneric, markGeneric, write, frames, compare_beq_eq, Bool.or_assoc]

end FrameStack

end ShaderTyping
