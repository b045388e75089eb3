import Mathlib.Logic.Function.Basic
import ShaderTyping.Frame

namespace ShaderTyping

/-!
# Frames as snapshots

A stack of frames is read as if each of its levels held everything that is known
there.  This module states that as a refinement: a `SnapshotStack` is a stack of
full copies, in which a transaction starts from a copy of the top, a commit puts
the top in place of the copy below it, and an abort drops the top.  Whatever
sequence of operations is performed, the frames show what the top copy holds and
refuse what the copies refuse.
-/

/-- All that can be read from a stack of frames. -/
@[ext] structure Snapshot where
  placeholder? : PlaceholderId → Option Ty
  length? : LengthId → Option Length
  isGeneric : LengthId → Bool
  inferred? : ExprId → Option Ty
  parameter? : ParameterKey → Option Ty

namespace Snapshot

/-- Nothing is known. -/
def empty : Snapshot where
  placeholder? _ := none
  length? _ := none
  isGeneric _ := false
  inferred? _ := none
  parameter? _ := none

end Snapshot

/-- A finding that is written to the top frame. -/
inductive Finding where
  | placeholder (id : PlaceholderId) (ty : Ty)
  | length (id : LengthId) (length : Length)
  | generic (id : LengthId)
  | inferred (id : ExprId) (ty : Ty)
  | parameter (function : ExprId) (position : Nat) (ty : Ty)

namespace Finding

/-- Write a finding to a stack of frames. -/
def writeTo : Finding → FrameStack → FrameStack
  | .placeholder id ty, stack => stack.bindPlaceholder id ty
  | .length id bound, stack => stack.bindLength id bound
  | .generic id, stack => stack.markGeneric id
  | .inferred id ty, stack => stack.recordInferred id ty
  | .parameter function position ty, stack => stack.recordParameter function position ty

/-- Add a finding to a snapshot. -/
def addTo : Finding → Snapshot → Snapshot
  | .placeholder id ty, snapshot =>
      { snapshot with placeholder? := Function.update snapshot.placeholder? id (some ty) }
  | .length id bound, snapshot =>
      { snapshot with length? := Function.update snapshot.length? id (some bound) }
  | .generic id, snapshot =>
      { snapshot with isGeneric := Function.update snapshot.isGeneric id true }
  | .inferred id ty, snapshot =>
      { snapshot with inferred? := Function.update snapshot.inferred? id (some ty) }
  | .parameter function position ty, snapshot =>
      { snapshot with
        parameter? := Function.update snapshot.parameter? ⟨function, position⟩ (some ty) }

end Finding

/-- An operation on a stack. -/
inductive StackOperation where
  | push
  | commit
  | abort
  | write (finding : Finding)

/-! ## The reference machine -/

/-- Full copies of what is known, from the top down. -/
structure SnapshotStack where
  top : Snapshot
  below : List Snapshot

namespace SnapshotStack

/-- One copy in which nothing is known. -/
def empty : SnapshotStack where
  top := Snapshot.empty
  below := []

/-- The copies after an operation, unless it is refused. -/
def perform? (stack : SnapshotStack) : StackOperation → Option SnapshotStack
  | .push => some { top := stack.top, below := stack.top :: stack.below }
  | .commit =>
      match stack.below with
      | [] => none
      | _ :: rest => some { top := stack.top, below := rest }
  | .abort =>
      match stack.below with
      | [] => none
      | parent :: rest => some { top := parent, below := rest }
  | .write finding => some { stack with top := finding.addTo stack.top }

/-- The copies after some operations; refused ones change nothing. -/
def performAll (operations : List StackOperation) (stack : SnapshotStack) : SnapshotStack :=
  operations.foldl (fun stack operation => (stack.perform? operation).getD stack) stack

end SnapshotStack

namespace FrameStack

/-- The frames after an operation, unless it is refused. -/
def perform? (stack : FrameStack) : StackOperation → Option FrameStack
  | .push => some stack.push
  | .commit => stack.commit?
  | .abort => stack.abort?
  | .write finding => some (finding.writeTo stack)

/-- The frames after some operations; refused ones change nothing. -/
def performAll (operations : List StackOperation) (stack : FrameStack) : FrameStack :=
  operations.foldl (fun stack operation => (stack.perform? operation).getD stack) stack

/-! ## What a stack of frames shows -/

/-- All that is read from a stack of frames. -/
def snapshot (stack : FrameStack) : Snapshot where
  placeholder? := stack.placeholder?
  length? := stack.length?
  isGeneric := stack.isGeneric
  inferred? := stack.inferred?
  parameter? key := stack.parameter? key.function key.position

/-- What frames show together with the frames below each of them. -/
def snapshotsOf : List Frame → List Snapshot
  | [] => []
  | frame :: rest => snapshot { top := frame, below := rest } :: snapshotsOf rest

/-- What every level of a stack of frames shows. -/
def snapshots (stack : FrameStack) : SnapshotStack where
  top := stack.snapshot
  below := snapshotsOf stack.below

/-- Nothing is known in the empty stack. -/
theorem snapshot_empty : empty.snapshot = Snapshot.empty := by
  ext key <;>
    simp [snapshot, Snapshot.empty, placeholder?, length?, isGeneric, inferred?, parameter?,
      read, frames, empty, Frame.empty]

/-- The empty stack has one empty snapshot. -/
theorem snapshots_empty : empty.snapshots = SnapshotStack.empty := by
  rw [snapshots, snapshot_empty]
  rfl

/-- A new frame shows what is known below it. -/
theorem snapshot_push (stack : FrameStack) : stack.push.snapshot = stack.snapshot := by
  refine Snapshot.ext ?_ ?_ ?_ ?_ ?_
  · exact funext stack.placeholder?_push
  · exact funext stack.length?_push
  · exact funext fun id => by simp [snapshot, isGeneric, push, frames, Frame.empty]
  · exact funext stack.inferred?_push
  · exact funext fun key => stack.parameter?_push key.function key.position

/-- Committing shows nothing new and hides nothing. -/
theorem snapshot_commit
    {stack merged : FrameStack}
    (committed : stack.commit? = some merged) :
    merged.snapshot = stack.snapshot := by
  refine Snapshot.ext ?_ ?_ ?_ ?_ ?_
  · exact funext (placeholder?_commit committed)
  · exact funext (length?_commit committed)
  · funext id
    cases below : stack.below with
    | nil =>
        simp [commit?, below] at committed
    | cons parent rest =>
        simp only [commit?, below, Option.some.injEq] at committed
        subst committed
        simp only [snapshot, isGeneric, frames, below, List.any_cons, Frame.absorb,
          Std.TreeSet.contains_union]
        rw [← Bool.or_assoc, Bool.or_comm (stack.top.genericLengths.contains id)]
  · exact funext (inferred?_commit committed)
  · exact funext fun key => parameter?_commit committed key.function key.position

/-- After a commit the same is known as before. -/
theorem snapshot_finish_true (stack : FrameStack) :
    (stack.finish true).snapshot = stack.snapshot := by
  rcases stack.finish_true_cases with same | committed
  · rw [same]
  · exact snapshot_commit committed

/-- A finding changes what is read for its own key only. -/
theorem snapshot_writeTo (finding : Finding) (stack : FrameStack) :
    (finding.writeTo stack).snapshot = finding.addTo stack.snapshot := by
  cases finding with
  | placeholder id ty =>
      simp only [Finding.writeTo, Finding.addTo, snapshot, Snapshot.mk.injEq]
      refine ⟨funext fun other => ?_, ?_, rfl, ?_, ?_⟩
      · rw [placeholder?_bindPlaceholder, Function.update_apply]
      · exact funext fun _ => read_write_of_eq rfl
      · exact funext fun _ => read_write_of_eq rfl
      · exact funext fun _ => read_write_of_eq rfl
  | length id bound =>
      simp only [Finding.writeTo, Finding.addTo, snapshot, Snapshot.mk.injEq]
      refine ⟨?_, funext fun other => ?_, rfl, ?_, ?_⟩
      · exact funext fun _ => read_write_of_eq rfl
      · rw [length?_bindLength, Function.update_apply]
      · exact funext fun _ => read_write_of_eq rfl
      · exact funext fun _ => read_write_of_eq rfl
  | generic id =>
      simp only [Finding.writeTo, Finding.addTo, snapshot, Snapshot.mk.injEq]
      refine ⟨?_, ?_, funext fun other => ?_, ?_, ?_⟩
      · exact funext fun _ => read_write_of_eq rfl
      · exact funext fun _ => read_write_of_eq rfl
      · rw [isGeneric_markGeneric, Function.update_apply]
        by_cases same : other = id
        · simp [same]
        · simp [same]
      · exact funext fun _ => read_write_of_eq rfl
      · exact funext fun _ => read_write_of_eq rfl
  | inferred id ty =>
      simp only [Finding.writeTo, Finding.addTo, snapshot, Snapshot.mk.injEq]
      refine ⟨?_, ?_, rfl, funext fun other => ?_, ?_⟩
      · exact funext fun _ => read_write_of_eq rfl
      · exact funext fun _ => read_write_of_eq rfl
      · rw [inferred?_recordInferred, Function.update_apply]
      · exact funext fun _ => read_write_of_eq rfl
  | parameter function position ty =>
      simp only [Finding.writeTo, Finding.addTo, snapshot, Snapshot.mk.injEq]
      refine ⟨?_, ?_, rfl, ?_, funext fun key => ?_⟩
      · exact funext fun _ => read_write_of_eq rfl
      · exact funext fun _ => read_write_of_eq rfl
      · exact funext fun _ => read_write_of_eq rfl
      · rw [parameter?_recordParameter, Function.update_apply]

/-! ## Refinement -/

/-- The copies of what frames show follow every operation on the frames. -/
theorem snapshots_perform? (stack : FrameStack) (operation : StackOperation) :
    (stack.perform? operation).map snapshots = stack.snapshots.perform? operation := by
  cases operation with
  | push =>
      simp only [perform?, Option.map_some, snapshots, snapshot_push, SnapshotStack.perform?]
      rfl
  | commit =>
      cases committed : stack.commit? with
      | none =>
          cases below : stack.below with
          | nil => simp [perform?, committed, SnapshotStack.perform?, snapshots, below, snapshotsOf]
          | cons parent rest => simp [commit?, below] at committed
      | some merged =>
          have shown := snapshot_commit committed
          cases below : stack.below with
          | nil => simp [commit?, below] at committed
          | cons parent rest =>
              have mergedBelow : merged.below = rest := by
                simp only [commit?, below, Option.some.injEq] at committed
                rw [← committed]
              simp [perform?, committed, SnapshotStack.perform?, snapshots, below, snapshotsOf,
                shown, mergedBelow]
  | abort =>
      obtain ⟨top, below⟩ := stack
      cases below with
      | nil => rfl
      | cons parent rest => rfl
  | write finding =>
      have sameBelow : (finding.writeTo stack).below = stack.below := by
        cases finding <;> rfl
      simp only [perform?, Option.map_some, snapshots, snapshot_writeTo, sameBelow,
        SnapshotStack.perform?]

/-- Operations on frames do to the snapshots what the same operations on snapshots do. -/
theorem snapshots_performAll (operations : List StackOperation) (stack : FrameStack) :
    (stack.performAll operations).snapshots = stack.snapshots.performAll operations := by
  induction operations generalizing stack with
  | nil => rfl
  | cons operation rest inductionHypothesis =>
      have step := snapshots_perform? stack operation
      have first :
          ((stack.perform? operation).getD stack).snapshots =
            (stack.snapshots.perform? operation).getD stack.snapshots := by
        rw [← step]
        cases stack.perform? operation with
        | none => rfl
        | some next => rfl
      change (performAll rest ((stack.perform? operation).getD stack)).snapshots =
        SnapshotStack.performAll rest ((stack.snapshots.perform? operation).getD stack.snapshots)
      rw [inductionHypothesis, first]

/-- Operations that end every transaction that they open, and no other one. -/
inductive Balanced : List StackOperation → Prop where
  | nil : Balanced []
  | write (finding : Finding) {rest : List StackOperation} :
      Balanced rest → Balanced (.write finding :: rest)
  | committed {inner rest : List StackOperation} :
      Balanced inner → Balanced rest → Balanced (.push :: inner ++ .commit :: rest)
  | aborted {inner rest : List StackOperation} :
      Balanced inner → Balanced rest → Balanced (.push :: inner ++ .abort :: rest)

/-- Performing operations in two parts is performing all of them. -/
theorem performAll_append (first second : List StackOperation) (stack : FrameStack) :
    stack.performAll (first ++ second) = (stack.performAll first).performAll second :=
  List.foldl_append

/-- Balanced operations reach no frame below the top one. -/
theorem Balanced.below_performAll
    {operations : List StackOperation}
    (balanced : Balanced operations)
    (stack : FrameStack) :
    (stack.performAll operations).below = stack.below := by
  induction balanced generalizing stack with
  | nil => rfl
  | write finding _ inductionHypothesis =>
      refine (inductionHypothesis (finding.writeTo stack)).trans ?_
      cases finding <;> rfl
  | @committed inner rest _ _ innerHypothesis restHypothesis =>
      have inside : (stack.push.performAll inner).below = stack.top :: stack.below :=
        innerHypothesis stack.push
      rw [List.cons_append, ← List.singleton_append, performAll_append, performAll_append]
      refine (restHypothesis _).trans ?_
      change ((stack.push.performAll inner).finish true).below = stack.below
      rw [below_finish, inside, List.tail_cons]
  | @aborted inner rest _ _ innerHypothesis restHypothesis =>
      have inside : (stack.push.performAll inner).below = stack.top :: stack.below :=
        innerHypothesis stack.push
      rw [List.cons_append, ← List.singleton_append, performAll_append, performAll_append]
      refine (restHypothesis _).trans ?_
      change ((stack.push.performAll inner).finish false).below = stack.below
      rw [below_finish, inside, List.tail_cons]

/-- Aborting a transaction restores the frames, whatever it contained. -/
theorem Balanced.performAll_abort
    {operations : List StackOperation}
    (balanced : Balanced operations)
    (stack : FrameStack) :
    stack.performAll (.push :: operations ++ [.abort]) = stack := by
  have inside : (stack.push.performAll operations).below = stack.top :: stack.below :=
    balanced.below_performAll stack.push
  rw [List.cons_append, ← List.singleton_append, performAll_append, performAll_append]
  change (stack.push.performAll operations).abort?.getD _ = stack
  simp [abort?, inside]

/--
Frames refine full snapshots.

From any stack of frames, and so from the empty one, every sequence of operations
leaves frames that show exactly what the copies hold after the same operations, and
that refuse the same operation next.  Aborting after balanced operations restores
all that is read, and committing changes nothing that is read.
-/
theorem frames_refine_snapshots (stack : FrameStack) (operations : List StackOperation) :
    empty.snapshots = SnapshotStack.empty ∧
    (stack.performAll operations).snapshot = (stack.snapshots.performAll operations).top ∧
    (∀ next,
      ((stack.performAll operations).perform? next).isSome =
        ((stack.snapshots.performAll operations).perform? next).isSome) ∧
    (Balanced operations →
      (stack.performAll (.push :: operations ++ [.abort])).snapshot = stack.snapshot) ∧
    ∀ merged, stack.commit? = some merged → merged.snapshot = stack.snapshot := by
  have refines := snapshots_performAll operations stack
  refine ⟨snapshots_empty, congrArg SnapshotStack.top refines, fun next => ?_, ?_, ?_⟩
  · rw [← refines, ← snapshots_perform?, Option.isSome_map]
  · intro balanced
    rw [balanced.performAll_abort stack]
  · exact fun merged committed => snapshot_commit committed

end FrameStack

end ShaderTyping
