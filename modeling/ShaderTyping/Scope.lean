namespace ShaderTyping

/-!
# Lexical scopes

Scopes form a tree below the native scope.  They are numbered in order of
creation, so the parent of a scope has a smaller number than the scope itself;
`ScopeTree` carries this fact, and it bounds the walk from a scope to the root.
-/

/-- The identity of a lexical scope: its number in order of creation. -/
@[ext] structure ScopeId where
  number : Nat
  deriving Repr, DecidableEq

namespace ScopeId

/-- The root scope, which holds primitive type names and built-in operators. -/
def native : ScopeId := ⟨0⟩

/-- Whether a scope is the root scope. -/
def isNative (scope : ScopeId) : Bool :=
  scope == native

/-- A scope as it is shown in messages. -/
def text (scope : ScopeId) : String :=
  "s" ++ Nat.repr scope.number

end ScopeId

/--
A tree of scopes.

Entry `i` of `parents` is the parent of scope `i + 1`; scope `0` is the root.
-/
structure ScopeTree where
  parents : Array ScopeId
  older :
    ∀ {position : Nat} {parent : ScopeId},
      parents[position]? = some parent → parent.number ≤ position

namespace ScopeTree

/-- The tree that has only the root scope. -/
def root : ScopeTree where
  parents := #[]
  older := by simp

/-- The number of scopes. -/
def size (tree : ScopeTree) : Nat :=
  tree.parents.size + 1

/-- Whether a scope exists in the tree. -/
def contains (tree : ScopeTree) (scope : ScopeId) : Bool :=
  decide (scope.number < tree.size)

/-- The scope directly around another one; the root and unknown scopes have none. -/
def parent? (tree : ScopeTree) (scope : ScopeId) : Option ScopeId :=
  match scope.number with
  | 0 => none
  | position + 1 => tree.parents[position]?

/-- Nest a new scope in an existing one. -/
def child? (tree : ScopeTree) (parent : ScopeId) : Option (ScopeId × ScopeTree) :=
  if known : parent.number < tree.size then
    some (⟨tree.size⟩,
      { parents := tree.parents.push parent
        older := by
          intro position candidate found
          rw [Array.getElem?_push] at found
          split at found
          · cases Option.some.inj found
            simp only [size] at known
            omega
          · exact tree.older found })
  else
    none

/-- A parent is older than its child. -/
theorem parent?_lt
    {tree : ScopeTree}
    {scope parent : ScopeId}
    (found : tree.parent? scope = some parent) :
    parent.number < scope.number := by
  unfold parent? at found
  split at found
  · contradiction
  · rename_i position isSucc
    have isOlder := tree.older found
    omega

/-- Walk at most `steps` parents up from a scope. -/
def ancestorsWithin (tree : ScopeTree) : Nat → ScopeId → List ScopeId
  | 0, scope => [scope]
  | steps + 1, scope =>
      match tree.parent? scope with
      | some parent => scope :: tree.ancestorsWithin steps parent
      | none => [scope]

/--
A scope followed by every scope around it, innermost first.

Parents are older than their children, so the walk from scope number `n` takes
at most `n` steps.
-/
def ancestors (tree : ScopeTree) (scope : ScopeId) : List ScopeId :=
  tree.ancestorsWithin scope.number scope

/-- Whether `outer` is `inner` or a scope around it. -/
def encloses (tree : ScopeTree) (outer inner : ScopeId) : Bool :=
  (tree.ancestors inner).contains outer

/-- More steps than the number of the scope do not lengthen the walk. -/
theorem ancestorsWithin_of_le
    {tree : ScopeTree}
    {steps : Nat}
    {scope : ScopeId}
    (enough : scope.number ≤ steps) :
    tree.ancestorsWithin steps scope = tree.ancestors scope := by
  induction steps using Nat.strongRecOn generalizing scope with
  | ind steps inductionHypothesis =>
      unfold ancestors
      cases found : tree.parent? scope with
      | none =>
          cases steps <;> cases scope.number <;>
            simp [ancestorsWithin, found]
      | some parent =>
          have isOlder := parent?_lt found
          obtain ⟨steps, rfl⟩ : ∃ fewer, steps = fewer + 1 :=
            ⟨steps - 1, by omega⟩
          obtain ⟨number, isNumber⟩ : ∃ fewer, scope.number = fewer + 1 :=
            ⟨scope.number - 1, by omega⟩
          simp only [isNumber, ancestorsWithin, found]
          rw [inductionHypothesis steps (by omega) (by omega)]
          by_cases same : number = steps
          · rw [same, inductionHypothesis steps (by omega) (by omega)]
          · rw [inductionHypothesis number (by omega) (by omega)]

/-- The ancestors of a scope are the scope and the ancestors of its parent. -/
theorem ancestors_eq (tree : ScopeTree) (scope : ScopeId) :
    tree.ancestors scope =
      match tree.parent? scope with
      | some parent => scope :: tree.ancestors parent
      | none => [scope] := by
  rw [← ancestorsWithin_of_le (Nat.le_succ scope.number), ancestorsWithin]
  cases found : tree.parent? scope with
  | none => rfl
  | some parent =>
      exact congrArg _
        (ancestorsWithin_of_le (Nat.le_of_lt (parent?_lt found)))

end ScopeTree

end ShaderTyping
