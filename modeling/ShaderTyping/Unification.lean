import ShaderTyping.Action
import ShaderTyping.Environment.Resolve
import ShaderTyping.Ty.Fields

namespace ShaderTyping

/-!
# Unification

`unify` makes two types agree and returns the type that they agree on.  Unbound
placeholders and length variables are bound in the top frame as soon as a rule
decides them, so a failing unification leaves the bindings it has made; a caller
that wants them undone uses a transaction.  Structs keep the fields they share,
`int` and `float` become `float`, and a reference counts as the type it stands
for.

One step is `Unification.step`, which gets the unification of smaller problems as
an argument.  Following references and bindings makes a problem smaller only as
long as they do not lead back to themselves; otherwise the steps granted by
`Unification.limit` run out.
-/

/-- Why two types or two lengths do not agree. -/
inductive UnifyError where
  /-- The types do not fit together. -/
  | mismatch (left right : Ty)
  /-- The lengths are different. -/
  | lengthMismatch (left right : Length)
  /-- The placeholder would have to contain itself. -/
  | occurs (var ty : Ty)
  /-- The name of a type is not declared. -/
  | undeclaredAlias (name : String)
  /-- The structs have no field in common. -/
  | noSharedFields (left right : Ty)
  /-- A value that is called is not a function. -/
  | notAFunction (ty : Ty)
  /-- No member of an overload set accepts the arguments. -/
  | noMatchingOverload (callee : Ty) (args : List Ty)
  deriving Repr, DecidableEq

namespace UnifyError

/-- The text of a failure; variables are named as users see them. -/
def message : UnifyError → String
  | .mismatch left right =>
      let (left, right) := left.displayPair right
      "cannot unify `" ++ left ++ "` with `" ++ right ++ "`"
  | .lengthMismatch left right =>
      "array lengths `" ++ left.rawText ++ "` and `" ++ right.rawText ++ "` differ"
  | .occurs var ty =>
      let (var, ty) := var.displayPair ty
      "infinite type: `" ++ var ++ "` occurs inside `" ++ ty ++ "`"
  | .undeclaredAlias name =>
      "type `" ++ name ++ "` is not declared"
  | .noSharedFields left right =>
      let (left, right) := left.displayPair right
      "`" ++ left ++ "` and `" ++ right ++ "` share no field"
  | .notAFunction ty =>
      "`" ++ ty.displayText ++ "` is not a function"
  | .noMatchingOverload callee args =>
      "no overload of `" ++ callee.displayText ++ "` accepts (" ++
        ", ".intercalate (args.map Ty.displayText) ++ ")"

end UnifyError

namespace Unification

/-- Keep a step between two types in the trace. -/
def note (event : UnifyEvent) (left right : Ty) : Action ε Unit :=
  Action.update (Environment.traceUnify event (.type left) (.type right))

/-- Fail because two types do not fit together. -/
def mismatch (left right : Ty) : Action UnifyError α := do
  note .mismatch left right
  let env ← Action.environment
  Action.fail (.mismatch (env.resolve left) (env.resolve right))

end Unification

/--
What unification does about a reference that stands for no type.

`Dangling.refused` is what it does in a program; the definitions below leave the
choice open, so that it can be stated that a program does not depend on it.
-/
class Dangling where
  /-- The name is not declared. -/
  undeclared (name : String) : Action UnifyError Ty
  /-- The reference leads back to itself. -/
  cyclic (reference other : Ty) : Action UnifyError Ty

/-- A reference that stands for no type agrees with no other type. -/
instance Dangling.refused : Dangling where
  undeclared name := Action.fail (.undeclaredAlias name)
  cyclic reference other := Unification.mismatch reference other

variable [Dangling]

namespace Unification

/-- The type that a reference stands for, for a unification with another type. -/
def definition (reference other : Ty) : Action UnifyError Ty := do
  let env ← Action.environment
  match env.head reference with
  | .named scope name =>
      if (env.definition? scope name).isNone then
        Dangling.undeclared name
      else
        Dangling.cyclic reference other
  | found => pure found

/-- Bind an unbound placeholder to a type, unless it occurs in the type. -/
def bind (scope : ScopeId) (id : PlaceholderId) (other : Ty) : Action UnifyError Ty := do
  let env ← Action.environment
  let var := Ty.placeholder scope id
  let other := env.follow other
  if other = var then
    pure other
  else if env.occurs id other then
    note .occursCheck var other
    Action.fail (.occurs var (env.resolve other))
  else
    note (.bind id other) var other
    Action.update (Environment.bindPlaceholder id other)
    pure other

end Unification

/-- Make two lengths agree; an unbound variable is bound to the other length. -/
def unifyLength (left right : Length) : Action UnifyError Length := do
  let env ← Action.environment
  let left := env.resolveLength left
  let right := env.resolveLength right
  if left = right then
    pure left
  else
    match left, right with
    | .var id, other | other, .var id =>
        Action.update
          (Environment.traceUnify (.bindLength id other) (.length left) (.length right))
        Action.update (Environment.bindLength id other)
        pure other
    | .known _, .known _ => Action.fail (.lengthMismatch left right)

namespace Unification

/-- Unify the shared fields of two structs. -/
def meet (recur : Ty → Ty → Action UnifyError Ty)
    (left right : List (String × Ty)) : Action UnifyError Ty := do
  match Ty.sharedFields left right with
  | [] =>
      note .noSharedField (.struct left) (.struct right)
      let env ← Action.environment
      Action.fail
        (.noSharedFields (env.resolve (.struct left)) (env.resolve (.struct right)))
  | shared =>
      note (.meet (shared.map Prod.fst)) (.struct left) (.struct right)
      let fields ← shared.mapM fun (label, first, second) => do
        let ty ← recur first second
        pure (label, ty)
      pure (.struct fields)

/-- One step of unification, given the unification of smaller problems. -/
def step (recur : Ty → Ty → Action UnifyError Ty) (left right : Ty) :
    Action UnifyError Ty := do
  if left = right then
    note .identity left right
    pure left
  else
    match left, right with
    | .placeholder scope id, _ =>
        let env ← Action.environment
        match env.binding? id with
        | some bound => recur bound right
        | none => bind scope id right
    | _, .placeholder _ _ => recur right left
    | .named _ _, _ =>
        let found ← definition left right
        note (.expand left found) left right
        recur found right
    | _, .named _ _ =>
        let found ← definition right left
        note (.expand right found) left right
        recur left found
    | .array component length, .array component' length' =>
        note .splitArray left right
        let component ← recur component component'
        let length ← unifyLength length length'
        pure (.array component length)
    | .struct fields, .struct fields' => meet recur fields fields'
    | .function param result, .function param' result' =>
        note .splitFunction left right
        let param ← recur param param'
        let result ← recur result result'
        pure (.function param result)
    | .primitive .int, .primitive .float | .primitive .float, .primitive .int =>
        note .widen left right
        pure Ty.float
    | _, _ => mismatch left right

/-- Unification with a bound on the nesting of problems. -/
def within : Nat → Ty → Ty → Action UnifyError Ty
  | 0 => fun _ _ => Action.exhausted
  | steps + 1 => step (within steps)

/-- A nesting that most problems stay below. -/
def usualNesting : Nat := 1000

/-- The number of type constructors in bindings and declared types. -/
def weight (env : Environment) : Nat :=
  Ty.sizeOfMembers env.frames.boundTypes +
    Ty.sizeOfMembers (env.declared.types.entries.map Declaration.value)

/--
A bound on the nesting of problems about types with some number of parts.

Every problem is a pair of parts, the two sides may change places, and only a new
binding lets a nested problem be the same pair again.
-/
def nestingBound (parts : Nat) : Nat :=
  4 * (parts * parts * parts)

/-- A bound on the nesting of problems in the unification of two types. -/
def limit (env : Environment) (left right : Ty) : Nat :=
  nestingBound (weight env + left.size + right.size + 2)

end Unification

/--
Make two types agree and return the type they agree on.

Few problems are nested deeply, so the bound is computed only for those that are.
-/
def unify (left right : Ty) : Action UnifyError Ty :=
  (Unification.within Unification.usualNesting left right).orElse do
    let env ← Action.environment
    Unification.within (Unification.limit env left right) left right

end ShaderTyping
