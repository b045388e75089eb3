import ShaderTyping.Unification

namespace ShaderTyping

/-!
# Calls

`call` applies a type to the types of arguments from left to right.  A function
takes an argument that agrees with its parameter.  An unbound placeholder becomes
a function.  An overload set is settled by the first member, in canonical order,
that accepts all remaining arguments; every trial is a transaction, so a rejected
member leaves no bindings.
-/

variable [Dangling]

namespace Call

/-- The result of the first member of an overload set that accepts the arguments. -/
def firstAccepting (recur : Ty → List Ty → Action UnifyError Ty)
    (arg : Ty) (rest : List Ty) : List Ty → Action UnifyError (Option Ty)
  | [] => pure none
  | member :: others => do
      Unification.note (.overload (rest.length + 1)) member arg
      match ← Action.attempt (Action.transaction (recur member (arg :: rest))) with
      | .ok ty => pure (some ty)
      | .error _ => firstAccepting recur arg rest others

/-- Apply a type to arguments, given the application of smaller problems. -/
def step (recur : Ty → List Ty → Action UnifyError Ty) (callee : Ty) :
    List Ty → Action UnifyError Ty
  | [] => pure callee
  | arg :: rest => do
      let env ← Action.environment
      match env.head callee with
      | .function param result =>
          let _ ← unify param arg
          recur result rest
      | .placeholder scope id =>
          let result ← Environment.freshPlaceholder scope
          let _ ← unify (.placeholder scope id) (.function arg result)
          recur result rest
      | .union members =>
          match ← firstAccepting recur arg rest members with
          | some ty => pure ty
          | none =>
              let env ← Action.environment
              Action.fail
                (.noMatchingOverload (env.resolve (.union members))
                  ((arg :: rest).map env.resolve))
      | other => Action.fail (.notAFunction (env.resolve other))

/-- Application with a bound on the nesting of problems. -/
def within : Nat → Ty → List Ty → Action UnifyError Ty
  | 0 => fun _ _ => Action.exhausted
  | steps + 1 => step (within steps)

/--
A bound on the nesting of problems.

For each argument, members of overload sets lead to other overload sets no more
often than there are parts in the types at hand; each argument can add a function
type with a fresh result.
-/
def limit (env : Environment) (callee : Ty) (args : List Ty) : Nat :=
  (args.length + 1) *
    Unification.nestingBound
      (Unification.weight env + callee.size +
        (Ty.sizeOfMembers args + 2 * args.length) + 2)

end Call

/-- Apply a type to the types of arguments from left to right. -/
def call (callee : Ty) (args : List Ty) : Action UnifyError Ty :=
  (Call.within Unification.usualNesting callee args).orElse do
    let env ← Action.environment
    Call.within (Call.limit env callee args) callee args

end ShaderTyping
