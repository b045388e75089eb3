import ShaderTyping.Call
import ShaderTyping.Generalization
import ShaderTyping.Inference.Error

namespace ShaderTyping

/-!
# The rules of inference

Each form of expression has a rule that infers its type from the types of other
expressions.  How those are inferred is an argument of the rules, so a rule says
nothing about nesting, memory or transactions.
-/

variable [Dangling]

namespace Inference

/-- How the type of an expression is inferred. -/
abbrev Infer := Expr → Action InferError Ty

/-- Fail at an expression. -/
def failAt (expr : Expr) (cause : InferCause) : Action InferError α :=
  Action.fail (InferError.ofExpr expr cause)

/-- Blame a failing unification on an expression. -/
def blame (expr : Expr) (action : Action UnifyError α) : Action InferError α :=
  action.mapError fun error => InferError.ofExpr expr (.unify error)

/-- The type of an expression with fresh variables for the quantified ones. -/
def inferInstance (infer : Infer) (expr : Expr) : Action InferError Ty := do
  let ty ← infer expr
  Environment.instantiate ty

/-- The type of a literal. -/
def literalType : Literal → Ty
  | .int _ => Ty.int
  | .uint _ => Ty.uint
  | .float _ => Ty.float
  | .bool _ => Ty.bool

/-- Array lengths are counted in 32 bits, so they are below this number. -/
def lengthRange : Nat := 4294967296

/-- The length of an array with the given number of elements. -/
def lengthOfCount (count : Nat) : Length :=
  .known (count % lengthRange)

/-- The elements of an array agree on the component type, from left to right. -/
def inferArray (infer : Infer) (expr : Expr) : List Expr → Action InferError Ty
  | [] => failAt expr .emptyArray
  | first :: rest => do
      let component ← inferInstance infer first
      let component ← rest.foldlM (fun component element => do
        let ty ← inferInstance infer element
        blame element (unify component ty)) component
      let component ← Environment.generalize component
      pure (.array component (lengthOfCount (rest.length + 1)))

/-- A position is an `int`, and what it selects from is an array. -/
def inferIndex (infer : Infer) (expr base position : Expr) : Action InferError Ty := do
  let positionType ← inferInstance infer position
  let _ ← blame position (unify Ty.int positionType)
  let baseType ← inferInstance infer base
  let component ← Environment.freshPlaceholder expr.scope
  let length ← Environment.freshLength
  let _ ← blame base (unify baseType (.array component length))
  Environment.generalize component

/-- The first label that a list of labels repeats. -/
def repeatedLabel? (seen : List String) : List String → Option String
  | [] => none
  | label :: rest =>
      if seen.contains label then some label else repeatedLabel? (label :: seen) rest

/-- The fields of a struct are inferred in the order in which they are written. -/
def inferStruct (infer : Infer) (expr : Expr) (fields : List (String × Expr)) :
    Action InferError Ty := do
  if fields.isEmpty then
    failAt expr .emptyStruct
  else
    match repeatedLabel? [] (fields.map Prod.fst) with
    | some label => failAt expr (.duplicateField label)
    | none =>
        let typed ← fields.mapM fun (label, value) => do
          let ty ← inferInstance infer value
          let ty ← Environment.generalize ty
          pure (label, ty)
        pure (Ty.ofFields typed)

/-- A field access asks for a struct that has the field. -/
def inferField (infer : Infer) (expr base : Expr) (label : String) :
    Action InferError Ty := do
  let baseType ← inferInstance infer base
  let slot ← Environment.freshPlaceholder expr.scope
  let _ ← blame expr (unify baseType (.struct [(label, slot)]))
  Environment.generalize slot

/-- Record the types of parameters from a position on: written ones or placeholders. -/
def openParameters (function : ExprId) (scope : ScopeId) :
    Nat → List Parameter → StateM Environment (List Ty)
  | _, [] => pure []
  | position, param :: rest => do
      let ty ←
        match param.ascription with
        | some ascription => pure ascription
        | none => Environment.freshPlaceholder scope
      modify (Environment.recordParameter function position ty)
      let others ← openParameters function scope (position + 1) rest
      pure (ty :: others)

/-- Run an action inside a function with the given parameter types. -/
def withActiveParams (types : List Ty) (action : Action ε α) : Action ε α :=
  action.between
    (fun env => { env with
      context.activeParams := types :: env.context.activeParams })
    (fun env => { env with
      context.activeParams := env.context.activeParams.tail })

/-- A function takes its parameters and returns its body. -/
def inferFunction (infer : Infer) (expr : Expr) (params : List Parameter) (body : Expr) :
    Action InferError Ty := do
  let types ← openParameters expr.id body.scope 0 params
  let result ← withActiveParams types (inferInstance infer body)
  let env ← Action.environment
  pure (Ty.curried (types.map env.resolve) result)

/-- A call applies the type of the callee to the types of the arguments. -/
def inferCall (infer : Infer) (expr callee : Expr) (args : List Expr) :
    Action InferError Ty := do
  let calleeType ← inferInstance infer callee
  let argTypes ← args.mapM (inferInstance infer)
  blame expr (call calleeType argTypes)

/-- A condition is a `bool`, and the two branches agree. -/
def inferConditional (infer : Infer) (condition whenTrue whenFalse : Expr) :
    Action InferError Ty := do
  let conditionType ← inferInstance infer condition
  let _ ← blame condition (unify Ty.bool conditionType)
  let trueType ← inferInstance infer whenTrue
  let falseType ← inferInstance infer whenFalse
  let ty ← blame whenFalse (unify trueType falseType)
  Environment.generalize ty

/-- An outside value has the type written for it or else a placeholder of its own. -/
def inferExternal (expr : Expr) : Option Ty → StateM Environment Ty
  | some ascription => Environment.generalize ascription
  | none => do
      let ty ← Environment.freshPlaceholder expr.scope
      modify fun env => { env with
        context.externals := ty :: env.context.externals }
      pure ty

/-- The parameter type at a position of a curried function type. -/
def parameterAt? (env : Environment) : Nat → Ty → Option Ty
  | 0, ty =>
      match env.head ty with
      | .function param _ => some param
      | _ => none
  | position + 1, ty =>
      match env.head ty with
      | .function _ result => parameterAt? env position result
      | _ => none

/-- A parameter has the type that its function records or shows for it. -/
def inferParameter (infer : Infer) (expr : Expr) (function : ExprId) (position : Nat) :
    Action InferError Ty := do
  let env ← Action.environment
  match env.frames.parameter? function position with
  | some ty => pure ty
  | none =>
      match env.declared.function? function with
      | none => failAt expr (.detachedParameter position)
      | some owner =>
          let ownerType ← infer owner
          let env ← Action.environment
          match env.frames.parameter? function position with
          | some ty => pure ty
          | none =>
              match parameterAt? env position ownerType with
              | some ty => pure ty
              | none => failAt expr (.detachedParameter position)

/-- Unify with the first type or, if that fails, with the second one. -/
def unifyEither (first second ty : Ty) : Action UnifyError Ty := do
  match ← Action.attempt (Action.transaction (unify first ty)) with
  | .ok agreed => pure agreed
  | .error cause => (Action.transaction (unify second ty)).mapError fun _ => cause

/--
The length that a length expression shows.

Only literals show one; a literal that does not fit in 32 bits does not.
-/
def shownLength (expr : Expr) : Except InferCause (Option Length) :=
  match expr.form with
  | .literal (.int value) =>
      if value ≤ 0 then
        .error (.nonPositiveLength value)
      else
        .ok (if value.toNat < lengthRange then some (.known value.toNat) else none)
  | .literal (.uint value) =>
      if value = 0 then
        .error (.nonPositiveLength 0)
      else
        .ok (if value < lengthRange then some (.known value) else none)
  | _ => .ok none

/-- A dynamic array calls its generator with `int` or `uint` positions. -/
def inferDynamicArray (infer : Infer) (expr length generator : Expr) :
    Action InferError Ty := do
  let lengthType ← inferInstance infer length
  let _ ← blame length (unifyEither Ty.int Ty.uint lengthType)
  match shownLength length with
  | .error cause => failAt length cause
  | .ok shown =>
      let generatorType ← inferInstance infer generator
      let element ← Environment.freshPlaceholder expr.scope
      let _ ← blame generator
        (unifyEither (.function Ty.int element) (.function Ty.uint element) generatorType)
      match shown with
      | some count => pure (.array element count)
      | none =>
          let count ← Environment.freshLength
          pure (.array element count)

/-- An overload set offers the types of its options. -/
def inferUnion (infer : Infer) (expr : Expr) (options : List Expr) :
    Action InferError Ty := do
  let members ← options.mapM (inferInstance infer)
  match Ty.ofMembers members with
  | some ty => pure ty
  | none => failAt expr .emptyUnion

/-- Run an action while a declaration has a provisional type. -/
def withProvisional (key : ScopeId × String) (provisional : Ty) (action : Action ε α) :
    Action ε α :=
  action.between
    (fun env => { env with
      context.inProgress := (key, provisional) :: env.context.inProgress })
    (fun env => { env with
      context.inProgress := env.context.inProgress.filter fun entry => entry.1 != key })

/--
The generalized type of a declared variable.

While the declaration is being inferred its name stands for a provisional
placeholder, so a declaration may refer to itself.
-/
def inferDeclared (infer : Infer) (declaredIn : ScopeId) (name : String) (expr : Expr) :
    Action InferError Ty := do
  let env ← Action.environment
  match env.context.inProgress.lookup (declaredIn, name) with
  | some provisional => pure provisional
  | none =>
      let provisional ← Environment.freshPlaceholder declaredIn
      let ty ← withProvisional (declaredIn, name) provisional do
        let ty ← infer expr
        blame expr (unify provisional ty)
      Environment.generalize ty

/-- A reference has an instance of the type of the declared variable. -/
def inferReference (infer : Infer) (expr : Expr) (name : String) :
    Action InferError Ty := do
  let env ← Action.environment
  match env.declared.findVariable? expr.scope name with
  | none => failAt expr (.undefinedVariable name)
  | some (declaredIn, declared) =>
      let ty ← inferDeclared infer declaredIn name declared
      Environment.instantiate ty

/-- The rule for an expression and the type it gives. -/
def inferForm (infer : Infer) (expr : Expr) : Action InferError (InferRule × Ty) :=
  match expr.form with
  | .literal value => pure (.literal, literalType value)
  | .array elements => (.array, ·) <$> inferArray infer expr elements
  | .index base position => (.index, ·) <$> inferIndex infer expr base position
  | .struct fields => (.struct, ·) <$> inferStruct infer expr fields
  | .field base label => (.field, ·) <$> inferField infer expr base label
  | .function params body => (.lambda, ·) <$> inferFunction infer expr params body
  | .call callee args => (.call, ·) <$> inferCall infer expr callee args
  | .conditional condition whenTrue whenFalse =>
      (.conditional, ·) <$> inferConditional infer condition whenTrue whenFalse
  | .reference name => (.reference, ·) <$> inferReference infer expr name
  | .external _ _ ascription =>
      (.external, ·) <$> Action.ofState (inferExternal expr ascription)
  | .parameter function position =>
      (.parameter, ·) <$> inferParameter infer expr function position
  | .dynamicArray length generator =>
      (.dynamicArray, ·) <$> inferDynamicArray infer expr length generator
  | .union options => (.union, ·) <$> inferUnion infer expr options
  | .native ty => pure (.native, ty)

end Inference

end ShaderTyping
