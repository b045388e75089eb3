import ShaderTyping.Environment.Basic
import ShaderTyping.Ty.Substitution

namespace ShaderTyping

/-!
# Following bindings and references

`follow` and `head` look at the outermost constructor of a type; `resolve` and
`expand` do so everywhere in it; `occurs` searches it.  Each walk has a bound that
is computed from the environment.  Bindings never lead back to the same
placeholder, so a chain of bindings passes each bound placeholder at most once.
References may lead back to themselves; a walk follows a reference only if it has
not followed the same declaration before, so it passes each declared type at most
once and, between two of them, each bound placeholder at most once.
-/

/-- A declared type: the scope that declares it and its name. -/
abbrev AliasKey := ScopeId × String

namespace Environment

/-- What a placeholder is bound to. -/
def binding? (env : Environment) (id : PlaceholderId) : Option Ty :=
  env.frames.placeholder? id

/-- The declared type that a reference stands for and its definition. -/
def definition? (env : Environment) (scope : ScopeId) (name : String) :
    Option (AliasKey × Ty) :=
  (env.declared.findType? scope name).map fun found => ((found.1, name), found.2)

/-- The number of bindings of placeholders. -/
def bindingCount (env : Environment) : Nat :=
  env.frames.bindingCount

/-- The number of declared types. -/
def aliasCount (env : Environment) : Nat :=
  env.declared.types.size

/-- A bound for walks that follow both bindings and references. -/
def walkLimit (env : Environment) : Nat :=
  (env.aliasCount + 1) * (env.bindingCount + 1)

/-- Follow at most `steps` bindings at the head of a type. -/
def followWithin (env : Environment) : Nat → Ty → Ty
  | steps + 1, .placeholder scope id =>
      match env.binding? id with
      | some bound => env.followWithin steps bound
      | none => .placeholder scope id
  | _, ty => ty

/-- Follow the bindings at the head of a type. -/
def follow (env : Environment) (ty : Ty) : Ty :=
  if ty.isPlaceholder then env.followWithin env.bindingCount ty else ty

/-- Whether nothing is known about a type. -/
def isUnbound (env : Environment) (ty : Ty) : Bool :=
  (env.follow ty).isPlaceholder

/-- Follow at most `steps` references at the head of a type, none of them twice. -/
def headWithin (env : Environment) : Nat → List AliasKey → Ty → Ty
  | 0, _, ty => env.follow ty
  | steps + 1, seen, ty =>
      match env.follow ty with
      | .named scope name =>
          match env.definition? scope name with
          | some (key, definition) =>
              if seen.contains key then
                .named scope name
              else
                env.headWithin steps (key :: seen) definition
          | none => .named scope name
      | other => other

/--
Follow the bindings and references at the head of a type.

The result is a reference only if that reference is undeclared or leads back to
itself.
-/
def head (env : Environment) (ty : Ty) : Ty :=
  env.headWithin env.aliasCount [] ty

/-- Follow at most `steps` bindings of length variables. -/
def resolveLengthWithin (env : Environment) : Nat → Length → Length
  | steps + 1, .var id =>
      match env.frames.length? id with
      | some bound => env.resolveLengthWithin steps bound
      | none => .var id
  | _, length => length

/-- Follow the bindings of length variables. -/
def resolveLength (env : Environment) : Length → Length
  | .known count => .known count
  | .var id => env.resolveLengthWithin env.frames.lengthBindingCount (.var id)

/-- Replace bound variables in a type along at most `steps` bindings. -/
def resolveWithin (env : Environment) : Nat → Ty → Ty
  | 0, ty => ty
  | steps + 1, ty =>
      ty.subst
        { named := .named
          placeholder := fun scope id =>
            match env.binding? id with
            | some bound => env.resolveWithin steps bound
            | none => .placeholder scope id
          parametric := .parametric
          length := env.resolveLength }

/-- Replace every bound placeholder and length variable in a type. -/
def resolve (env : Environment) (ty : Ty) : Ty :=
  env.resolveWithin (env.bindingCount + 1) ty

/--
Replace bound variables and references in a type along at most `steps` bindings
and definitions; `expanding` lists the declared types around this place.
-/
def expandWithin (env : Environment) : Nat → List AliasKey → Ty → Ty
  | 0, _, ty => ty
  | steps + 1, expanding, ty =>
      ty.subst
        { named := fun scope name =>
            match env.definition? scope name with
            | some (key, definition) =>
                if expanding.contains key then
                  .named scope name
                else
                  env.expandWithin steps (key :: expanding) definition
            | none => .named scope name
          placeholder := fun scope id =>
            match env.binding? id with
            | some bound => env.expandWithin steps expanding bound
            | none => .placeholder scope id
          parametric := .parametric
          length := env.resolveLength }

/--
Replace every bound variable and every reference in a type.

A reference inside the type that it stands for is left as it is, and so is an
undeclared one.
-/
def expand (env : Environment) (ty : Ty) : Ty :=
  env.expandWithin (env.walkLimit + 1) [] ty

/--
Search a type for a placeholder along at most `steps` bindings and definitions.

The search ends with `none` as soon as it meets the placeholder; otherwise it
returns the declared types that it has been through, which it does not search
again.
-/
def searchWithin (env : Environment) (target : PlaceholderId) :
    Nat → List AliasKey → Ty → Option (List AliasKey)
  | 0, searched, _ => some searched
  | steps + 1, searched, ty =>
      ty.leaves.foldlM (fun searched leaf =>
        match leaf with
        | .placeholder _ id =>
            if id = target then
              none
            else
              match env.binding? id with
              | some bound => env.searchWithin target steps searched bound
              | none => some searched
        | .named scope name =>
            match env.definition? scope name with
            | some (key, definition) =>
                if searched.contains key then
                  some searched
                else
                  env.searchWithin target steps (key :: searched) definition
            | none => some searched
        | _ => some searched)
        searched

/-- Whether a placeholder occurs in a type, through bindings and definitions too. -/
def occurs (env : Environment) (target : PlaceholderId) (ty : Ty) : Bool :=
  (env.searchWithin target (env.walkLimit + 1) [] ty).isNone

/-- The type that was inferred for an expression, with its bindings replaced. -/
def typeOf? (env : Environment) (id : ExprId) : Option Ty :=
  (env.frames.inferred? id).map env.resolve

/-- Keep a step of inference, if steps are kept. -/
def traceInfer (expr : Expr) (rule : InferRule) (ty : Ty) (env : Environment) :
    Environment :=
  if env.options.trace then
    { env with
      trace := env.trace.addInference
        { site := expr.site
          description := expr.form.describe
          rule := rule
          ty := env.resolve ty } }
  else
    env

/-- A step is kept in the trace, and nowhere else. -/
theorem traceInfer_eq (expr : Expr) (rule : InferRule) (ty : Ty) (env : Environment) :
    env.traceInfer expr rule ty =
      { env with trace := (env.traceInfer expr rule ty).trace } := by
  unfold traceInfer
  split <;> rfl

/-- A step of inference declares nothing. -/
@[simp] theorem declared_traceInfer (expr : Expr) (rule : InferRule) (ty : Ty)
    (env : Environment) :
    (env.traceInfer expr rule ty).declared = env.declared := by
  rw [traceInfer_eq]

/-- A step of inference writes to no frame. -/
@[simp] theorem frames_traceInfer (expr : Expr) (rule : InferRule) (ty : Ty)
    (env : Environment) :
    (env.traceInfer expr rule ty).frames = env.frames := by
  rw [traceInfer_eq]

end Environment

end ShaderTyping
