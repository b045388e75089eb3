import ShaderTyping.Ty.Union

namespace ShaderTyping

/-!
# Replacing the leaves of a type

`Ty.traverse` visits the references, placeholders, parametric types and lengths
of a type from left to right and puts what the visits return in their place.
Unions are rebuilt in canonical form, because a replacement can change the order
of the members or make two of them equal.  `Ty.subst` is the traversal whose
visits have no effect.
-/

/-- What a traversal does at each kind of leaf. -/
structure Visitor (m : Type → Type) where
  named : ScopeId → String → m Ty
  placeholder : ScopeId → PlaceholderId → m Ty
  parametric : ScopeId → LabelId → m Ty
  length : Length → m Length

/-- What to put for each kind of leaf. -/
abbrev Substitution := Visitor Id

namespace Substitution

/-- The substitution that changes nothing. -/
def identity : Substitution where
  named := .named
  placeholder := .placeholder
  parametric := .parametric
  length := fun length => length

end Substitution

namespace Ty

mutual

/-- Visit the leaves of a type from left to right and rebuild it. -/
def traverse [Monad m] (visitor : Visitor m) : Ty → m Ty
  | .primitive kind => pure (.primitive kind)
  | .array component length => do
      let component ← component.traverse visitor
      let length ← visitor.length length
      pure (.array component length)
  | .struct fields => do
      let fields ← traverseFields visitor fields
      pure (.struct fields)
  | .function param result => do
      let param ← param.traverse visitor
      let result ← result.traverse visitor
      pure (.function param result)
  | .union members => do
      let rebuilt ← traverseMembers visitor members
      -- An overload set has members, so there is one to rebuild.
      pure ((ofMembers rebuilt).getD (.union []))
  | .named scope name => visitor.named scope name
  | .placeholder scope id => visitor.placeholder scope id
  | .parametric scope label => visitor.parametric scope label

/-- Visit the fields of a struct in order. -/
def traverseFields [Monad m] (visitor : Visitor m) :
    List (String × Ty) → m (List (String × Ty))
  | [] => pure []
  | (label, ty) :: rest => do
      let ty ← ty.traverse visitor
      let rest ← traverseFields visitor rest
      pure ((label, ty) :: rest)

/-- Visit the members of a union in order. -/
def traverseMembers [Monad m] (visitor : Visitor m) : List Ty → m (List Ty)
  | [] => pure []
  | ty :: rest => do
      let ty ← ty.traverse visitor
      let rest ← traverseMembers visitor rest
      pure (ty :: rest)

end

/-- Replace the leaves of a type. -/
def subst (substitution : Substitution) (ty : Ty) : Ty :=
  Id.run (ty.traverse substitution)

@[simp] theorem subst_primitive
    (substitution : Substitution)
    (kind : Primitive) :
    subst substitution (.primitive kind) = .primitive kind :=
  rfl

@[simp] theorem subst_array
    (substitution : Substitution)
    (component : Ty)
    (length : Length) :
    subst substitution (.array component length) =
      .array (component.subst substitution) (substitution.length length) :=
  rfl

@[simp] theorem subst_struct
    (substitution : Substitution)
    (fields : List (String × Ty)) :
    subst substitution (.struct fields) =
      .struct (fields.map fun field => (field.1, field.2.subst substitution)) := by
  refine congrArg Ty.struct ?_
  induction fields with
  | nil => rfl
  | cons field rest inductionHypothesis =>
      exact congrArg _ inductionHypothesis

@[simp] theorem subst_function
    (substitution : Substitution)
    (param result : Ty) :
    subst substitution (.function param result) =
      .function (param.subst substitution) (result.subst substitution) :=
  rfl

@[simp] theorem subst_union
    (substitution : Substitution)
    (members : List Ty) :
    subst substitution (.union members) =
      (ofMembers (members.map fun member => member.subst substitution)).getD
        (.union []) := by
  refine congrArg (fun rebuilt => (ofMembers rebuilt).getD (.union [])) ?_
  induction members with
  | nil => rfl
  | cons member rest inductionHypothesis =>
      exact congrArg _ inductionHypothesis

@[simp] theorem subst_named
    (substitution : Substitution)
    (scope : ScopeId)
    (name : String) :
    subst substitution (.named scope name) = substitution.named scope name :=
  rfl

@[simp] theorem subst_placeholder
    (substitution : Substitution)
    (scope : ScopeId)
    (id : PlaceholderId) :
    subst substitution (.placeholder scope id) = substitution.placeholder scope id :=
  rfl

@[simp] theorem subst_parametric
    (substitution : Substitution)
    (scope : ScopeId)
    (label : LabelId) :
    subst substitution (.parametric scope label) =
      substitution.parametric scope label :=
  rfl

end Ty

end ShaderTyping
