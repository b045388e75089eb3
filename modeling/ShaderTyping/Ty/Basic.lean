import ShaderTyping.Primitive
import ShaderTyping.Scope

namespace ShaderTyping

/-!
# Types

The types of the shading language.  Placeholders, parametric types and length
variables stand for something inference has still to find or has quantified;
what they are bound to is recorded in the environment, not here.

`Ty.induction` is induction with one hypothesis for all fields of a struct and
for all members of a union.  `Ty.collect` gathers what the leaves and the array
lengths of a type contribute, from left to right.
-/

/-- The identity of a placeholder, a type that has not been inferred yet. -/
@[ext] structure PlaceholderId where
  number : Nat
  deriving Repr, DecidableEq

instance : Ord PlaceholderId where
  compare := compareOn PlaceholderId.number

instance : Std.TransOrd PlaceholderId :=
  inferInstanceAs (Std.TransCmp (compareOn PlaceholderId.number))

instance : Std.LawfulEqOrd PlaceholderId where
  eq_of_compare same := PlaceholderId.ext (Std.LawfulEqOrd.eq_of_compare same)

/-- The identity of a variable that stands for an array length. -/
@[ext] structure LengthId where
  number : Nat
  deriving Repr, DecidableEq

instance : Ord LengthId where
  compare := compareOn LengthId.number

instance : Std.TransOrd LengthId :=
  inferInstanceAs (Std.TransCmp (compareOn LengthId.number))

instance : Std.LawfulEqOrd LengthId where
  eq_of_compare same := LengthId.ext (Std.LawfulEqOrd.eq_of_compare same)

/-- The label of a parametric type. -/
@[ext] structure LabelId where
  number : Nat
  deriving Repr, DecidableEq

/-- The length of an array type. -/
inductive Length where
  | known (count : Nat)
  | var (id : LengthId)
  deriving Repr, DecidableEq

/-- A type of the shading language. -/
inductive Ty where
  /-- A scalar or a sampler. -/
  | primitive (kind : Primitive)
  /-- An array of one component type. -/
  | array (component : Ty) (length : Length)
  /-- A struct, its fields in label order. -/
  | struct (fields : List (String × Ty))
  /-- A function of one argument; functions of several arguments are curried. -/
  | function (param result : Ty)
  /-- An overload set, its members in canonical order. -/
  | union (members : List Ty)
  /-- A reference to a declared type, looked up from a scope. -/
  | named (scope : ScopeId) (name : String)
  /-- A type that has not been inferred yet. -/
  | placeholder (scope : ScopeId) (id : PlaceholderId)
  /-- A universally quantified type. -/
  | parametric (scope : ScopeId) (label : LabelId)
  deriving Repr

/-- Anything that inference gives a name when it shows a type. -/
inductive Var where
  | placeholder (id : PlaceholderId)
  | parametric (scope : ScopeId) (label : LabelId)
  | length (id : LengthId)
  deriving Repr, DecidableEq

/-- Whether a variable is a quantified type. -/
def Var.isParametric : Var → Bool
  | .parametric _ _ => true
  | .placeholder _ | .length _ => false

namespace Ty

/-- Induction on types, with one hypothesis for the parts of structs and unions. -/
@[elab_as_elim] theorem induction
    {motive : Ty → Prop}
    (primitive : ∀ kind, motive (.primitive kind))
    (array :
      ∀ component length, motive component → motive (.array component length))
    (struct :
      ∀ fields, (∀ field ∈ fields, motive field.2) → motive (.struct fields))
    (function :
      ∀ param result, motive param → motive result →
        motive (.function param result))
    (union :
      ∀ members, (∀ member ∈ members, motive member) → motive (.union members))
    (named : ∀ scope name, motive (.named scope name))
    (placeholder : ∀ scope id, motive (.placeholder scope id))
    (parametric : ∀ scope label, motive (.parametric scope label))
    (ty : Ty) :
    motive ty :=
  @Ty.rec motive
    (fun fields => ∀ field ∈ fields, motive field.2)
    (fun members => ∀ member ∈ members, motive member)
    (fun field => motive field.2)
    primitive array struct function union named placeholder parametric
    (fun _ member => absurd member List.not_mem_nil)
    (fun _ _ first rest field member =>
      (List.mem_cons.mp member).elim (fun same => same ▸ first) (rest field))
    (fun _ member => absurd member List.not_mem_nil)
    (fun _ _ first rest candidate member =>
      (List.mem_cons.mp member).elim (fun same => same ▸ first) (rest candidate))
    (fun _ _ holds => holds)
    ty

/-- The type `float`. -/
def float : Ty := .primitive .float

/-- The type `int`. -/
def int : Ty := .primitive .int

/-- The type `uint`. -/
def uint : Ty := .primitive .uint

/-- The type `bool`. -/
def bool : Ty := .primitive .bool

/-- The function type that takes the parameters one after the other. -/
def curried (params : List Ty) (result : Ty) : Ty :=
  params.foldr .function result

/-- Whether a type is a function type. -/
def isFunction : Ty → Bool
  | .function _ _ => true
  | _ => false

/-- Whether a type is a placeholder. -/
def isPlaceholder : Ty → Bool
  | .placeholder _ _ => true
  | _ => false

/-- The primitive that a type is, if it is one. -/
def primitive? : Ty → Option Primitive
  | .primitive kind => some kind
  | _ => none

mutual

/-- The number of type constructors in a type. -/
def size : Ty → Nat
  | .array component _ => component.size + 1
  | .struct fields => sizeOfFields fields + 1
  | .function param result => param.size + result.size + 1
  | .union members => sizeOfMembers members + 1
  | .primitive _ | .named _ _ | .placeholder _ _ | .parametric _ _ => 1

/-- The number of type constructors in the fields of a struct. -/
def sizeOfFields : List (String × Ty) → Nat
  | [] => 0
  | (_, ty) :: rest => ty.size + sizeOfFields rest

/-- The number of type constructors in the members of a union. -/
def sizeOfMembers : List Ty → Nat
  | [] => 0
  | ty :: rest => ty.size + sizeOfMembers rest

end

mutual

/-- The number of levels of a type; a type without parts has one. -/
def depth : Ty → Nat
  | .array component _ => component.depth + 1
  | .struct fields => depthOfFields fields + 1
  | .function param result => max param.depth result.depth + 1
  | .union members => depthOfMembers members + 1
  | .primitive _ | .named _ _ | .placeholder _ _ | .parametric _ _ => 1

/-- The number of levels of the deepest field. -/
def depthOfFields : List (String × Ty) → Nat
  | [] => 0
  | (_, ty) :: rest => max ty.depth (depthOfFields rest)

/-- The number of levels of the deepest member. -/
def depthOfMembers : List Ty → Nat
  | [] => 0
  | ty :: rest => max ty.depth (depthOfMembers rest)

end

mutual

/-- Put what the leaves and the array lengths of a type contribute in front of `rest`. -/
def collectOnto (leaf : Ty → List α) (length : Length → List α) :
    Ty → List α → List α
  | .array component bound, rest =>
      component.collectOnto leaf length (length bound ++ rest)
  | .struct fields, rest => collectFieldsOnto leaf length fields rest
  | .function param result, rest =>
      param.collectOnto leaf length (result.collectOnto leaf length rest)
  | .union members, rest => collectMembersOnto leaf length members rest
  | .primitive kind, rest => leaf (.primitive kind) ++ rest
  | .named scope name, rest => leaf (.named scope name) ++ rest
  | .placeholder scope id, rest => leaf (.placeholder scope id) ++ rest
  | .parametric scope label, rest => leaf (.parametric scope label) ++ rest

/-- Put what the fields of a struct contribute in front of `rest`. -/
def collectFieldsOnto (leaf : Ty → List α) (length : Length → List α) :
    List (String × Ty) → List α → List α
  | [], rest => rest
  | (_, ty) :: others, rest =>
      ty.collectOnto leaf length (collectFieldsOnto leaf length others rest)

/-- Put what the members of a union contribute in front of `rest`. -/
def collectMembersOnto (leaf : Ty → List α) (length : Length → List α) :
    List Ty → List α → List α
  | [], rest => rest
  | ty :: others, rest =>
      ty.collectOnto leaf length (collectMembersOnto leaf length others rest)

end

/-- What the leaves and the array lengths of a type contribute, from left to right. -/
def collect (leaf : Ty → List α) (length : Length → List α) (ty : Ty) : List α :=
  ty.collectOnto leaf length []

/-- Fields contribute one after the other if each contributes in front of the rest. -/
theorem collectFieldsOnto_eq
    {leaf : Ty → List α}
    {length : Length → List α}
    {fields : List (String × Ty)}
    (each : ∀ field ∈ fields, ∀ rest,
      field.2.collectOnto leaf length rest = field.2.collect leaf length ++ rest)
    (rest : List α) :
    collectFieldsOnto leaf length fields rest =
      (fields.flatMap fun field => field.2.collect leaf length) ++ rest := by
  induction fields with
  | nil => rfl
  | cons field others inductionHypothesis =>
      rw [collectFieldsOnto, each field List.mem_cons_self,
        inductionHypothesis fun other member => each other (List.mem_cons_of_mem _ member),
        List.flatMap_cons, List.append_assoc]

/-- Members contribute one after the other if each contributes in front of the rest. -/
theorem collectMembersOnto_eq
    {leaf : Ty → List α}
    {length : Length → List α}
    {members : List Ty}
    (each : ∀ member ∈ members, ∀ rest,
      member.collectOnto leaf length rest = member.collect leaf length ++ rest)
    (rest : List α) :
    collectMembersOnto leaf length members rest =
      (members.flatMap fun member => member.collect leaf length) ++ rest := by
  induction members with
  | nil => rfl
  | cons member others inductionHypothesis =>
      rw [collectMembersOnto, each member List.mem_cons_self,
        inductionHypothesis fun other isMember => each other (List.mem_cons_of_mem _ isMember),
        List.flatMap_cons, List.append_assoc]

/-- What a type contributes stands in front of the rest, which it leaves alone. -/
theorem collectOnto_eq
    (leaf : Ty → List α)
    (length : Length → List α)
    (ty : Ty)
    (rest : List α) :
    ty.collectOnto leaf length rest = ty.collect leaf length ++ rest := by
  induction ty using Ty.induction generalizing rest with
  | array component bound inductionHypothesis =>
      simp only [collect, collectOnto]
      rw [inductionHypothesis, inductionHypothesis (length bound ++ [])]
      simp
  | struct fields inductionHypothesis =>
      simp only [collect, collectOnto]
      rw [collectFieldsOnto_eq inductionHypothesis,
        collectFieldsOnto_eq inductionHypothesis]
      simp
  | function param result paramHypothesis resultHypothesis =>
      simp only [collect, collectOnto]
      rw [paramHypothesis, resultHypothesis,
        paramHypothesis (result.collectOnto leaf length []), resultHypothesis []]
      simp
  | union members inductionHypothesis =>
      simp only [collect, collectOnto]
      rw [collectMembersOnto_eq inductionHypothesis,
        collectMembersOnto_eq inductionHypothesis]
      simp
  | primitive | named | placeholder | parametric =>
      simp [collect, collectOnto]

@[simp] theorem collect_array
    (leaf : Ty → List α)
    (length : Length → List α)
    (component : Ty)
    (bound : Length) :
    (array component bound).collect leaf length =
      component.collect leaf length ++ length bound := by
  rw [collect, collectOnto, collectOnto_eq, List.append_nil]

@[simp] theorem collect_struct
    (leaf : Ty → List α)
    (length : Length → List α)
    (fields : List (String × Ty)) :
    (struct fields).collect leaf length =
      fields.flatMap fun field => field.2.collect leaf length := by
  rw [collect, collectOnto,
    collectFieldsOnto_eq fun field _ => collectOnto_eq leaf length field.2,
    List.append_nil]

@[simp] theorem collect_function
    (leaf : Ty → List α)
    (length : Length → List α)
    (param result : Ty) :
    (function param result).collect leaf length =
      param.collect leaf length ++ result.collect leaf length := by
  rw [collect, collectOnto, collectOnto_eq]
  rfl

@[simp] theorem collect_union
    (leaf : Ty → List α)
    (length : Length → List α)
    (members : List Ty) :
    (union members).collect leaf length =
      members.flatMap fun member => member.collect leaf length := by
  rw [collect, collectOnto,
    collectMembersOnto_eq fun member _ => collectOnto_eq leaf length member,
    List.append_nil]

@[simp] theorem collect_primitive
    (leaf : Ty → List α)
    (length : Length → List α)
    (kind : Primitive) :
    (primitive kind).collect leaf length = leaf (.primitive kind) :=
  List.append_nil _

@[simp] theorem collect_named
    (leaf : Ty → List α)
    (length : Length → List α)
    (scope : ScopeId)
    (name : String) :
    (named scope name).collect leaf length = leaf (.named scope name) :=
  List.append_nil _

@[simp] theorem collect_placeholder
    (leaf : Ty → List α)
    (length : Length → List α)
    (scope : ScopeId)
    (id : PlaceholderId) :
    (placeholder scope id).collect leaf length = leaf (.placeholder scope id) :=
  List.append_nil _

@[simp] theorem collect_parametric
    (leaf : Ty → List α)
    (length : Length → List α)
    (scope : ScopeId)
    (label : LabelId) :
    (parametric scope label).collect leaf length = leaf (.parametric scope label) :=
  List.append_nil _

/-- The leaves of a type, from left to right. -/
def leaves (ty : Ty) : List Ty :=
  ty.collect (fun leaf => [leaf]) (fun _ => [])

/-- The variable that a leaf is, if it is one. -/
def leafVars : Ty → List Var
  | .placeholder _ id => [.placeholder id]
  | .parametric scope label => [.parametric scope label]
  | _ => []

/-- The variable that a length is, if it is one. -/
def lengthVars : Length → List Var
  | .var id => [.length id]
  | .known _ => []

/-- The inference variables of a type in the order they are met, with repetitions. -/
def vars (ty : Ty) : List Var :=
  ty.collect leafVars lengthVars

/-- The references of a type to declared types in the order they are met. -/
def references (ty : Ty) : List (ScopeId × String) :=
  ty.leaves.filterMap fun
    | .named scope name => some (scope, name)
    | _ => none

end Ty

end ShaderTyping
