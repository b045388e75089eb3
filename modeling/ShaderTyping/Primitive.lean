namespace ShaderTyping

/-!
# Primitive types

The scalar and sampler types of the shading language, their names and their
rank.  The rank fixes the canonical order of overload sets, in which `float`
comes before `int`.
-/

/-- A built-in scalar or sampler type. -/
inductive Primitive where
  | float
  | int
  | uint
  | bool
  | sampler1D
  | sampler2D
  | sampler3D
  | samplerCube
  deriving Repr, DecidableEq

namespace Primitive

/-- Every primitive, in rank order. -/
def all : List Primitive :=
  [.float, .int, .uint, .bool,
    .sampler1D, .sampler2D, .sampler3D, .samplerCube]

/-- The place of a primitive in the canonical order. -/
def rank : Primitive → Nat
  | .float => 0
  | .int => 1
  | .uint => 2
  | .bool => 3
  | .sampler1D => 4
  | .sampler2D => 5
  | .sampler3D => 6
  | .samplerCube => 7

/-- The name a primitive is written with. -/
def name : Primitive → String
  | .float => "float"
  | .int => "int"
  | .uint => "uint"
  | .bool => "bool"
  | .sampler1D => "sampler1D"
  | .sampler2D => "sampler2D"
  | .sampler3D => "sampler3D"
  | .samplerCube => "samplerCube"

/-- The primitive with the given name, if there is one. -/
def ofName? (text : String) : Option Primitive :=
  all.find? fun primitive => primitive.name == text

/-- Whether arithmetic applies to a primitive. -/
def isNumeric : Primitive → Bool
  | .float | .int | .uint => true
  | _ => false

/-- Different primitives have different ranks. -/
theorem rank_injective {left right : Primitive}
    (sameRank : left.rank = right.rank) :
    left = right := by
  cases left <;> cases right <;> simp_all [rank]

/-- Every primitive is found again under its own name. -/
@[simp] theorem ofName?_name (primitive : Primitive) :
    ofName? primitive.name = some primitive := by
  cases primitive <;> decide

end Primitive

end ShaderTyping
