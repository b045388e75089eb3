import ShaderTyping.Ty.Union

namespace ShaderTyping

/-!
# Built-in operators

The operators and functions of the native scope with their types.  An operator
that works on several types is an overload set.
-/

namespace Operator

/-- The type of a function of one argument. -/
def unary (param result : Primitive) : Ty :=
  .function (.primitive param) (.primitive result)

/-- The type of a function of two arguments of one type. -/
def binary (operand result : Primitive) : Ty :=
  Ty.curried [.primitive operand, .primitive operand] (.primitive result)

/-- The overload set of some function types, of which there is at least one. -/
def overloads (members : List Ty) : Ty :=
  (Ty.ofMembers members).getD Ty.float

/-- The primitives with arithmetic. -/
def numeric : List Primitive :=
  [.float, .int, .uint]

/-- Two numbers of one type give a number of that type. -/
def arithmetic : Ty :=
  overloads (numeric.map fun kind => binary kind kind)

/-- Two numbers of one type are compared. -/
def comparison : Ty :=
  overloads (numeric.map fun kind => binary kind .bool)

/-- Two scalars of one type are tested for equality. -/
def equality : Ty :=
  overloads ([.float, .int, .uint, .bool].map fun kind => binary kind .bool)

/-- A signed number gives a number of the same type. -/
def signed : Ty :=
  overloads ([.float, .int].map fun kind => unary kind kind)

/-- A conversion from some primitives to one. -/
def conversion (sources : List Primitive) (target : Primitive) : Ty :=
  overloads (sources.map fun source => unary source target)

/-- Every built-in operator with its type, in order of declaration. -/
def all : List (String × Ty) :=
  ["+", "-", "*", "/"].map (fun name => (name, arithmetic)) ++
  [("%", overloads ([.int, .uint].map fun kind => binary kind kind))] ++
  ["<", "<=", ">", ">="].map (fun name => (name, comparison)) ++
  ["==", "!="].map (fun name => (name, equality)) ++
  ["&&", "||"].map (fun name => (name, binary .bool .bool)) ++
  [("!", unary .bool .bool), ("neg", signed), ("abs", signed)] ++
  ["sin", "cos", "tan", "sqrt", "exp", "log", "floor", "ceil", "fract"].map
    (fun name => (name, unary .float .float)) ++
  [("pow", binary .float .float), ("min", arithmetic), ("max", arithmetic),
    ("mix", Ty.curried [Ty.float, Ty.float, Ty.float] Ty.float),
    ("toFloat", conversion [.int, .uint, .bool] .float),
    ("toInt", conversion [.float, .uint] .int),
    ("toUint", conversion [.float, .int] .uint)]

end Operator

end ShaderTyping
