import ShaderTyping.Scope

namespace ShaderTyping

/-!
# Where an expression stands

A `Site` says which expression it is, in which scope it was written and which
part of the source text it covers.
-/

/-- A range of bytes in one source file. -/
structure Span where
  file : Nat
  start : Nat
  stop : Nat
  deriving Repr, DecidableEq

namespace Span

/-- The file number that marks expressions without source text. -/
def noFile : Nat := 4294967295

/-- The span of an expression without source text. -/
def synthetic : Span where
  file := noFile
  start := 0
  stop := 0

/-- Whether a span points at no source text. -/
def isSynthetic (span : Span) : Bool :=
  span.file == noFile

/-- The span that covers two spans of one file. -/
def merge (first second : Span) : Span where
  file := first.file
  start := min first.start second.start
  stop := max first.stop second.stop

/-- Spans in order of file, start and end. -/
def compare (left right : Span) : Ordering :=
  (Ord.compare left.file right.file).then
    ((Ord.compare left.start right.start).then
      (Ord.compare left.stop right.stop))

end Span

/-- The identity of an expression. -/
@[ext] structure ExprId where
  number : Nat
  deriving Repr, DecidableEq

instance : Ord ExprId where
  compare := compareOn ExprId.number

instance : Std.TransOrd ExprId :=
  inferInstanceAs (Std.TransCmp (compareOn ExprId.number))

instance : Std.LawfulEqOrd ExprId where
  eq_of_compare same := ExprId.ext (Std.LawfulEqOrd.eq_of_compare same)

/-- The identity, the scope and the source text of an expression. -/
structure Site where
  id : ExprId
  scope : ScopeId
  span : Span
  deriving Repr, DecidableEq

end ShaderTyping
