import ShaderTyping.Site

namespace ShaderTyping

/-!
# Diagnostics

A diagnostic reports one problem: its category and code, a message, the
expression or type it is about, further places and a suggestion.  A `Report` is
a list of diagnostics in the order in which the problems were found.
-/

/-- The broad kind of a problem. -/
inductive Category where
  | typeMismatch
  | infiniteType
  | undeclaredType
  | cyclicAlias
  | undefinedName
  | missingField
  | notAFunction
  | noMatchingOverload
  | externalConflict
  | inferenceIncomplete
  | duplicateDeclaration
  deriving Repr, DecidableEq

namespace Category

/-- Every category, in the order of the codes. -/
def all : List Category :=
  [.typeMismatch, .infiniteType, .undeclaredType, .cyclicAlias,
    .undefinedName, .missingField, .notAFunction, .noMatchingOverload,
    .externalConflict, .inferenceIncomplete, .duplicateDeclaration]

/-- The name of a category for filters. -/
def name : Category → String
  | .typeMismatch => "type_mismatch"
  | .infiniteType => "infinite_type"
  | .undeclaredType => "undeclared_type"
  | .cyclicAlias => "cyclic_alias"
  | .undefinedName => "undefined_name"
  | .missingField => "missing_field"
  | .notAFunction => "not_a_function"
  | .noMatchingOverload => "no_matching_overload"
  | .externalConflict => "external_conflict"
  | .inferenceIncomplete => "inference_incomplete"
  | .duplicateDeclaration => "duplicate_declaration"

/-- The stable code of a category. -/
def code : Category → String
  | .typeMismatch => "T0001"
  | .infiniteType => "T0002"
  | .undeclaredType => "T0003"
  | .cyclicAlias => "T0004"
  | .undefinedName => "T0005"
  | .missingField => "T0006"
  | .notAFunction => "T0007"
  | .noMatchingOverload => "T0008"
  | .externalConflict => "T0009"
  | .inferenceIncomplete => "T0010"
  | .duplicateDeclaration => "T0011"

/-- What the problems of a category have in common. -/
def description : Category → String
  | .typeMismatch => "Expression type does not match the type required here."
  | .infiniteType => "A type would have to contain itself."
  | .undeclaredType => "A referenced type name is not declared in scope."
  | .cyclicAlias => "A type alias refers back to itself."
  | .undefinedName => "A referenced variable is not declared in scope."
  | .missingField => "A struct does not have the accessed field."
  | .notAFunction => "A value that is not a function was called."
  | .noMatchingOverload => "No overload accepts the given arguments."
  | .externalConflict =>
      "An attribute or uniform is used with different types at different sites."
  | .inferenceIncomplete => "The type of an expression could not be determined."
  | .duplicateDeclaration => "A name is declared twice in the same scope."

/-- The category with the given name, if there is one. -/
def ofName? (text : String) : Option Category :=
  all.find? fun category => category.name == text

end Category

/-- What a problem is about. -/
inductive Subject where
  | expression (id : ExprId)
  /-- A type by its text. -/
  | type (text : String)
  deriving Repr, DecidableEq

namespace Subject

/-- The text of a subject. -/
def text : Subject → String
  | .expression id => "expression #" ++ Nat.repr id.number
  | .type shown => "type `" ++ shown ++ "`"

end Subject

/-- A remark on a further place. -/
structure Note where
  span : Span
  message : String
  deriving Repr, DecidableEq

/-- The report of one problem. -/
structure Diagnostic where
  code : Option String
  category : Category
  message : String
  location : Option Span
  subject : Option Subject
  notes : List Note
  help : Option String
  deriving Repr, DecidableEq

namespace Diagnostic

/-- A diagnostic with the code of its category and nothing else. -/
def error (category : Category) (message : String) : Diagnostic where
  code := some category.code
  category := category
  message := message
  location := none
  subject := none
  notes := []
  help := none

/-- Say where the problem is. -/
def located (span : Span) (diagnostic : Diagnostic) : Diagnostic :=
  { diagnostic with location := some span }

/-- Say where the problem is, if the span points at source text. -/
def locatedIn (span : Span) (diagnostic : Diagnostic) : Diagnostic :=
  if span.isSynthetic then diagnostic else diagnostic.located span

/-- Say what the problem is about. -/
def about (subject : Subject) (diagnostic : Diagnostic) : Diagnostic :=
  { diagnostic with subject := some subject }

/-- Add a remark on a further place. -/
def withNote (span : Span) (message : String) (diagnostic : Diagnostic) : Diagnostic :=
  { diagnostic with notes := diagnostic.notes ++ [⟨span, message⟩] }

/-- Suggest how to solve the problem. -/
def withHelp (help : String) (diagnostic : Diagnostic) : Diagnostic :=
  { diagnostic with help := some help }

/-- The text of a remark, on a line of its own. -/
def noteText (note : Note) : String :=
  "\n  note: " ++ note.message ++
    " (" ++ Nat.repr note.span.start ++ ".." ++ Nat.repr note.span.stop ++ ")"

/-- The text of a diagnostic. -/
def text (diagnostic : Diagnostic) : String :=
  let title :=
    match diagnostic.code with
    | some code => "error[" ++ code ++ "]: " ++ diagnostic.message
    | none => "error: " ++ diagnostic.message
  let subject :=
    match diagnostic.subject with
    | some subject => "\n  in: " ++ subject.text
    | none => ""
  let notes := String.join (diagnostic.notes.map noteText)
  let help :=
    match diagnostic.help with
    | some help => "\n  help: " ++ help
    | none => ""
  title ++ subject ++ notes ++ help

end Diagnostic

/-- Diagnostics in the order in which the problems were found. -/
structure Report where
  diagnostics : List Diagnostic
  deriving Repr, DecidableEq

namespace Report

/-- The text of the first diagnostic, or nothing. -/
def message (report : Report) : String :=
  match report.diagnostics with
  | first :: _ => first.text
  | [] => ""

/-- The texts of all diagnostics, one after the other. -/
def render (report : Report) : String :=
  "\n".intercalate (report.diagnostics.map Diagnostic.text)

end Report

end ShaderTyping
