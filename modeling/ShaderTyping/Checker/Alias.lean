import ShaderTyping.Environment.Resolve

namespace ShaderTyping

/-!
# Declared types that do not stand for a type

The references inside a declared type lead to other declared types.  This search
goes through all of them, depth first, and finds references that lead to no
declaration and declared types that lead back to themselves.  Each undeclared
reference and each set of declared types that form a cycle is reported once.
-/

/-- What is wrong with references to types. -/
inductive AliasProblem where
  /-- A reference leads to no declaration. -/
  | undeclared (scope : ScopeId) (name : String)
  /-- Each declared type refers to the next one and the last one to the first. -/
  | cycle (first : AliasKey) (rest : List AliasKey)
  deriving Repr, DecidableEq

namespace AliasProblem

/-- Whether two problems are reported only once. -/
def sameAs : AliasProblem → AliasProblem → Bool
  | .undeclared scope name, .undeclared scope' name' =>
      scope == scope' && name == name'
  | .cycle first rest, .cycle first' rest' =>
      (first :: rest).all (first' :: rest').contains &&
        (first' :: rest').all (first :: rest).contains
  | _, _ => false

/-- The text that describes a problem. -/
def message : AliasProblem → String
  | .undeclared _ name => "type `" ++ name ++ "` is not declared"
  | .cycle first [] => "type alias `" ++ first.2 ++ "` refers to itself"
  | .cycle first rest =>
      "type aliases form a cycle: " ++
        " -> ".intercalate
          ((first :: rest ++ [first]).map fun key => "`" ++ key.2 ++ "`")

/-- The diagnostic that reports a problem. -/
def toDiagnostic (problem : AliasProblem) : Diagnostic :=
  match problem with
  | .undeclared _ name =>
      (Diagnostic.error .undeclaredType problem.message).about (.type name)
  | .cycle first _ =>
      ((Diagnostic.error .cyclicAlias problem.message).about (.type first.2)).withHelp
        "break the cycle with a struct, array or primitive type"

end AliasProblem

/-- The declared types that were searched and the problems that were found. -/
structure AliasSearch where
  done : List AliasKey
  problems : List AliasProblem
  deriving Repr

namespace AliasSearch

/-- Nothing was searched. -/
def start : AliasSearch where
  done := []
  problems := []

/-- Add a problem unless it is known. -/
def report (problem : AliasProblem) (search : AliasSearch) : AliasSearch :=
  if search.problems.any problem.sameAs then
    search
  else
    { search with problems := search.problems ++ [problem] }

/-- The cycle that closes when the innermost type of a path refers to `key`. -/
def cycleFrom (path : List AliasKey) (key : AliasKey) : AliasProblem :=
  .cycle key (path.takeWhile fun other => other != key).reverse

/--
Search the references of a type; `path` lists the declared types around it,
innermost first, and is never longer than the number of declared types.
-/
def followWithin (env : Environment) :
    Nat → List AliasKey → Ty → AliasSearch → AliasSearch
  | 0, _, _, search => search
  | steps + 1, path, ty, search =>
      ty.references.foldl (fun search reference =>
        match env.definition? reference.1 reference.2 with
        | none => search.report (.undeclared reference.1 reference.2)
        | some (key, definition) =>
            if path.contains key then
              search.report (cycleFrom path key)
            else if search.done.contains key then
              search
            else
              let searched := followWithin env steps (key :: path) definition search
              { searched with done := key :: searched.done })
        search

/-- Search the references of a type. -/
def follow (env : Environment) (ty : Ty) (search : AliasSearch) : AliasSearch :=
  followWithin env (env.aliasCount + 1) [] ty search

/-- Search a declared type, unless that was done. -/
def visit (env : Environment) (declaration : Declaration Ty) (search : AliasSearch) :
    AliasSearch :=
  let key := (declaration.scope, declaration.name)
  if search.done.contains key then
    search
  else
    let searched := followWithin env env.aliasCount [key] declaration.value search
    { searched with done := key :: searched.done }

end AliasSearch

namespace Environment

/-- The problems with references in declared types and in the types written in
declared variables. -/
def aliasProblems (env : Environment) : List AliasProblem :=
  let inTypes := env.declared.types.entries.foldl
    (fun search declaration => search.visit env declaration) AliasSearch.start
  let written := env.declared.values.entries.flatMap fun declaration =>
    declaration.value.nodes.flatMap fun node => node.form.ascriptions
  (written.foldl (fun search ty => search.follow env ty) inTypes).problems

end Environment

end ShaderTyping
