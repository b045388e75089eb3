import ShaderTyping.Checker.Alias
import ShaderTyping.Checker.External
import ShaderTyping.Checker.Variable

namespace ShaderTyping

/-!
# Checks before inference

A checker looks for one kind of problem in a whole program.  A pipeline runs
checkers in order.  A checker whose problems make the rest meaningless ends the
run when it fails; the problems of the other checkers are collected.
-/

/-- A check of a whole program. -/
inductive Checker where
  | cyclicAliases
  | unresolvedVariables
  | externalConsistency (kind : ExternalKind)
  deriving Repr, DecidableEq

namespace Checker

/-- The name of a checker. -/
def name : Checker → String
  | .cyclicAliases => "cyclic-aliases"
  | .unresolvedVariables => "unresolved-variables"
  | .externalConsistency kind => kind.text ++ "-consistency"

/-- Whether later checkers still run when a checker fails. -/
def continuesOnFailure : Checker → Bool
  | .cyclicAliases | .unresolvedVariables => false
  | .externalConsistency _ => true

/-- The problems that a checker finds. -/
def problems : Checker → Action ε (List Diagnostic)
  | .cyclicAliases => do
      let env ← Action.environment
      pure (env.aliasProblems.map AliasProblem.toDiagnostic)
  | .unresolvedVariables => do
      let env ← Action.environment
      pure env.undefinedVariables
  | .externalConsistency kind => Environment.externalConflicts kind

/-- Run checkers after others that found the given problems. -/
def runAfter (found : List Diagnostic) : List Checker → Action Report Unit
  | [] => if found.isEmpty then pure () else Action.fail ⟨found⟩
  | checker :: rest => do
      let problems ← checker.problems
      if problems.isEmpty || checker.continuesOnFailure then
        runAfter (found ++ problems) rest
      else
        Action.fail ⟨problems⟩

/-- Run checkers in order. -/
def run (pipeline : List Checker) : Action Report Unit :=
  runAfter [] pipeline

/-- The checkers that every program goes through. -/
def standard : List Checker :=
  [.cyclicAliases, .unresolvedVariables,
    .externalConsistency .attribute, .externalConsistency .uniform]

end Checker

end ShaderTyping
