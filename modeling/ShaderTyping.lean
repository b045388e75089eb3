import ShaderTyping.Action
import ShaderTyping.Call
import ShaderTyping.Checker
import ShaderTyping.Checker.Alias
import ShaderTyping.Checker.External
import ShaderTyping.Checker.Variable
import ShaderTyping.Declaration
import ShaderTyping.Diagnostic
import ShaderTyping.Draft
import ShaderTyping.Environment.Basic
import ShaderTyping.Environment.Resolve
import ShaderTyping.Expr
import ShaderTyping.Frame
import ShaderTyping.Generalization
import ShaderTyping.Inference
import ShaderTyping.Inference.Error
import ShaderTyping.Inference.Rules
import ShaderTyping.Operator
import ShaderTyping.Primitive
import ShaderTyping.Program
import ShaderTyping.Proofs.Canonical
import ShaderTyping.Proofs.Table
import ShaderTyping.Scope
import ShaderTyping.Site
import ShaderTyping.Trace
import ShaderTyping.Ty.Basic
import ShaderTyping.Ty.Fields
import ShaderTyping.Ty.Order
import ShaderTyping.Ty.Substitution
import ShaderTyping.Ty.Text
import ShaderTyping.Ty.Union
import ShaderTyping.Unification
import ShaderTyping.Workspace
import ShaderTyping.Proofs.Bindings
import ShaderTyping.Proofs.Resolution
import ShaderTyping.Proofs.Occurs
import ShaderTyping.Proofs.Run
import ShaderTyping.Proofs.Operations
import ShaderTyping.Proofs.Restoration
import ShaderTyping.Proofs.Reachable
import ShaderTyping.Proofs.OccursCheck
import ShaderTyping.Proofs.Expansion
import ShaderTyping.Proofs.Meet
import ShaderTyping.Proofs.Agreement
import ShaderTyping.Proofs.SkippedDeclarations
import ShaderTyping.Proofs.Invariant
import ShaderTyping.Proofs.Preservation
import ShaderTyping.Proofs.InferencePreservation
import ShaderTyping.Proofs.Descent
import ShaderTyping.Proofs.Termination
import ShaderTyping.Proofs.MostGeneral
import ShaderTyping.Proofs.AliasSearch
import ShaderTyping.Proofs.AliasCheck
import ShaderTyping.Proofs.CheckedPrograms
import ShaderTyping.Proofs.CheckedInference
import ShaderTyping.Proofs.Closing
import ShaderTyping.Proofs.TypedPrograms
import ShaderTyping.Proofs.Snapshots
import ShaderTyping.Proofs.Composition
import ShaderTyping.Proofs.MonomorphicVariables
import ShaderTyping.Proofs.Visits
import ShaderTyping.Proofs.Quantification
import ShaderTyping.Proofs.GeneralizedTypes
import ShaderTyping.Proofs.Renaming
import ShaderTyping.Proofs.Instantiation
import ShaderTyping.Proofs.InstantiatedTypes
import ShaderTyping.Proofs.CalmRuns
import ShaderTyping.Proofs.FollowingRules
import ShaderTyping.Proofs.ParameterTypes
import ShaderTyping.Proofs.KnownTypes
import ShaderTyping.Proofs.ExternalSites
import ShaderTyping.Proofs.DeclarationTypes
import ShaderTyping.Proofs.FailedDeclarations
import ShaderTyping.Proofs.WellFormedTypes
import ShaderTyping.Proofs.AdjustedRuns
import ShaderTyping.Proofs.AdjustedInference
import ShaderTyping.Proofs.UntracedRuns
import ShaderTyping.Proofs.Tracing
import ShaderTyping.Proofs.Endings
import ShaderTyping.Proofs.Representatives
import ShaderTyping.Proofs.SuccessfulUnification
import ShaderTyping.Proofs.SymmetricUnification
import ShaderTyping.Proofs.ConstantReferences
import ShaderTyping.Proofs.RepeatedGeneralization
import ShaderTyping.Proofs.GroundUnification
import ShaderTyping.Proofs.OverloadResolution
import ShaderTyping.Proofs.ExpandedAnnotations
import ShaderTyping.Proofs.StructuralOrder
import ShaderTyping.Proofs.ConcreteTypes
import ShaderTyping.Proofs.ElementOrder
import ShaderTyping.Proofs.DataTypes
import ShaderTyping.Proofs.DataExpressions
import ShaderTyping.Proofs.Footprint
import ShaderTyping.Proofs.DepthLimit
import ShaderTyping.Proofs.StableTypes
import ShaderTyping.Proofs.NearestDeclarations
import ShaderTyping.Proofs.ShownPrimitives
import ShaderTyping.Proofs.CountedParts
import ShaderTyping.Proofs.WrittenTypes
import ShaderTyping.Proofs.DisplayNames
import ShaderTyping.Proofs.TextPieces
import ShaderTyping.Proofs.UniqueReading
