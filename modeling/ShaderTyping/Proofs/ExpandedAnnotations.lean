import ShaderTyping.Proofs.MirroredInference
import ShaderTyping.Proofs.Renaming
import ShaderTyping.Proofs.SkippedDeclarations

namespace ShaderTyping

/-!
# References in the types of parameters

`Environment.expandAscription` writes out the references in the type that is written for a
parameter.  Types inferred before and after agree if the references stand for constants and
the program has no overload sets of its own (`inferDeclaration_agrees_if_expanded`).
Otherwise they may not: inference does not look for the variables behind references, and
overload sets are ordered with references in them.
-/

/-- Types that renamings of variables lead to from each other. -/
def Ty.SameUpToRenaming (first second : Ty) : Prop :=
  ∃ rename back : Var → Var, first.rename rename = second ∧ second.rename back = first

/-- Write out the references in the type that is written for a parameter of a function. -/
def Environment.expandAscription (function : ExprId) (position : Nat) (env : Environment) :
    Environment :=
  env.reascribe fun other index ty =>
    if other = function ∧ index = position then env.expand ty else ty

/-! ## References to constants -/

namespace Expr

/-- All types that are written on an expression itself. -/
def writtenTypes (expr : Expr) : List Ty :=
  expr.form.ascriptions ++ expr.form.native?.toList

/-- The type that is written for a parameter of a function. -/
def ascription? (position : Nat) (expr : Expr) : Option Ty :=
  match expr.form with
  | .function params _ => params[position]?.bind Parameter.ascription
  | _ => none

end Expr

/-- Both fail, or both find the same type up to the names of variables. -/
def Outcome.AgreesWith : Outcome ε (Option Ty) → Outcome ε (Option Ty) → Prop
  | .ok found _, .ok found' _ => Option.Rel Ty.SameUpToRenaming found found'
  | .error _ _, .error _ _ => True
  | _, _ => False

/-- Renaming nothing keeps a steady type. -/
theorem Ty.Steady.rename_id {ty : Ty} (steady : ty.Steady) : ty.rename id = ty := by
  refine steady.canonical.subst_eq_self (fun _ => rfl) (fun _ _ => rfl) fun leaf isLeaf => ?_
  cases Ty.isLeaf_of_mem_leaves isLeaf <;> rfl

/-- A steady type is the same as itself up to renaming. -/
theorem Ty.Steady.sameUpToRenaming_refl {ty : Ty} (steady : ty.Steady) : ty.SameUpToRenaming ty :=
  ⟨id, id, steady.rename_id, steady.rename_id⟩

namespace Environment

variable {env : Environment}

/-- In a program of declarations only no placeholder is bound. -/
theorem Declared.unbound (declared : env.Declared) (id : PlaceholderId) :
    env.binding? id = none := by
  rw [binding?, declared.frames]
  exact FrameStack.placeholder?_empty id

/-- Expanding writes out the references in a type, if all of them stand for constants. -/
theorem Declared.matches_expand
    (declared : env.Declared)
    (acyclic : env.Acyclic)
    {ty : Ty}
    (steady : ty.Steady)
    (constant :
      ∀ reference ∈ ty.references, (env.declared.meaning reference.1 reference.2).Constant) :
    (ofDeclarations env.declared).Matches ty (env.expand ty) := by
  have consistent : env.frames.Consistent := declared.frames ▸ FrameStack.Consistent.empty
  have unfolds : env.expand ty = (ofDeclarations env.declared).unfold ty := by
    rw [expand_eq_subst acyclic, unfold]
    refine Ty.subst_congr_of_mem (fun length _ => ?_) fun leaf isLeaf => ?_
    · refine resolveLength_congr FrameStack.Consistent.empty consistent (fun id => ?_) length
      rw [declared.frames]
      rfl
    · cases Ty.isLeaf_of_mem_leaves isLeaf with
      | primitive | parametric => rfl
      | placeholder scope id =>
          simp only [Ty.subst_placeholder, expansion, declared.unbound]
          rfl
      | named scope name =>
          have isConstant := constant (scope, name) (List.mem_filterMap.mpr ⟨_, isLeaf, rfl⟩)
          rw [← expand_eq_subst acyclic, expand_named_of_constant consistent acyclic isConstant]
          exact (unfold_named_of_constant isConstant).symm
  rw [unfolds]
  refine ⟨steady, steady_unfold steady, ?_⟩
  exact ((Grows.refl _).unfold_unfold FrameStack.Consistent.empty ty).symm

/-- Writing out references to constants leaves every expression plain. -/
theorem Declared.plain_expandAscription
    (declared : env.Declared)
    (acyclic : env.Acyclic)
    {node : Expr}
    (written : ∀ ty ∈ node.writtenTypes, ty.Steady)
    (noUnion : ∀ options, node.form ≠ .union options)
    {function : ExprId}
    {position : Nat}
    (constant :
      node.id = function →
      ∀ ty ∈ node.ascription? position, ∀ reference ∈ ty.references,
        (env.declared.meaning reference.1 reference.2).Constant) :
    node.Plain (ofDeclarations env.declared).Matches fun other index ty =>
      if other = function ∧ index = position then env.expand ty else ty := by
  unfold Expr.Plain
  unfold Expr.writtenTypes at written
  unfold Expr.ascription? at constant
  cases isForm : node.form with
  | function params body =>
      rw [isForm] at written constant
      refine List.forall₂_iff_get.mpr ⟨by simp [Parameter.reascribe], fun index bound _ => ?_⟩
      simp only [Parameter.reascribe, List.get_eq_getElem, List.getElem_mapIdx]
      cases isWritten : params[index].ascription with
      | none => exact .none
      | some ty =>
          have steady : ty.Steady := written ty (List.mem_append_left _
            (List.mem_filterMap.mpr ⟨_, List.getElem_mem bound, isWritten⟩))
          by_cases isChanged : node.id = function ∧ index = position
          · obtain ⟨isFunction, rfl⟩ := isChanged
            have isAscription : ty ∈ params[index]?.bind Parameter.ascription := by
              rw [List.getElem?_eq_getElem bound]
              exact isWritten
            have alike :=
              declared.matches_expand acyclic steady (constant isFunction ty isAscription)
            simpa [isFunction] using Option.Rel.some alike
          · simpa [isChanged] using Option.Rel.some (Matches.refl steady)
  | external kind name ascription =>
      rw [isForm] at written
      exact fun ty isWritten =>
        written ty (List.mem_append_left _ (Option.mem_toList.mpr isWritten))
  | native ty =>
      rw [isForm] at written
      exact written ty (List.mem_append_right _ (List.mem_singleton_self ty))
  | union options => exact absurd isForm (noUnion options)
  | _ => trivial

/-- What is written for parameters does not bear on what types stand for. -/
theorem Sound.reascribe (sound : env.Sound) (change : ExprId → Nat → Ty → Ty) :
    (env.reascribe change).Sound where
  consistent := sound.consistent
  acyclic := sound.acyclic.congr fun leaf => by cases leaf <;> rfl
  definitions := sound.definitions

/-- A program of declarations without cycles, whose definitions are steady, is sound. -/
theorem Declared.sound
    (declared : env.Declared)
    (acyclic : env.Acyclic)
    (definitions : ∀ declaration ∈ env.declared.types.entries, declaration.value.Steady) :
    env.Sound where
  consistent := declared.frames ▸ FrameStack.Consistent.empty
  acyclic := acyclic
  definitions isDefined := by
    obtain ⟨declaration, isFound, rfl⟩ :=
      Option.map_eq_some_iff.mp (local?_of_definition? isDefined)
    exact definitions declaration (List.mem_of_find?_eq_some isFound)

/-- A declared program mirrors the one with references to constants written out. -/
theorem Declared.mirroring_expandAscription
    (declared : env.Declared)
    (acyclic : env.Acyclic)
    (definitions : ∀ declaration ∈ env.declared.types.entries, declaration.value.Steady)
    (written : ∀ node ∈ env.declared.nodes, ∀ ty ∈ node.writtenTypes, ty.Steady)
    (noUnions : ∀ node ∈ env.declared.nodes, ∀ options, node.form ≠ .union options)
    {function : ExprId}
    {position : Nat}
    (constant :
      ∀ node ∈ env.declared.nodes, node.id = function →
        ∀ ty ∈ node.ascription? position, ∀ reference ∈ ty.references,
          (env.declared.meaning reference.1 reference.2).Constant) :
    Mirroring
      (fun other index ty => if other = function ∧ index = position then env.expand ty else ty)
      env.options.maxDepth env (env.expandAscription function position) where
  sound := declared.sound acyclic definitions
  sound' := (declared.sound acyclic definitions).reascribe _
  program := rfl
  functions := declared.functions
  plain node member :=
    declared.plain_expandAscription acyclic (written node member) (noUnions node member)
      (constant node member)
  snapshot := by
    rw [expandAscription, reascribe, declared.frames, FrameStack.snapshot_empty]
    exact ⟨fun _ => .none, fun _ => rfl, fun _ => rfl, fun _ => .none, fun _ => .none⟩
  context := by
    rw [expandAscription, reascribe, declared.context]
    exact
      { activeParams := .nil
        inProgress := rfl
        externals := rfl
        depth := rfl
        provisionalSteady := by simp [Context.idle]
        externalsSteady := by simp [Context.idle] }
  fresh := rfl
  maxDepth := rfl
  levels := Nat.le_add_left _ _

end Environment

/--
References to constants may be written out in the type of a parameter: a declared variable keeps
its type, or keeps having none.
-/
theorem inferDeclaration_agrees_if_expanded
    {env : Environment}
    (declared : env.Declared)
    (acyclic : env.Acyclic)
    (definitions : ∀ declaration ∈ env.declared.types.entries, declaration.value.Steady)
    (written : ∀ node ∈ env.declared.nodes, ∀ ty ∈ node.writtenTypes, ty.Steady)
    (noUnions : ∀ node ∈ env.declared.nodes, ∀ options, node.form ≠ .union options)
    {function : ExprId}
    {position : Nat}
    (constant :
      ∀ node ∈ env.declared.nodes, node.id = function →
        ∀ ty ∈ node.ascription? position, ∀ reference ∈ ty.references,
          (env.declared.meaning reference.1 reference.2).Constant)
    (scope : ScopeId)
    (name : String) :
    (inferDeclaration scope name env).AgreesWith
      (inferDeclaration scope name (env.expandAscription function position)) := by
  have mirrors :=
    declared.mirroring_expandAscription acyclic definitions written noUnions constant
  have parallel := inferDeclaration_parallel mirrors scope name
  unfold Action.Parallel at parallel
  generalize inferDeclaration scope name env = outcome,
    inferDeclaration scope name (env.expandAscription function position) = outcome' at parallel ⊢
  cases parallel with
  | @ok _ _ _ found _ _ _ _ values =>
      obtain ⟨rfl, steady⟩ := values
      cases found with
      | none => exact .none
      | some ty => exact .some (steady ty rfl).sameUpToRenaming_refl
  | error => trivial
  | stopped _ stops => exact stops.elim
  | stopped' _ stops => exact stops.elim

/-! ## References to arrays -/

namespace ArrayReference

open MutualCalls (node)

/-- `fn x : V -> x`, where `x` is declared in scope 2. -/
def identity : Expr :=
  node 0 1 (.function [⟨"x", some (.named ⟨1⟩ "V")⟩] (node 2 2 (.reference "x")))

/-- The program `type V = int[length]` and `f = fn x : V -> x`. -/
def declarations (length : Length) : List Operation :=
  [.newScope .native, .declareType ⟨1⟩ "V" (.array Ty.int length), .newScope ⟨1⟩,
    .declareVariable ⟨2⟩ "x" (node 1 2 (.parameter ⟨0⟩ 0)),
    .declareVariable ⟨1⟩ "f" identity]

/-- The program with arrays of any length. -/
def operations : List Operation :=
  .freshLength :: declarations (.var ⟨0⟩)

/-- Whether an expression is an overload set. -/
def isUnion (expr : Expr) : Bool :=
  match expr.form with
  | .union _ => true
  | _ => false

/-- The types of the function with the reference and with the array type itself. -/
theorem computed :
    (Operation.performAll operations (Environment.empty Options.standard)).map
      (fun env =>
        ((decide env.exprIds.Nodup, env.declared.types.entries.map Declaration.value),
          (inferDeclaration ⟨1⟩ "f" env).value?,
          (inferDeclaration ⟨1⟩ "f" (env.expandAscription ⟨0⟩ 0)).value?)) =
      some
        ((true, [.array Ty.int (.var ⟨0⟩)]),
          some (some (.function (.array Ty.int (.var ⟨0⟩)) (.array Ty.int (.var ⟨1⟩)))),
          some (some (.function (.array Ty.int (.var ⟨0⟩)) (.array Ty.int (.var ⟨0⟩))))) := by
  decide +kernel

/-- What is written in the program with arrays of a fixed length, and the type of its function. -/
theorem computed_fixed :
    (Operation.performAll (declarations (.known 2)) (Environment.empty Options.standard)).map
      (fun env =>
        ((env.declared.types.entries.map Declaration.value,
            env.declared.nodes.flatMap Expr.writtenTypes,
            env.declared.nodes.filterMap (Expr.ascription? 0)),
          env.declared.nodes.any isUnion,
          env.declared.meaning ⟨1⟩ "V",
          (inferDeclaration ⟨1⟩ "f" env).value?)) =
      some
        (([.array Ty.int (.known 2)], [.named ⟨1⟩ "V"], [.named ⟨1⟩ "V"]),
          false,
          .array Ty.int (.known 2),
          some (some (.function (.array Ty.int (.known 2)) (.array Ty.int (.known 2))))) := by
  decide +kernel

end ArrayReference

/-- Arrays of a fixed length may be written out. -/
theorem inferDeclaration_agrees_if_expanded_fixedLength :
    ∃ env,
      Operation.performAll (ArrayReference.declarations (.known 2)) (.empty Options.standard) =
          some env ∧
        (inferDeclaration ⟨1⟩ "f" env).value? =
            some (some (.function (.array Ty.int (.known 2)) (.array Ty.int (.known 2)))) ∧
          (inferDeclaration ⟨1⟩ "f" env).AgreesWith
            (inferDeclaration ⟨1⟩ "f" (env.expandAscription ⟨0⟩ 0)) := by
  obtain ⟨env, performed, shown⟩ := Option.map_eq_some_iff.mp ArrayReference.computed_fixed
  simp only [Prod.mk.injEq] at shown
  obtain ⟨⟨isDefined, isWritten, isAscription⟩, noUnions, meaning, inferred⟩ := shown
  have declared : env.Declared := Environment.declared_of_operations (by decide) performed
  have steady : (Ty.array Ty.int (.known 2)).Steady := .array _ (.primitive .int)
  have definitions : ∀ declaration ∈ env.declared.types.entries, declaration.value.Steady := by
    intro declaration isDeclared
    have isDefinition := List.mem_map_of_mem (f := Declaration.value) isDeclared
    rw [isDefined, List.mem_singleton] at isDefinition
    exact isDefinition ▸ steady
  have acyclic : env.Acyclic := by
    refine Environment.acyclic_of_no_references declared.unbound fun declaration isDeclared => ?_
    have isDefinition := List.mem_map_of_mem (f := Declaration.value) isDeclared
    rw [isDefined, List.mem_singleton] at isDefinition
    rw [isDefinition]
    decide
  refine ⟨env, performed, inferred,
    inferDeclaration_agrees_if_expanded declared acyclic definitions ?_ ?_ ?_ ⟨1⟩ "f"⟩
  · intro node member ty isOne
    have isReference := List.mem_flatMap.mpr ⟨node, member, isOne⟩
    rw [isWritten, List.mem_singleton] at isReference
    exact isReference ▸ .named _ _
  · intro node member options isUnion
    have isNone := List.any_eq_false.mp noUnions node member
    simp [ArrayReference.isUnion, isUnion] at isNone
  · intro node member _ ty isOne reference isReference
    have isNamed := List.mem_filterMap.mpr ⟨node, member, isOne⟩
    rw [isAscription, List.mem_singleton] at isNamed
    rw [isNamed] at isReference
    cases List.mem_singleton.mp isReference
    rw [meaning]
    exact .array 2 (.primitive .int)

/--
A function that returns its parameter has another type if the reference is written out: behind the
reference the length variable is not found, so the two ends of the function get different lengths.
-/
theorem inferDeclaration_differs_if_expanded :
    ∃ (env : Environment) (ty ty' : Ty),
      (Operation.performAll ArrayReference.operations (.empty Options.standard) = some env ∧
        env.exprIds.Nodup ∧ env.Acyclic) ∧
      (inferDeclaration ⟨1⟩ "f" env).value? = some (some ty) ∧
      (inferDeclaration ⟨1⟩ "f" (env.expandAscription ⟨0⟩ 0)).value? = some (some ty') ∧
      ¬ ty.SameUpToRenaming ty' := by
  obtain ⟨env, performed, shown⟩ := Option.map_eq_some_iff.mp ArrayReference.computed
  simp only [Prod.mk.injEq, decide_eq_true_eq] at shown
  obtain ⟨⟨distinct, definitions⟩, inferred, inferred'⟩ := shown
  have unbound : ∀ id, env.binding? id = none := by
    cases performed
    exact FrameStack.placeholder?_empty
  have acyclic : env.Acyclic := by
    refine Environment.acyclic_of_no_references unbound fun declaration isDeclared => ?_
    have isDefinition := List.mem_map_of_mem (f := Declaration.value) isDeclared
    rw [definitions, List.mem_singleton] at isDefinition
    rw [isDefinition]
    decide
  refine ⟨env, _, _, ⟨performed, distinct, acyclic⟩, inferred, inferred', ?_⟩
  rintro ⟨rename, back, _, isBack⟩
  simp only [Ty.rename, Ty.subst_function, Ty.subst_array, Ty.function.injEq, Ty.array.injEq]
    at isBack
  have sameLength := isBack.1.2.symm.trans isBack.2.2
  simp at sameLength

end ShaderTyping
