import Mathlib.Data.List.Flatten
import ShaderTyping.Proofs.KnownTypes
import ShaderTyping.Proofs.TypedPrograms

namespace ShaderTyping

/-!
# Outside values with one type

The check of attributes (or uniforms) compares the types that the uses of one name
have at that moment.  It skips declarations that have no type then and uses whose
type still depends on a type variable.  What it has compared stays compared: types
without type variables are known, so they are still recorded when the program has
passed all checks, and types that were equal expand to the same.  What it has skipped
is not compared later.  A declaration that fails in the pass of the check can leave
all its types behind, and the program passes although it disagrees with another one.
-/

open Environment (fails inferable Run KeepsKnown)

namespace ExternalUse

variable {kind : ExternalKind} {name : String} {uses : List ExternalUse}

/-- There is no conflict exactly if all uses have one type. -/
theorem conflict?_eq_none_iff :
    conflict? kind name uses = none ↔
      ∀ first ∈ uses, ∀ second ∈ uses, first.ty = second.ty := by
  cases uses with
  | nil => simp [conflict?, distinctTypes, List.eraseDupsBy, List.eraseDupsBy.loop]
  | cons head rest =>
      have single :
          conflict? kind name (head :: rest) = none ↔
            rest.filter (fun use => decide ((use.ty == head.ty) = false)) = [] := by
        unfold conflict? distinctTypes
        rw [List.eraseDupsBy_cons]
        cases rest.filter (fun use => decide ((use.ty == head.ty) = false)) with
        | nil => simp [List.eraseDupsBy, List.eraseDupsBy.loop]
        | cons other more => simp [List.eraseDupsBy_cons]
      have same : rest.filter (fun use => decide ((use.ty == head.ty) = false)) = [] ↔
          ∀ use ∈ head :: rest, use.ty = head.ty := by
        simp [List.filter_eq_nil_iff]
      rw [single, same]
      constructor
      · intro all first isFirst second isSecond
        rw [all first isFirst, all second isSecond]
      · intro all use isUse
        exact all use isUse head List.mem_cons_self

/-- A name that is added is listed, and so are the names before. -/
theorem mem_insertName {name other : String} {names : List String} :
    other ∈ insertName name names ↔ other = name ∨ other ∈ names := by
  induction names with
  | nil => simp [insertName]
  | cons first rest inductionHypothesis =>
      unfold insertName
      split
      · rw [List.mem_cons]
      · split
        · rename_i same
          rw [List.mem_cons, same]
          tauto
        · rw [List.mem_cons, inductionHypothesis, List.mem_cons]
          tauto

/-- A name is listed if it is that of a use. -/
theorem mem_names {name : String} :
    name ∈ names uses ↔ ∃ use ∈ uses, use.name = name := by
  induction uses with
  | nil => simp [names]
  | cons use rest inductionHypothesis =>
      rw [names, List.foldr_cons, mem_insertName, List.exists_mem_cons_iff]
      exact or_congr eq_comm inductionHypothesis

/-- There are no conflicts exactly if the uses of each name have one type. -/
theorem conflicts_eq_nil_iff :
    conflicts kind uses = [] ↔
      ∀ first ∈ uses, ∀ second ∈ uses, first.name = second.name → first.ty = second.ty := by
  rw [conflicts, List.filterMap_eq_nil_iff]
  simp only [mem_names, conflict?_eq_none_iff, List.mem_filter, beq_iff_eq]
  constructor
  · intro agree first isFirst second isSecond sameName
    exact agree first.name ⟨first, isFirst, rfl⟩ first ⟨isFirst, rfl⟩ second
      ⟨isSecond, sameName.symm⟩
  · rintro agree name - first ⟨isFirst, rfl⟩ second ⟨isSecond, sameName⟩
    exact agree first isFirst second isSecond sameName.symm

end ExternalUse

namespace Environment

variable {env seen final : Environment} {kind : ExternalKind}

/--
Any two uses of one name that have a type without type variables, in some declarations
and some environment, have the same type in the final environment.
-/
def UsesAgree
    (final seen : Environment)
    (kind : ExternalKind)
    (declarations : List (Declaration Expr)) : Prop :=
  ∀ first ∈ declarations.flatMap fun declaration => declaration.value.nodes,
    ∀ second ∈ declarations.flatMap fun declaration => declaration.value.nodes,
      ∀ name ascription ascription',
        first.form.external? = some (kind, name, ascription) →
        second.form.external? = some (kind, name, ascription') →
        (seen.groundType? first.id).isSome →
        (seen.groundType? second.id).isSome →
        ∃ ty,
          final.expandedType? first.id = some ty ∧ final.expandedType? second.id = some ty

/-- All nodes are looked at if their identities are distinct. -/
theorem eraseDupsBy_id
    {nodes : List Expr}
    (distinct : (nodes.map Expr.id).Nodup) :
    nodes.eraseDupsBy (fun first second => first.id == second.id) = nodes := by
  induction nodes with
  | nil => rfl
  | cons node rest inductionHypothesis =>
      obtain ⟨isNew, restDistinct⟩ := List.nodup_cons.mp distinct
      have kept : rest.filter (fun other => decide ((other.id == node.id) = false)) = rest := by
        refine List.filter_eq_self.mpr fun other isOther => ?_
        have different : other.id ≠ node.id := fun same =>
          isNew (same ▸ List.mem_map_of_mem isOther)
        simpa using different
      rw [List.eraseDupsBy_cons, kept, inductionHypothesis restDistinct]

/-- A node with a type without type variables is among the uses. -/
theorem mem_externalUses
    {declarations : List (Declaration Expr)}
    (distinct :
      ((declarations.flatMap fun declaration => declaration.value.nodes).map Expr.id).Nodup)
    {node : Expr}
    (isNode : node ∈ declarations.flatMap fun declaration => declaration.value.nodes)
    {name : String}
    {ascription : Option Ty}
    (isExternal : node.form.external? = some (kind, name, ascription))
    {ty : Ty}
    (isGround : env.groundType? node.id = some ty) :
    ⟨name, node.site, ty⟩ ∈ env.externalUses kind declarations := by
  have isUse : node ∈ (declarations.flatMap fun declaration => declaration.value.nodes).filter
      (refersTo kind) :=
    List.mem_filter.mpr ⟨isNode, by simp [refersTo, isExternal]⟩
  unfold externalUses
  dsimp only
  rw [eraseDupsBy_id (distinct.sublist (List.Sublist.map _ List.filter_sublist))]
  exact List.mem_filterMap.mpr ⟨node, isUse, by simp [externalUse?, isExternal, isGround]⟩

/-- The declarations that have a type have distinct nodes if the declared ones do. -/
theorem nodup_of_inferable
    (distinct : env.exprIds.Nodup)
    {declarations : List (Declaration Expr)}
    {start after : Environment}
    (inferred :
      (inferable env.declared.values.entries : Action ε (List (Declaration Expr))) start =
        .ok declarations after) :
    ((declarations.flatMap fun declaration => declaration.value.nodes).map Expr.id).Nodup := by
  obtain ⟨_, _, isSublist, _⟩ := Program.foldlM_inferNext_eq_ok inferred ⟨[], []⟩
  refine List.Nodup.sublist ((isSublist.flatMap _).map Expr.id) ?_
  rw [List.map_flatMap]
  exact distinct

/-- A type about which nothing is known has a type variable. -/
theorem isUnbound_eq_false_of_expand
    (consistent : env.frames.Consistent)
    (acyclic : env.Acyclic)
    {ty : Ty}
    (noVars : (env.expand ty).vars.all Var.isLength = true) :
    env.isUnbound ty = false := by
  rw [← (Grows.refl env).expand_follow acyclic ty] at noVars
  cases followed : env.follow ty with
  | placeholder scope id =>
      have unbound := binding?_of_follow_eq consistent followed
      rw [followed, expand_eq_subst acyclic] at noVars
      simp [expansion, unbound, Ty.vars, Ty.leafVars, Var.isLength] at noVars
  | _ => simp [isUnbound, followed, Ty.isPlaceholder]

/-- The type of a use that was compared is still recorded and expands to the same. -/
theorem expandedType?_of_groundType?
    (consistent : seen.frames.Consistent)
    (acyclic : seen.Acyclic)
    {id : ExprId}
    (keeps : ∀ recorded, KeepsKnown id recorded seen final)
    {ty : Ty}
    (isGround : seen.groundType? id = some ty) :
    final.expandedType? id = some (final.expand ty) := by
  obtain ⟨isType, noVars⟩ := Option.filter_eq_some_iff.mp isGround
  obtain ⟨resolved, isTyped, rfl⟩ := Option.map_eq_some_iff.mp isType
  obtain ⟨recorded, isRecorded, rfl⟩ := Option.map_eq_some_iff.mp isTyped
  rw [(Grows.refl seen).expand_resolve consistent consistent acyclic] at noVars ⊢
  have run := (keeps recorded).run
  have finalConsistent := run.consistent consistent
  have finalAcyclic := run.acyclic consistent acyclic
  have known : seen.KnownType id recorded :=
    ⟨isRecorded, isUnbound_eq_false_of_expand consistent acyclic noVars⟩
  rw [(run.grows consistent).expand_expand consistent finalConsistent finalAcyclic]
  exact ((keeps recorded).known consistent known).expandedType?_eq finalConsistent finalAcyclic

/-- Uses that were compared without a conflict have the same type from then on. -/
theorem usesAgree_of_conflicts_eq_nil
    (consistent : seen.frames.Consistent)
    (acyclic : seen.Acyclic)
    (keeps : ∀ id recorded, KeepsKnown id recorded seen final)
    {declarations : List (Declaration Expr)}
    (distinct :
      ((declarations.flatMap fun declaration => declaration.value.nodes).map Expr.id).Nodup)
    (agree : ExternalUse.conflicts kind (seen.externalUses kind declarations) = []) :
    final.UsesAgree seen kind declarations := by
  intro first isFirst second isSecond name ascription ascription' firstUses secondUses firstGround
    secondGround
  obtain ⟨ty, isGround⟩ := Option.isSome_iff_exists.mp firstGround
  obtain ⟨ty', isGround'⟩ := Option.isSome_iff_exists.mp secondGround
  have same : ty = ty' :=
    ExternalUse.conflicts_eq_nil_iff.mp agree
      _ (mem_externalUses distinct isFirst firstUses isGround)
      _ (mem_externalUses distinct isSecond secondUses isGround') rfl
  subst same
  exact ⟨final.expand ty,
    expandedType?_of_groundType? consistent acyclic (keeps _) isGround,
    expandedType?_of_groundType? consistent acyclic (keeps _) isGround'⟩

end Environment

/-- The check of a kind of outside values has inferred the program and compared uses. -/
theorem exists_inferable_of_problems
    {kind : ExternalKind}
    {env after : Environment}
    {problems : List Diagnostic}
    (validated :
      (Checker.externalConsistency kind).problems env =
        (.ok problems after : Outcome ε (List Diagnostic))) :
    ∃ kept,
      (inferable env.declared.values.entries : Action ε (List (Declaration Expr))) env =
          .ok kept after ∧
        problems = ExternalUse.conflicts kind (after.externalUses kind kept) := by
  obtain ⟨_, _, isRead, inferring⟩ := Action.bind_eq_ok.mp validated
  cases isRead
  obtain ⟨kept, middle, inferred, comparing⟩ := Action.bind_eq_ok.mp inferring
  cases comparing
  exact ⟨kept, inferred, rfl⟩

/-- The stages of a program that passes all checks, with what lasts from each check on. -/
theorem exists_stages_of_checkProgram
    {env final : Environment}
    {program : TypedProgram}
    (passed : checkProgram env = .ok program final) :
    env.aliasProblems = [] ∧
      ∃ attributes afterAttributes uniforms afterUniforms,
        (inferable env.declared.values.entries :
            Action Report (List (Declaration Expr))) env = .ok attributes afterAttributes ∧
          (inferable afterAttributes.declared.values.entries :
            Action Report (List (Declaration Expr))) afterAttributes =
              .ok uniforms afterUniforms ∧
          ExternalUse.conflicts .attribute (afterAttributes.externalUses .attribute attributes) =
            [] ∧
          ExternalUse.conflicts .uniform (afterUniforms.externalUses .uniform uniforms) = [] ∧
          ∀ id ty, KeepsKnown id ty afterUniforms final := by
  obtain ⟨_, middle, checks, inferring⟩ := Action.bind_eq_ok.mp passed
  obtain ⟨_, later, inferred, closing⟩ := Action.bind_eq_ok.mp inferring
  obtain ⟨_, _, closed, isProgram⟩ := Action.bind_eq_ok.mp closing
  cases isProgram
  obtain ⟨aliasProblems, _, aliases, afterAliases⟩ := Checker.runAfter_cons_eq_ok checks
  cases aliases
  obtain ⟨undefined, _, references, afterVariables⟩ := Checker.runAfter_cons_eq_ok afterAliases
  cases references
  obtain ⟨_, afterAttributes, attributeCheck, remaining⟩ :=
    Checker.runAfter_cons_eq_ok afterVariables
  obtain ⟨attributes, attributesInferred, rfl⟩ := exists_inferable_of_problems attributeCheck
  obtain ⟨_, afterUniforms, uniformCheck, ended⟩ := Checker.runAfter_cons_eq_ok remaining
  obtain ⟨uniforms, uniformsInferred, rfl⟩ := exists_inferable_of_problems uniformCheck
  have nothingFound := Checker.found_of_runAfter_eq_ok ended
  simp only [List.nil_append, List.append_eq_nil_iff, List.map_eq_nil_iff] at nothingFound
  obtain ⟨⟨⟨noAliasProblems, _⟩, noAttributeConflicts⟩, noUniformConflicts⟩ := nothingFound
  refine ⟨noAliasProblems, attributes, afterAttributes, uniforms, afterUniforms,
    attributesInferred, uniformsInferred, noAttributeConflicts, noUniformConflicts,
    fun id ty => ?_⟩
  have checked : KeepsKnown id ty afterUniforms middle :=
    (Checker.runAfter_obeys inferDeclaration_keepsKnown _ _ _).of_eq_ok ended
  have typed : KeepsKnown id ty middle later :=
    (inferProgram_obeys inferDeclaration_keepsKnown _).of_eq_ok inferred
  have isClosed : KeepsKnown id ty later final :=
    (Program.closeDeclarations_obeys .of_quiet _ _).of_eq_ok closed
  exact (checked.trans typed).trans isClosed

/--
In a program that passes all checks, the uses of an attribute or a uniform that its
check compared have the same type in the end.
-/
theorem external_uses_agree_of_compared
    {options : Options}
    {operations : List Operation}
    (declares : ∀ operation ∈ operations, operation.isDeclaration = true)
    {env : Environment}
    (performed : Operation.performAll operations (.empty options) = some env)
    (distinct : env.exprIds.Nodup)
    {program : TypedProgram}
    {final : Environment}
    (passed : checkProgram env = .ok program final) :
    ∃ attributes afterAttributes uniforms afterUniforms,
      (inferable env.declared.values.entries :
          Action Report (List (Declaration Expr))) env = .ok attributes afterAttributes ∧
        (inferable env.declared.values.entries :
          Action Report (List (Declaration Expr))) afterAttributes = .ok uniforms afterUniforms ∧
        final.UsesAgree afterAttributes .attribute attributes ∧
        final.UsesAgree afterUniforms .uniform uniforms := by
  obtain ⟨aliases, attributes, afterAttributes, uniforms, afterUniforms, attributesInferred,
    uniformsInferred, noAttributeConflicts, noUniformConflicts, keeps⟩ :=
    exists_stages_of_checkProgram passed
  have isDeclared := Environment.declared_of_operations declares performed
  -- Inference leaves the declarations alone and what is acyclic acyclic.
  have attributeRun : Run env afterAttributes :=
    (Environment.inferable_obeys inferDeclaration_run _ _).of_eq_ok attributesInferred
  have uniformKeeps (id : ExprId) (ty : Ty) : KeepsKnown id ty afterAttributes afterUniforms :=
    (Environment.inferable_obeys inferDeclaration_keepsKnown _ _).of_eq_ok uniformsInferred
  have uniformRun := (uniformKeeps ⟨0⟩ Ty.int).run
  have consistent := attributeRun.consistent isDeclared.consistent
  have acyclic := attributeRun.acyclic isDeclared.consistent (isDeclared.acyclic aliases)
  have sameDeclared : afterAttributes.declared = env.declared :=
    (Environment.Restored.of_run attributeRun).declared
  rw [sameDeclared] at uniformsInferred
  refine ⟨attributes, afterAttributes, uniforms, afterUniforms, attributesInferred,
    uniformsInferred, ?_, ?_⟩
  · exact Environment.usesAgree_of_conflicts_eq_nil consistent acyclic
      (fun id ty => (uniformKeeps id ty).trans (keeps id ty))
      (Environment.nodup_of_inferable distinct attributesInferred) noAttributeConflicts
  · exact Environment.usesAgree_of_conflicts_eq_nil (uniformRun.consistent consistent)
      (uniformRun.acyclic consistent acyclic) keeps
      (Environment.nodup_of_inferable distinct uniformsInferred) noUniformConflicts

/-! ## Programs that pass -/

namespace SkippedUse

open MutualCalls (node)

/-- The use of the attribute in `f`. -/
def firstUse : Expr :=
  node 7 2 (.external .attribute "p" (some Ty.int))

/-- The use of the attribute that `g` is. -/
def secondUse : Expr :=
  node 8 1 (.external .attribute "p" (some Ty.float))

/--
The program `f = fn x -> if x then f(1) else (attribute p : int)` and
`g = attribute p : float`, where `x` is declared in scope 2.

The types in `f` are recorded before it turns out that the recursive call does not fit,
so the check of attributes skips `f`, and later `f` is a function from `bool` to `int`.
-/
def operations : List Operation :=
  [.newScope .native,
    .newScope ⟨1⟩, .declareVariable ⟨2⟩ "x" (node 1 2 (.parameter ⟨0⟩ 0)),
    .declareVariable ⟨1⟩ "f"
      (node 0 1 (.function [⟨"x", none⟩]
        (node 2 2 (.conditional
          (node 3 2 (.reference "x"))
          (node 4 2 (.call (node 5 2 (.reference "f")) [node 6 2 (.literal (.int 1))]))
          firstUse)))),
    .declareVariable ⟨1⟩ "g" secondUse]

/-- The uses of the attribute outside the native scope. -/
theorem mem_nodes :
    ∃ env,
      Operation.performAll operations (.empty Options.standard) = some env ∧
        ∀ use ∈ [firstUse, secondUse],
          use ∈ (Program.userVariables env).flatMap fun declaration => declaration.value.nodes := by
  have computed :
      (Operation.performAll operations (.empty Options.standard)).map (fun env =>
          ((Program.userVariables env).flatMap fun declaration => declaration.value.nodes).filter
            (Environment.refersTo .attribute)) =
        some [firstUse, secondUse] :=
    rfl
  obtain ⟨env, performed, isUses⟩ := Option.map_eq_some_iff.mp computed
  refine ⟨env, performed, fun use isUse => ?_⟩
  rw [← isUses] at isUse
  exact (List.mem_filter.mp isUse).1

/-- The program passes, and the attribute has two types. -/
theorem computed :
    ((Operation.performAll operations (.empty Options.standard)).map fun env =>
        (decide env.exprIds.Nodup, (checkProgram env).value?.isSome,
          (checkProgram env).final?.map fun final =>
            (final.expandedType? firstUse.id, final.expandedType? secondUse.id))) =
      some (true, true, some (some Ty.int, some Ty.float)) := by
  decide +kernel

end SkippedUse

/-- A program can pass all checks although an attribute has two types in it. -/
theorem checkProgram_accepts_conflicting_uses :
    ∃ operations env program final first second name ascription ascription' ty ty',
      ((∀ operation ∈ operations, operation.isDeclaration = true) ∧
        Operation.performAll operations (.empty Options.standard) = some env ∧
        env.exprIds.Nodup) ∧
      checkProgram env = .ok program final ∧
      (first ∈ (Program.userVariables env).flatMap fun declaration => declaration.value.nodes) ∧
      (second ∈ (Program.userVariables env).flatMap fun declaration => declaration.value.nodes) ∧
      first.form.external? = some (.attribute, name, ascription) ∧
      second.form.external? = some (.attribute, name, ascription') ∧
      (final.expandedType? first.id = some ty ∧ ty.vars = []) ∧
      (final.expandedType? second.id = some ty' ∧ ty'.vars = []) ∧
      ty ≠ ty' := by
  obtain ⟨env, performed, members⟩ := SkippedUse.mem_nodes
  have shown := SkippedUse.computed
  rw [performed] at shown
  simp only [Option.map_some, Option.some.injEq, Prod.mk.injEq, decide_eq_true_eq] at shown
  obtain ⟨distinct, hasValue, types⟩ := shown
  obtain ⟨program, isProgram⟩ := Option.isSome_iff_exists.mp hasValue
  obtain ⟨final, passed⟩ := Outcome.eq_ok_of_value? isProgram
  rw [passed] at types
  simp only [Outcome.final?, Option.map_some, Option.some.injEq, Prod.mk.injEq] at types
  refine ⟨SkippedUse.operations, env, program, final, SkippedUse.firstUse, SkippedUse.secondUse,
    "p", some Ty.int, some Ty.float, Ty.int, Ty.float, ⟨by decide, performed, distinct⟩, passed,
    members _ (by simp), members _ (by simp), rfl, rfl, ⟨types.1, rfl⟩, ⟨types.2, rfl⟩, by decide⟩

namespace ComparedUses

open MutualCalls (node)

/-- A use of the attribute with a type that is written by its name. -/
def firstUse : Expr :=
  node 0 1 (.external .attribute "p" (some (.named ⟨1⟩ "V")))

/-- A use of the attribute with the type itself. -/
def secondUse : Expr :=
  node 2 1 (.external .attribute "p" (some (.array Ty.float (.known 3))))

/-- An array of the attribute. -/
def array : Expr :=
  node 1 1 (.array [secondUse])

/-- `V = float[3]`, `g = attribute p : V` and `h = [attribute p : float[3]]`. -/
def operations : List Operation :=
  [.newScope .native, .declareType ⟨1⟩ "V" (.array Ty.float (.known 3)),
    .declareVariable ⟨1⟩ "g" firstUse, .declareVariable ⟨1⟩ "h" array]

/-- The variables of the program. -/
theorem entries :
    (Operation.performAll operations (.empty Options.standard)).map
        (fun env => env.declared.values.entries) =
      some [⟨⟨1⟩, "g", firstUse⟩, ⟨⟨1⟩, "h", array⟩] :=
  rfl

/-- The program passes, and the check of attributes skips neither variable and neither use. -/
theorem computed :
    ((Operation.performAll operations (.empty Options.standard)).map fun env =>
        (decide env.exprIds.Nodup, (checkProgram env).value?.isSome,
          match (inferable env.declared.values.entries :
            Action Report (List (Declaration Expr))) env with
          | .ok kept after =>
              decide (kept.length = 2 ∧ (after.groundType? firstUse.id).isSome ∧
                (after.groundType? secondUse.id).isSome)
          | _ => false)) =
      some (true, true, true) := by
  decide +kernel

end ComparedUses

/-- Two uses of an attribute agree if one of them is written with the name of the type. -/
theorem external_uses_agree_of_compared_named :
    ∃ env program final ty,
      Operation.performAll ComparedUses.operations (.empty Options.standard) = some env ∧
        checkProgram env = .ok program final ∧
        final.expandedType? ComparedUses.firstUse.id = some ty ∧
        final.expandedType? ComparedUses.secondUse.id = some ty := by
  obtain ⟨env, performed, shown⟩ := Option.map_eq_some_iff.mp ComparedUses.computed
  simp only [Prod.mk.injEq, decide_eq_true_eq] at shown
  obtain ⟨distinct, hasValue, compared⟩ := shown
  obtain ⟨program, isProgram⟩ := Option.isSome_iff_exists.mp hasValue
  obtain ⟨final, passed⟩ := Outcome.eq_ok_of_value? isProgram
  obtain ⟨attributes, afterAttributes, _, _, inferred, _, agree, _⟩ :=
    external_uses_agree_of_compared (by decide) performed distinct passed
  have entries := ComparedUses.entries
  rw [performed, Option.map_some, Option.some.injEq] at entries
  rw [inferred] at compared
  simp only [decide_eq_true_eq] at compared
  obtain ⟨allKept, firstGround, secondGround⟩ := compared
  -- Both variables are kept, so the uses inside them were compared.
  obtain ⟨_, _, isSublist, _⟩ := Program.foldlM_inferNext_eq_ok inferred ⟨[], []⟩
  have nothingSkipped : attributes = env.declared.values.entries :=
    isSublist.eq_of_length (by rw [allKept, entries]; rfl)
  have nodes :
      attributes.flatMap (fun declaration => declaration.value.nodes) =
        [ComparedUses.firstUse, ComparedUses.array, ComparedUses.secondUse] := by
    rw [nothingSkipped, entries]
    rfl
  obtain ⟨ty, isFirst, isSecond⟩ :=
    agree ComparedUses.firstUse (by simp [nodes]) ComparedUses.secondUse (by simp [nodes]) "p" _ _
      rfl rfl firstGround secondGround
  exact ⟨env, program, final, ty, performed, passed, isFirst, isSecond⟩

end ShaderTyping
