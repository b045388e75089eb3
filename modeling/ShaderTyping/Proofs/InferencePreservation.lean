import ShaderTyping.Proofs.Preservation
import ShaderTyping.Proofs.Reachable

namespace ShaderTyping

/-!
# Inference keeps properties of types

The rules of inference, the inference of expressions and programs and the checks
keep every `Ty.Invariant`.  So each environment that is reached by operations on
types with the property satisfies it.
-/

open ShaderTyping.Action (Keeps)

variable {rule : Ty.Invariant}

/-! ## Rules -/

namespace Inference

/-- Inference keeps a property that the types in an expression have. -/
def InferKeeps (rule : Ty.Invariant) (infer : Infer) : Prop :=
  ∀ {expr : Expr}, rule.holdsExpr expr → Keeps rule (infer expr) rule.holds

variable {infer : Infer}

/-- Blaming an expression for an error keeps the property. -/
theorem blame_keeps
    {action : Action UnifyError α}
    {post : α → Prop}
    (expr : Expr)
    (keeps : Keeps rule action post) :
    Keeps rule (blame expr action) post :=
  .mapError keeps

/-- Trying two types with the property keeps it. -/
theorem unifyEither_keeps
    {first second ty : Ty}
    (firstHolds : rule.holds first)
    (secondHolds : rule.holds second)
    (holds : rule.holds ty) :
    Keeps rule (unifyEither first second ty) rule.holds := by
  apply Keeps.bind (.attempt (.transaction (unify_keeps firstHolds holds)))
  intro result agreed
  cases result with
  | ok ty => exact .pure (agreed ty rfl)
  | error cause => exact .mapError (.transaction (unify_keeps secondHolds holds))

/-- The types recorded for parameters are written ones with the property or fresh placeholders. -/
theorem openParameters_keeps
    (function : ExprId)
    (scope : ScopeId)
    (position : Nat)
    {params : List Parameter}
    (paramsHold : ∀ param ∈ params, ∀ ty ∈ param.ascription, rule.holds ty) :
    Environment.Keeps rule (openParameters function scope position params)
      fun types => ∀ ty ∈ types, rule.holds ty := by
  induction params generalizing position with
  | nil => exact .pure (by simp)
  | cons param rest inductionHypothesis =>
      obtain ⟨paramHolds, restHold⟩ := List.forall_mem_cons.mp paramsHold
      have recorded {ty : Ty} (holds : rule.holds ty) :
          Environment.Keeps rule
            (do
              modify (Environment.recordParameter function position ty)
              let others ← openParameters function scope (position + 1) rest
              pure (ty :: others))
            fun types => ∀ ty ∈ types, rule.holds ty := by
        refine .bind (.modify fun satisfied => ?_) fun _ _ => ?_
        · exact satisfied.recordParameter holds function position
        · apply Environment.Keeps.bind (inductionHypothesis _ restHold)
          intro _ othersHold
          exact .pure (List.forall_mem_cons.mpr ⟨holds, othersHold⟩)
      unfold openParameters
      cases isWritten : param.ascription with
      | some ascription => exact recorded (paramHolds ascription isWritten)
      | none =>
          have fresh := Environment.freshPlaceholder_keeps rule scope
          exact .bind fresh fun _ holds => recorded holds

/-- The type of an outside value is written or a fresh placeholder. -/
theorem inferExternal_keeps
    (expr : Expr)
    {ascription : Option Ty}
    (holds : ∀ ty ∈ ascription, rule.holds ty) :
    Environment.Keeps rule (inferExternal expr ascription) rule.holds := by
  cases ascription with
  | some ascription => exact Environment.generalize_keeps (holds ascription rfl)
  | none =>
      apply Environment.Keeps.bind (Environment.freshPlaceholder_keeps rule _)
      intro _ freshHolds
      refine .bind (.modify fun satisfied => ?_) fun _ _ => .pure freshHolds
      exact ⟨satisfied.declared, satisfied.frames, satisfied.inProgress⟩

/-- The parameter that a function type shows has the property. -/
theorem parameterAt?_holds
    {env : Environment}
    (satisfied : env.Satisfies rule)
    {position : Nat}
    {ty param : Ty}
    (holds : rule.holds ty)
    (found : parameterAt? env position ty = some param) :
    rule.holds param := by
  induction position generalizing ty with
  | zero =>
      have headHolds := satisfied.head holds
      rw [parameterAt?] at found
      split at found
      · rename_i isFunction
        cases found
        rw [isFunction] at headHolds
        exact (rule.function.mp headHolds).1
      · contradiction
  | succ position inductionHypothesis =>
      have headHolds := satisfied.head holds
      rw [parameterAt?] at found
      split at found
      · rename_i isFunction
        rw [isFunction] at headHolds
        exact inductionHypothesis (rule.function.mp headHolds).2 found
      · contradiction

/-- The length that a length expression shows is positive. -/
theorem shownLength_holds
    {expr : Expr}
    {length : Length}
    (shown : shownLength expr = .ok (some length)) :
    rule.holdsLength length := by
  unfold shownLength at shown
  split at shown
  · rename_i value _
    split at shown
    · contradiction
    · rename_i positive
      split at shown
      · cases shown
        exact rule.known (by omega)
      · cases shown
  · rename_i value _
    split at shown
    · contradiction
    · rename_i positive
      split at shown
      · cases shown
        exact rule.known (Nat.pos_of_ne_zero positive)
      · cases shown
  · cases shown

section Rules

variable (inferKeeps : InferKeeps rule infer)
include inferKeeps

/-- A fresh instance of an inferred type has the property. -/
theorem inferInstance_keeps
    {expr : Expr}
    (holds : rule.holdsExpr expr) :
    Keeps rule (inferInstance infer expr) rule.holds :=
  .bind (inferKeeps holds) fun _ tyHolds => .ofState (Environment.instantiate_keeps tyHolds)

/-- Expressions that are inferred one after the other have types with the property. -/
theorem mapM_inferInstance_keeps
    {exprs : List Expr}
    (hold : ∀ expr ∈ exprs, rule.holdsExpr expr) :
    Keeps rule (exprs.mapM (inferInstance infer)) fun types =>
      ∀ ty ∈ types, rule.holds ty := by
  have inferred :
      Keeps rule (exprs.mapM (inferInstance infer))
        (List.Forall₂ (fun _ ty => rule.holds ty) exprs) :=
    .mapM fun expr member => inferInstance_keeps inferKeeps (hold expr member)
  refine inferred.imp fun related ty member => ?_
  obtain ⟨_, _, holds⟩ := exists_of_forall₂ related member
  exact holds

/-- The type of an array has the property: its length is a count of its elements. -/
theorem inferArray_keeps
    (expr : Expr)
    {elements : List Expr}
    (lengthHolds : elements ≠ [] → rule.holdsLength (lengthOfCount elements.length))
    (hold : ∀ element ∈ elements, rule.holdsExpr element) :
    Keeps rule (inferArray infer expr elements) rule.holds := by
  cases elements with
  | nil => exact .fail _
  | cons first rest =>
      obtain ⟨firstHolds, restHold⟩ := List.forall_mem_cons.mp hold
      apply Keeps.bind (inferInstance_keeps inferKeeps firstHolds)
      intro _ componentHolds
      refine .bind (.foldlM componentHolds fun element member _ componentHolds => ?_)
        fun _ componentHolds => ?_
      · apply Keeps.bind (inferInstance_keeps inferKeeps (restHold element member))
        intro _ elementHolds
        exact blame_keeps _ (unify_keeps componentHolds elementHolds)
      · apply Keeps.bind (.ofState (Environment.generalize_keeps componentHolds))
        intro _ generalHolds
        exact .pure (rule.array.mpr ⟨generalHolds, lengthHolds (List.cons_ne_nil _ _)⟩)

/-- The type of an array access has the property. -/
theorem inferIndex_keeps
    (expr : Expr)
    {base position : Expr}
    (baseHolds : rule.holdsExpr base)
    (positionHolds : rule.holdsExpr position) :
    Keeps rule (inferIndex infer expr base position) rule.holds := by
  apply Keeps.bind (inferInstance_keeps inferKeeps positionHolds)
  intro _ positionHolds
  have intHolds := rule.primitive .int
  apply Keeps.bind (blame_keeps _ (unify_keeps intHolds positionHolds))
  intro _ _
  apply Keeps.bind (inferInstance_keeps inferKeeps baseHolds)
  intro _ baseHolds
  apply Keeps.bind (.ofState (Environment.freshPlaceholder_keeps rule _))
  intro _ componentHolds
  apply Keeps.bind (.ofState (Environment.freshLength_keeps rule))
  intro _ lengthHolds
  have arrayHolds := rule.array.mpr ⟨componentHolds, lengthHolds⟩
  apply Keeps.bind (blame_keeps _ (unify_keeps baseHolds arrayHolds))
  intro _ _
  exact .ofState (Environment.generalize_keeps componentHolds)

/-- The type of a struct has the property: its fields are listed as the property wants them. -/
theorem inferStruct_keeps
    (expr : Expr)
    {fields : List (String × Expr)}
    (hold : ∀ value ∈ fields.map Prod.snd, rule.holdsExpr value) :
    Keeps rule (inferStruct infer expr fields) rule.holds := by
  unfold inferStruct
  split
  · exact .fail _
  · rename_i notEmpty
    split
    · exact .fail _
    · have fieldKeeps :
          ∀ field ∈ fields,
            Keeps rule
              (do
                let ty ← inferInstance infer field.2
                let ty ← Environment.generalize ty
                pure (field.1, ty) : Action InferError (String × Ty))
              fun typed => rule.holds typed.2 := by
        intro field member
        have valueHolds := hold field.2 (List.mem_map_of_mem member)
        apply Keeps.bind (inferInstance_keeps inferKeeps valueHolds)
        intro _ tyHolds
        apply Keeps.bind (.ofState (Environment.generalize_keeps tyHolds))
        intro _ generalHolds
        exact .pure generalHolds
      apply Keeps.bind (.mapM fieldKeeps)
      intro typed related
      apply Keeps.pure
      apply rule.ofFields
      · rintro rfl
        exact notEmpty (List.isEmpty_iff.mpr (List.forall₂_nil_right_iff.mp related))
      · intro field member
        obtain ⟨_, _, holds⟩ := exists_of_forall₂ related member
        exact holds

/-- The type of a field has the property. -/
theorem inferField_keeps
    (expr : Expr)
    {base : Expr}
    (holds : rule.holdsExpr base)
    (label : String) :
    Keeps rule (inferField infer expr base label) rule.holds := by
  apply Keeps.bind (inferInstance_keeps inferKeeps holds)
  intro _ baseHolds
  apply Keeps.bind (.ofState (Environment.freshPlaceholder_keeps rule _))
  intro slot slotHolds
  have structHolds : rule.holds (.struct [(label, slot)]) :=
    rule.ofFields (List.cons_ne_nil (label, slot) []) (List.forall_mem_singleton.mpr slotHolds)
  apply Keeps.bind (blame_keeps _ (unify_keeps baseHolds structHolds))
  intro _ _
  exact .ofState (Environment.generalize_keeps slotHolds)

/-- The type of a function has the property. -/
theorem inferFunction_keeps
    (expr : Expr)
    {params : List Parameter}
    {body : Expr}
    (paramsHold : ∀ param ∈ params, ∀ ty ∈ param.ascription, rule.holds ty)
    (bodyHolds : rule.holdsExpr body) :
    Keeps rule (inferFunction infer expr params body) rule.holds := by
  apply Keeps.bind (.ofState (openParameters_keeps _ _ _ paramsHold))
  intro types typesHold
  have inside :
      Keeps rule (withActiveParams types (inferInstance infer body)) rule.holds := by
    refine .between (inferInstance_keeps inferKeeps bodyHolds) ?_ ?_
    · exact fun satisfied => ⟨satisfied.declared, satisfied.frames, satisfied.inProgress⟩
    · exact fun satisfied => ⟨satisfied.declared, satisfied.frames, satisfied.inProgress⟩
  apply Keeps.bind inside
  intro _ resultHolds
  apply Keeps.bind .environment
  intro env satisfied
  apply Keeps.pure
  refine rule.curried (fun param member => ?_) resultHolds
  obtain ⟨ty, isType, rfl⟩ := List.mem_map.mp member
  exact satisfied.resolve (typesHold ty isType)

/-- The type of a call has the property. -/
theorem inferCall_keeps
    (expr : Expr)
    {callee : Expr}
    {args : List Expr}
    (calleeHolds : rule.holdsExpr callee)
    (argsHold : ∀ arg ∈ args, rule.holdsExpr arg) :
    Keeps rule (inferCall infer expr callee args) rule.holds := by
  apply Keeps.bind (inferInstance_keeps inferKeeps calleeHolds)
  intro _ calleeHolds
  apply Keeps.bind (mapM_inferInstance_keeps inferKeeps argsHold)
  intro _ argsHold
  exact blame_keeps _ (call_keeps calleeHolds argsHold)

/-- The type of a conditional has the property. -/
theorem inferConditional_keeps
    {condition whenTrue whenFalse : Expr}
    (conditionHolds : rule.holdsExpr condition)
    (trueHolds : rule.holdsExpr whenTrue)
    (falseHolds : rule.holdsExpr whenFalse) :
    Keeps rule (inferConditional infer condition whenTrue whenFalse) rule.holds := by
  apply Keeps.bind (inferInstance_keeps inferKeeps conditionHolds)
  intro _ conditionHolds
  have boolHolds := rule.primitive .bool
  apply Keeps.bind (blame_keeps _ (unify_keeps boolHolds conditionHolds))
  intro _ _
  apply Keeps.bind (inferInstance_keeps inferKeeps trueHolds)
  intro _ trueHolds
  apply Keeps.bind (inferInstance_keeps inferKeeps falseHolds)
  intro _ falseHolds
  apply Keeps.bind (blame_keeps _ (unify_keeps trueHolds falseHolds))
  intro _ holds
  exact .ofState (Environment.generalize_keeps holds)

/-- The type of a parameter has the property, whether recorded before or found by inference. -/
theorem inferParameter_keeps (expr : Expr) (function : ExprId) (position : Nat) :
    Keeps rule (inferParameter infer expr function position) rule.holds := by
  apply Keeps.bind .environment
  intro env satisfied
  split
  · rename_i ty isRecorded
    exact .pure (satisfied.parameter? isRecorded)
  · split
    · exact .fail _
    · rename_i owner isOwner
      have ownerHolds := satisfied.declared.functions _ (mem_of_lookup isOwner)
      apply Keeps.bind (inferKeeps ownerHolds)
      intro ownerType ownerTypeHolds
      apply Keeps.bind .environment
      intro env satisfied
      split
      · rename_i ty isRecorded
        exact .pure (satisfied.parameter? isRecorded)
      · split
        · rename_i ty isFound
          exact .pure (parameterAt?_holds satisfied ownerTypeHolds isFound)
        · exact .fail _

/-- The type of a dynamic array has the property: a length that is written is positive. -/
theorem inferDynamicArray_keeps
    (expr : Expr)
    {length generator : Expr}
    (lengthHolds : rule.holdsExpr length)
    (generatorHolds : rule.holdsExpr generator) :
    Keeps rule (inferDynamicArray infer expr length generator) rule.holds := by
  have intHolds := rule.primitive .int
  have uintHolds := rule.primitive .uint
  apply Keeps.bind (inferInstance_keeps inferKeeps lengthHolds)
  intro _ lengthHolds
  apply Keeps.bind (blame_keeps _ (unifyEither_keeps intHolds uintHolds lengthHolds))
  intro _ _
  split
  · exact .fail _
  · rename_i shown isShown
    apply Keeps.bind (inferInstance_keeps inferKeeps generatorHolds)
    intro _ generatorHolds
    apply Keeps.bind (.ofState (Environment.freshPlaceholder_keeps rule _))
    intro _ elementHolds
    have fromInt := rule.function.mpr ⟨intHolds, elementHolds⟩
    have fromUint := rule.function.mpr ⟨uintHolds, elementHolds⟩
    apply Keeps.bind (blame_keeps _ (unifyEither_keeps fromInt fromUint generatorHolds))
    intro _ _
    split
    · exact .pure (rule.array.mpr ⟨elementHolds, shownLength_holds isShown⟩)
    · apply Keeps.bind (.ofState (Environment.freshLength_keeps rule))
      intro _ countHolds
      exact .pure (rule.array.mpr ⟨elementHolds, countHolds⟩)

/-- The overload set of the options has the property. -/
theorem inferUnion_keeps
    (expr : Expr)
    {options : List Expr}
    (hold : ∀ option ∈ options, rule.holdsExpr option) :
    Keeps rule (inferUnion infer expr options) rule.holds := by
  apply Keeps.bind (mapM_inferInstance_keeps inferKeeps hold)
  intro members membersHold
  split
  · rename_i ty isUnion
    exact .pure (rule.ofMembers membersHold isUnion)
  · exact .fail _

/-- The generalized type of a declaration has the property. -/
theorem inferDeclared_keeps
    (declaredIn : ScopeId)
    (name : String)
    {expr : Expr}
    (holds : rule.holdsExpr expr) :
    Keeps rule (inferDeclared infer declaredIn name expr) rule.holds := by
  apply Keeps.bind .environment
  intro env satisfied
  split
  · rename_i provisional isProvisional
    exact .pure (satisfied.inProgress _ (mem_of_lookup isProvisional))
  · apply Keeps.bind (.ofState (Environment.freshPlaceholder_keeps rule _))
    intro provisional provisionalHolds
    have inside :
        Keeps rule
          (withProvisional (declaredIn, name) provisional do
            let ty ← infer expr
            blame expr (unify provisional ty))
          rule.holds := by
      refine .between ?_ ?_ ?_
      · apply Keeps.bind (inferKeeps holds)
        intro _ tyHolds
        exact blame_keeps _ (unify_keeps provisionalHolds tyHolds)
      · intro env satisfied
        refine ⟨satisfied.declared, satisfied.frames, ?_⟩
        exact List.forall_mem_cons.mpr ⟨provisionalHolds, satisfied.inProgress⟩
      · intro env satisfied
        refine ⟨satisfied.declared, satisfied.frames, fun entry member => ?_⟩
        exact satisfied.inProgress entry (List.mem_filter.mp member).1
    exact .bind inside fun _ tyHolds => .ofState (Environment.generalize_keeps tyHolds)

/-- The type of a reference has the property, in progress, declared or built in. -/
theorem inferReference_keeps (expr : Expr) (name : String) :
    Keeps rule (inferReference infer expr name) rule.holds := by
  apply Keeps.bind .environment
  intro env satisfied
  split
  · exact .fail _
  · rename_i declaredIn declared isDeclared
    obtain ⟨declaration, member, rfl⟩ := DeclarationTable.exists_of_lookup? isDeclared
    have valueHolds := satisfied.declared.values declaration member
    apply Keeps.bind (inferDeclared_keeps inferKeeps _ _ valueHolds)
    intro _ tyHolds
    exact .ofState (Environment.instantiate_keeps tyHolds)

/-- A rule keeps a property if the inference of other expressions does. -/
theorem inferForm_keeps
    {expr : Expr}
    (holds : rule.holdsExpr expr) :
    Keeps rule (inferForm infer expr) fun typed => rule.holds typed.2 := by
  have written := rule.form holds
  have parts := rule.children holds
  unfold inferForm
  cases isForm : expr.form with
  | literal value =>
      refine .pure ?_
      cases value <;> exact rule.primitive _
  | array elements =>
      rw [isForm] at written parts
      exact .map (inferArray_keeps inferKeeps expr written parts)
  | index base position =>
      rw [isForm] at parts
      obtain ⟨baseHolds, others⟩ := List.forall_mem_cons.mp parts
      have positionHolds := List.forall_mem_singleton.mp others
      exact .map (inferIndex_keeps inferKeeps expr baseHolds positionHolds)
  | struct fields =>
      rw [isForm] at parts
      exact .map (inferStruct_keeps inferKeeps expr parts)
  | field base label =>
      rw [isForm] at parts
      exact .map (inferField_keeps inferKeeps expr (List.forall_mem_singleton.mp parts) label)
  | function params body =>
      rw [isForm] at written parts
      have bodyHolds := List.forall_mem_singleton.mp parts
      exact .map (inferFunction_keeps inferKeeps expr written bodyHolds)
  | call callee args =>
      rw [isForm] at parts
      obtain ⟨calleeHolds, argsHold⟩ := List.forall_mem_cons.mp parts
      exact .map (inferCall_keeps inferKeeps expr calleeHolds argsHold)
  | conditional condition whenTrue whenFalse =>
      rw [isForm] at parts
      obtain ⟨conditionHolds, branchesHold⟩ := List.forall_mem_cons.mp parts
      obtain ⟨trueHolds, others⟩ := List.forall_mem_cons.mp branchesHold
      have falseHolds := List.forall_mem_singleton.mp others
      exact .map (inferConditional_keeps inferKeeps conditionHolds trueHolds falseHolds)
  | reference name => exact .map (inferReference_keeps inferKeeps expr name)
  | external kind name ascription =>
      rw [isForm] at written
      exact .map (.ofState (inferExternal_keeps expr written))
  | parameter function position =>
      exact .map (inferParameter_keeps inferKeeps expr function position)
  | dynamicArray length generator =>
      rw [isForm] at parts
      obtain ⟨lengthHolds, others⟩ := List.forall_mem_cons.mp parts
      have generatorHolds := List.forall_mem_singleton.mp others
      exact .map (inferDynamicArray_keeps inferKeeps expr lengthHolds generatorHolds)
  | union options =>
      rw [isForm] at parts
      exact .map (inferUnion_keeps inferKeeps expr parts)
  | native ty =>
      rw [isForm] at written
      exact .pure written

end Rules

/-! ## Inference -/

/-- A rule for expressions keeps a property. -/
def RuleKeeps
    (rule : Ty.Invariant)
    (apply : Expr → Action InferError (InferRule × Ty)) : Prop :=
  ∀ {expr : Expr}, rule.holdsExpr expr → Keeps rule (apply expr) fun typed => rule.holds typed.2

variable {apply : Expr → Action InferError (InferRule × Ty)}

/-- Linking an inferred type with the one recorded before keeps the property. -/
theorem linked_keeps
    (applyKeeps : RuleKeeps rule apply)
    {expr : Expr}
    (holds : rule.holdsExpr expr)
    {previous : Option Ty}
    (previousHolds : ∀ ty ∈ previous, rule.holds ty) :
    Keeps rule (linked apply expr previous) fun typed => rule.holds typed.2 := by
  apply Keeps.bind (applyKeeps holds)
  intro typed typedHolds
  cases previous with
  | some previous =>
      have linkedHolds := unify_keeps (previousHolds previous rfl) typedHolds
      exact .bind (blame_keeps _ linkedHolds) fun _ holds => .pure holds
  | none => exact .pure typedHolds

/-- What an attempt does inside its transaction keeps the property. -/
theorem transacted_keeps
    (applyKeeps : RuleKeeps rule apply)
    {expr : Expr}
    (holds : rule.holdsExpr expr)
    {previous : Option Ty}
    (previousHolds : ∀ ty ∈ previous, rule.holds ty) :
    Keeps rule
      (do
        let (name, ty) ← deeper (linked apply expr previous)
        Action.update (Environment.recordInferred expr.id ty)
        pure (name, ty))
      fun typed => rule.holds typed.2 := by
  have inside :
      Keeps rule (deeper (linked apply expr previous)) fun typed => rule.holds typed.2 := by
    refine .between (linked_keeps applyKeeps holds previousHolds) ?_ ?_
    · exact fun satisfied => ⟨satisfied.declared, satisfied.frames, satisfied.inProgress⟩
    · exact fun satisfied => ⟨satisfied.declared, satisfied.frames, satisfied.inProgress⟩
  apply Keeps.bind inside
  intro typed typedHolds
  refine .bind (.update fun satisfied => ?_) fun _ _ => .pure typedHolds
  exact satisfied.recordInferred typedHolds expr.id

/-- An attempt keeps the property. -/
theorem attempted_keeps
    (applyKeeps : RuleKeeps rule apply)
    {expr : Expr}
    (holds : rule.holdsExpr expr)
    {previous : Option Ty}
    (previousHolds : ∀ ty ∈ previous, rule.holds ty) :
    Keeps rule (attempted apply expr previous) rule.holds := by
  have inside := transacted_keeps applyKeeps holds previousHolds
  apply Keeps.bind (.transaction inside)
  intro typed typedHolds
  refine .bind (.update fun satisfied => ?_) fun _ _ => .pure typedHolds
  exact satisfied.traceInfer _ _ _

/-- A recorded type has the property, and an attempt keeps it. -/
theorem memoized_keeps
    (applyKeeps : RuleKeeps rule apply)
    {expr : Expr}
    (holds : rule.holdsExpr expr) :
    Keeps rule (memoized apply expr) rule.holds := by
  apply Keeps.bind .environment
  intro env satisfied
  split
  · rename_i ty isRecorded
    exact .pure (satisfied.inferred? (Option.eq_some_of_filter_eq_some isRecorded))
  · split
    · exact .fail _
    · exact attempted_keeps applyKeeps holds fun ty isRecorded => satisfied.inferred? isRecorded

/-- Inference in any number of levels keeps the property. -/
theorem within_keeps (levels : Nat) : InferKeeps rule (within levels) := by
  induction levels with
  | zero =>
      intro expr holds
      exact memoized_keeps (fun _ => .exhausted) holds
  | succ levels inductionHypothesis =>
      intro expr holds
      exact memoized_keeps (fun holds => inferForm_keeps inductionHypothesis holds) holds

end Inference

/-- Inference of an expression keeps the property if the types written in it have it. -/
theorem infer_keeps
    {expr : Expr}
    (holds : rule.holdsExpr expr) :
    Keeps rule (infer expr) rule.holds :=
  .bind .environment fun _ _ => Inference.within_keeps _ holds

/-- Inference of a declaration keeps the property. -/
theorem inferDeclaration_keeps (scope : ScopeId) (name : String) :
    Keeps rule (inferDeclaration scope name) fun found => ∀ ty ∈ found, rule.holds ty := by
  apply Keeps.bind .environment
  intro env satisfied
  split
  · rename_i expr isDeclared
    obtain ⟨declaration, isFound, rfl⟩ := Option.map_eq_some_iff.mp isDeclared
    have valueHolds := satisfied.declared.values declaration (List.mem_of_find?_eq_some isFound)
    refine .map ((Inference.inferDeclared_keeps infer_keeps _ _ valueHolds).imp ?_)
    intro ty holds found isFound
    cases Option.mem_some.mp isFound
    exact holds
  · exact .pure (by simp)

/-! ## Programs -/

namespace Environment

/-- Asking which declarations can be inferred keeps the property. -/
theorem inferable_keeps (declarations : List (Declaration Expr)) :
    Action.Keeps rule (inferable declarations : Action ε (List (Declaration Expr))) fun _ => True := by
  induction declarations with
  | nil => exact .pure trivial
  | cons declaration rest inductionHypothesis =>
      have others (failed : Bool) :
          Action.Keeps rule
            (do
              let others ← inferable rest
              pure (if failed then others else declaration :: others) :
              Action ε (List (Declaration Expr)))
            fun _ => True :=
        .bind inductionHypothesis fun _ _ => .pure trivial
      have failsKeeps :
          Action.Keeps rule (fails declaration : Action ε Bool) fun _ => True := by
        apply Action.Keeps.bind (.attempt (inferDeclaration_keeps _ _))
        intro result _
        cases result with
        | ok found => exact .pure trivial
        | error cause => exact .pure trivial
      unfold inferable
      cases declaration.scope.isNative with
      | true => exact others false
      | false => exact .bind failsKeeps fun failed _ => others failed

end Environment

namespace Checker

/-- A check of a program keeps the property. -/
theorem problems_keeps (checker : Checker) :
    Keeps rule (checker.problems : Action ε (List Diagnostic)) fun _ => True := by
  cases checker with
  | cyclicAliases => exact .bind .environment fun _ _ => .pure trivial
  | unresolvedVariables => exact .bind .environment fun _ _ => .pure trivial
  | externalConsistency kind =>
      apply Keeps.bind .environment
      intro _ _
      apply Keeps.bind (Environment.inferable_keeps _)
      intro _ _
      exact .bind .environment fun _ _ => .pure trivial

/-- The checks of a pipeline keep the property. -/
theorem runAfter_keeps (found : List Diagnostic) (pipeline : List Checker) :
    Keeps rule (runAfter found pipeline) fun _ => True := by
  induction pipeline generalizing found with
  | nil =>
      unfold runAfter
      split
      · exact .pure trivial
      · exact .fail _
  | cons checker rest inductionHypothesis =>
      apply Keeps.bind (problems_keeps checker)
      intro _ _
      split
      · exact inductionHypothesis _
      · exact .fail _

end Checker

/-- The types of a typed program have a property. -/
def TypedProgram.Satisfies (rule : Ty.Invariant) (program : TypedProgram) : Prop :=
  ∀ declaration ∈ program.declarations, rule.holds declaration.ty

namespace Program

/-- Inferring the next declaration lists a type with the property or an error. -/
theorem inferNext_keeps
    {progress : Progress}
    (typedHold : ∀ declaration ∈ progress.typed, rule.holds declaration.ty)
    (declaration : Declaration Expr) :
    Keeps rule (inferNext progress declaration : Action ε Progress)
      fun next => ∀ declaration ∈ next.typed, rule.holds declaration.ty := by
  apply Keeps.bind (.attempt (inferDeclaration_keeps _ _))
  intro result found
  match result with
  | .ok (some ty) =>
      refine .pure (List.forall_mem_append.mpr ⟨typedHold, ?_⟩)
      exact List.forall_mem_singleton.mpr (found _ rfl ty rfl)
  | .ok none => exact .pure typedHold
  | .error cause =>
      dsimp only
      split
      · exact .pure typedHold
      · exact .pure typedHold

/-- Inferring declarations one after the other lists only types with the property. -/
theorem foldlM_inferNext_keeps (declarations : List (Declaration Expr)) :
    Keeps rule (declarations.foldlM inferNext ⟨[], []⟩ : Action ε Progress)
      fun progress => ∀ declaration ∈ progress.typed, rule.holds declaration.ty := by
  refine .foldlM (by simp) fun declaration _ progress typedHold => ?_
  exact inferNext_keeps typedHold declaration

end Program

/-- An inferred program lists only types with the property. -/
theorem inferProgram_keeps :
    Keeps rule inferProgram fun program => program.Satisfies rule := by
  apply Keeps.bind .environment
  intro env _
  apply Keeps.bind (Program.foldlM_inferNext_keeps _)
  intro progress typedHold
  split
  · apply Keeps.bind .environment
    intro env satisfied
    apply Keeps.pure
    intro declaration member
    obtain ⟨typed, isTyped, rfl⟩ := List.mem_map.mp member
    exact satisfied.resolve (typedHold typed isTyped)
  · exact .fail _

/-- A checked program lists only types with the property. -/
theorem checkProgram_keeps :
    Keeps rule checkProgram fun program => program.Satisfies rule := by
  apply Keeps.bind (Checker.runAfter_keeps [] Checker.standard)
  intro _ _
  apply Keeps.bind inferProgram_keeps
  intro program programHolds
  have closed :
      ∀ declaration ∈ program.declarations,
        Keeps rule
          (do
            let ty ← Environment.close declaration.ty
            pure { declaration with ty := ty } : Action Report TypedDeclaration)
          fun declaration => rule.holds declaration.ty := by
    intro declaration member
    have closes := Environment.close_keeps (programHolds declaration member)
    exact .bind (.ofState closes) fun _ holds => .pure holds
  apply Keeps.bind (.mapM closed)
  intro declarations related
  apply Keeps.pure
  intro declaration member
  obtain ⟨_, _, holds⟩ := exists_of_forall₂ related member
  exact holds

/-! ## Operations -/

namespace Operation

mutual

/-- The types and lengths passed to an operation have a property. -/
def Takes (rule : Ty.Invariant) : Operation → Prop
  | .declareType _ _ ty | .generalize ty | .close ty | .instantiate ty => rule.holds ty
  | .declareVariable _ _ expr | .infer expr => rule.holdsExpr expr
  | .transaction body _ => TakeAll rule body
  | .unify left right => rule.holds left ∧ rule.holds right
  | .unifyLength left right => rule.holdsLength left ∧ rule.holdsLength right
  | .call callee args => rule.holds callee ∧ ∀ arg ∈ args, rule.holds arg
  | .newScope _ | .enableTrace | .push | .commit | .abort | .freshPlaceholder _
  | .freshLength | .inferDeclaration _ _ | .validate _ | .runCheckers _
  | .inferProgram | .checkProgram => True

/-- The types and lengths passed to each of some operations have a property. -/
def TakeAll (rule : Ty.Invariant) : List Operation → Prop
  | [] => True
  | operation :: rest => operation.Takes rule ∧ TakeAll rule rest

end

variable {env : Environment}

/-- Declaring keeps the property if the changed declarations have it. -/
theorem declare_satisfies
    {change : Declarations → Except DeclarationError Declarations}
    (satisfied : env.Satisfies rule)
    (changes :
      ∀ {changed}, change env.declared = .ok changed → changed.Satisfies rule) :
    (declare env change).Satisfies rule := by
  unfold declare
  split
  · rename_i changed made
    exact ⟨changes made, satisfied.frames, satisfied.inProgress⟩
  · exact satisfied

mutual

/-- Every operation on types with a property keeps the property. -/
theorem perform_satisfies
    (operation : Operation)
    (takes : operation.Takes rule)
    {env final : Environment}
    (performed : operation.perform env = some final)
    (satisfied : env.Satisfies rule) :
    final.Satisfies rule := by
  cases operation with
  | newScope parent =>
      cases performed
      exact declare_satisfies satisfied fun made => satisfied.declared.newScope made
  | declareType scope name ty =>
      cases performed
      exact declare_satisfies satisfied fun made => satisfied.declared.declareType takes made
  | declareVariable scope name expr =>
      cases performed
      exact declare_satisfies satisfied fun made =>
        satisfied.declared.declareVariable takes made
  | enableTrace =>
      cases performed
      exact ⟨satisfied.declared, satisfied.frames, satisfied.inProgress⟩
  | push =>
      cases performed
      exact satisfied.push
  | commit | abort =>
      cases performed
      exact satisfied.finish _
  | transaction body succeeds =>
      rw [perform, Option.map_eq_some_iff] at performed
      obtain ⟨inner, inside, rfl⟩ := performed
      exact (performAll_satisfies body takes inside satisfied.push).finish succeeds
  | freshPlaceholder scope =>
      cases performed
      exact (Environment.freshPlaceholder_keeps rule scope env satisfied).1
  | freshLength =>
      cases performed
      exact (Environment.freshLength_keeps rule env satisfied).1
  | unify left right =>
      exact (unify_keeps takes.1 takes.2 env satisfied).final performed
  | unifyLength left right =>
      exact (unifyLength_keeps takes.1 takes.2 env satisfied).final performed
  | call callee args =>
      exact (call_keeps takes.1 takes.2 env satisfied).final performed
  | generalize ty =>
      cases performed
      exact (Environment.generalize_keeps takes env satisfied).1
  | close ty =>
      cases performed
      exact (Environment.close_keeps takes env satisfied).1
  | instantiate ty =>
      cases performed
      exact (Environment.instantiate_keeps takes env satisfied).1
  | infer expr =>
      exact (infer_keeps takes env satisfied).final performed
  | inferDeclaration scope name =>
      exact (inferDeclaration_keeps scope name env satisfied).final performed
  | validate checker =>
      exact (Checker.problems_keeps checker env satisfied).final performed
  | runCheckers pipeline =>
      exact (Checker.runAfter_keeps [] pipeline env satisfied).final performed
  | inferProgram =>
      exact (inferProgram_keeps env satisfied).final performed
  | checkProgram =>
      exact (checkProgram_keeps env satisfied).final performed

/-- Operations on types with the property lead from environments with it to such ones. -/
theorem performAll_satisfies
    (operations : List Operation)
    (take : TakeAll rule operations)
    {env final : Environment}
    (performed : performAll operations env = some final)
    (satisfied : env.Satisfies rule) :
    final.Satisfies rule := by
  cases operations with
  | nil =>
      cases performed
      exact satisfied
  | cons operation rest =>
      rw [performAll, Option.bind_eq_some_iff] at performed
      obtain ⟨middle, first, others⟩ := performed
      have middleSatisfied := perform_satisfies operation take.1 first satisfied
      exact performAll_satisfies rest take.2 others middleSatisfied

end

end Operation

namespace Environment

/--
Some operations on types and lengths with a property lead from the empty environment to this one.
-/
def ReachableWith (rule : Ty.Invariant) (env : Environment) : Prop :=
  ∃ options operations,
    Operation.TakeAll rule operations ∧
      Operation.performAll operations (Environment.empty options) = some env

variable {env : Environment}

/-- Environments that are reached by operations on certain types are reached by operations. -/
theorem ReachableWith.reachable (reachable : env.ReachableWith rule) : env.Reachable := by
  obtain ⟨options, operations, _, performed⟩ := reachable
  exact ⟨options, operations, performed⟩

/-- Environments that are reached by operations on types with a property satisfy it. -/
theorem ReachableWith.satisfies (reachable : env.ReachableWith rule) : env.Satisfies rule := by
  obtain ⟨options, operations, take, performed⟩ := reachable
  exact Operation.performAll_satisfies operations take performed (.empty rule options)

end Environment

end ShaderTyping
