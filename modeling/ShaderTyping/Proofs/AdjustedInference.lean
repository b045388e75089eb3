import ShaderTyping.Proofs.AdjustedRuns

namespace ShaderTyping

/-!
# Inference under other options

A rule passes on what two ways to infer the expressions inside have in common, and an attempt
passes on what its rule has.  Inference itself looks at one option, the depth limit.  So it comes
to the same under any adjustment that leaves the limit alone, and under one that raises it unless
the limit is reached (`infer_carriesOver`): no rule tries something else after an expression inside
has failed.
-/

open ShaderTyping.Action (Ignores CarriesOver)
open Environment (generalize_ignores instantiate_ignores freshPlaceholder_ignores
  freshLength_ignores)

variable {adjustment : Adjustment}

/-! ## Rules -/

namespace Inference

variable {infer otherInfer : Infer} {excused : Option InferError → Prop}

/-- Blaming an expression for an error carries over: unification ignores the adjustment. -/
theorem blame_carriesOver
    {action : Action UnifyError α}
    (expr : Expr)
    (ignores : Ignores adjustment action) :
    CarriesOver excused adjustment (blame expr action) (blame expr action) :=
  .mapError ignores

/-- Trying two types ignores the adjustment. -/
theorem unifyEither_ignores (first second ty : Ty) :
    Ignores adjustment (unifyEither first second ty) := by
  refine .bind (.attempt (.transaction (unify_ignores _ _))) fun _ => ?_
  split
  · exact .pure _
  · exact .mapError (.transaction (unify_ignores _ _))

/-- Parameters get the same types. -/
theorem openParameters_ignores
    (function : ExprId)
    (scope : ScopeId)
    (position : Nat)
    (params : List Parameter) :
    Environment.Ignores adjustment (openParameters function scope position params) := by
  induction params generalizing position with
  | nil => exact .pure _
  | cons param rest inductionHypothesis =>
      have recorded (ty : Ty) :
          Environment.Ignores adjustment
            (do
              modify (Environment.recordParameter function position ty)
              let others ← openParameters function scope (position + 1) rest
              pure (ty :: others)) := by
        refine .bind (.modify fun _ => rfl) fun _ => ?_
        exact .bind (inductionHypothesis _) fun _ => .pure _
      unfold openParameters
      cases param.ascription with
      | some ascription => exact recorded ascription
      | none => exact .bind (freshPlaceholder_ignores _) recorded

/-- The type of an outside value is written or the same fresh placeholder. -/
theorem inferExternal_ignores (expr : Expr) (ascription : Option Ty) :
    Environment.Ignores adjustment (inferExternal expr ascription) := by
  cases ascription with
  | some ascription => exact generalize_ignores ascription
  | none => exact fun _ => rfl

section Rules

variable (inferCarries : ∀ expr, CarriesOver excused adjustment (infer expr) (otherInfer expr))
include inferCarries

/-- A fresh instance of an inferred type carries over. -/
theorem inferInstance_carriesOver (expr : Expr) :
    CarriesOver excused adjustment (inferInstance infer expr) (inferInstance otherInfer expr) :=
  .bind (inferCarries expr) fun _ => .ofState (instantiate_ignores _)

/-- The rule of arrays carries over from the elements. -/
theorem inferArray_carriesOver (expr : Expr) (elements : List Expr) :
    CarriesOver excused adjustment (inferArray infer expr elements)
      (inferArray otherInfer expr elements) := by
  cases elements with
  | nil => exact .fail _
  | cons first rest =>
      refine .bind (inferInstance_carriesOver inferCarries _) fun _ => ?_
      refine .bind (.foldlM (fun element _ component => ?_) _) fun _ => ?_
      · refine .bind (inferInstance_carriesOver inferCarries _) fun _ => ?_
        exact blame_carriesOver _ (unify_ignores _ _)
      · exact .bind (.ofState (generalize_ignores _)) fun _ => .pure _

/-- The rule of accesses carries over from the array and the position. -/
theorem inferIndex_carriesOver (expr base position : Expr) :
    CarriesOver excused adjustment (inferIndex infer expr base position)
      (inferIndex otherInfer expr base position) := by
  refine .bind (inferInstance_carriesOver inferCarries _) fun _ => ?_
  refine .bind (blame_carriesOver _ (unify_ignores _ _)) fun _ => ?_
  refine .bind (inferInstance_carriesOver inferCarries _) fun _ => ?_
  refine .bind (.ofState (freshPlaceholder_ignores _)) fun _ => ?_
  refine .bind (.ofState freshLength_ignores) fun _ => ?_
  refine .bind (blame_carriesOver _ (unify_ignores _ _)) fun _ => ?_
  exact .ofState (generalize_ignores _)

/-- The rule of structs carries over from the fields. -/
theorem inferStruct_carriesOver (expr : Expr) (fields : List (String × Expr)) :
    CarriesOver excused adjustment (inferStruct infer expr fields)
      (inferStruct otherInfer expr fields) := by
  unfold inferStruct
  split
  · exact .fail _
  · split
    · exact .fail _
    · refine .bind (.mapM fun field _ => ?_) fun _ => .pure _
      refine .bind (inferInstance_carriesOver inferCarries _) fun _ => ?_
      exact .bind (.ofState (generalize_ignores _)) fun _ => .pure _

/-- The rule of field accesses carries over from the struct. -/
theorem inferField_carriesOver (expr base : Expr) (label : String) :
    CarriesOver excused adjustment (inferField infer expr base label)
      (inferField otherInfer expr base label) := by
  refine .bind (inferInstance_carriesOver inferCarries _) fun _ => ?_
  refine .bind (.ofState (freshPlaceholder_ignores _)) fun _ => ?_
  refine .bind (blame_carriesOver _ (unify_ignores _ _)) fun _ => ?_
  exact .ofState (generalize_ignores _)

/-- The rule of functions carries over from the body. -/
theorem inferFunction_carriesOver (expr : Expr) (params : List Parameter) (body : Expr) :
    CarriesOver excused adjustment (inferFunction infer expr params body)
      (inferFunction otherInfer expr params body) := by
  refine .bind (.ofState (openParameters_ignores _ _ _ _)) fun _ => ?_
  refine .bind (.between (inferInstance_carriesOver inferCarries _) (fun _ => rfl) fun _ => rfl)
    fun _ => ?_
  exact .bind_environment (fun env => by rw [env.resolve_adjust adjustment]) fun _ => .pure _

/-- The rule of calls carries over from the function and the arguments. -/
theorem inferCall_carriesOver (expr callee : Expr) (args : List Expr) :
    CarriesOver excused adjustment (inferCall infer expr callee args)
      (inferCall otherInfer expr callee args) := by
  refine .bind (inferInstance_carriesOver inferCarries _) fun _ => ?_
  refine .bind (.mapM fun arg _ => inferInstance_carriesOver inferCarries arg) fun _ => ?_
  exact blame_carriesOver _ (call_ignores _ _)

/-- The rule of conditionals carries over from its three parts. -/
theorem inferConditional_carriesOver (condition whenTrue whenFalse : Expr) :
    CarriesOver excused adjustment (inferConditional infer condition whenTrue whenFalse)
      (inferConditional otherInfer condition whenTrue whenFalse) := by
  refine .bind (inferInstance_carriesOver inferCarries _) fun _ => ?_
  refine .bind (blame_carriesOver _ (unify_ignores _ _)) fun _ => ?_
  refine .bind (inferInstance_carriesOver inferCarries _) fun _ => ?_
  refine .bind (inferInstance_carriesOver inferCarries _) fun _ => ?_
  refine .bind (blame_carriesOver _ (unify_ignores _ _)) fun _ => ?_
  exact .ofState (generalize_ignores _)

/-- The rule of parameters carries over from the function that it makes be inferred. -/
theorem inferParameter_carriesOver (expr : Expr) (function : ExprId) (position : Nat) :
    CarriesOver excused adjustment (inferParameter infer expr function position)
      (inferParameter otherInfer expr function position) := by
  refine .bind_environment (fun env => by simp) fun env => ?_
  split
  · exact .pure _
  · split
    · exact .fail _
    · refine .bind (inferCarries _) fun _ => .bind_environment (fun env => by simp) fun env => ?_
      split
      · exact .pure _
      · split
        · exact .pure _
        · exact .fail _

/-- The rule of dynamic arrays carries over from the length and the generator. -/
theorem inferDynamicArray_carriesOver (expr length generator : Expr) :
    CarriesOver excused adjustment (inferDynamicArray infer expr length generator)
      (inferDynamicArray otherInfer expr length generator) := by
  refine .bind (inferInstance_carriesOver inferCarries _) fun _ => ?_
  refine .bind (blame_carriesOver _ (unifyEither_ignores _ _ _)) fun _ => ?_
  split
  · exact .fail _
  · refine .bind (inferInstance_carriesOver inferCarries _) fun _ => ?_
    refine .bind (.ofState (freshPlaceholder_ignores _)) fun _ => ?_
    refine .bind (blame_carriesOver _ (unifyEither_ignores _ _ _)) fun _ => ?_
    split
    · exact .pure _
    · exact .bind (.ofState freshLength_ignores) fun _ => .pure _

/-- The rule of unions carries over from the options. -/
theorem inferUnion_carriesOver (expr : Expr) (options : List Expr) :
    CarriesOver excused adjustment (inferUnion infer expr options)
      (inferUnion otherInfer expr options) := by
  refine .bind (.mapM fun option _ => inferInstance_carriesOver inferCarries option) fun _ => ?_
  split
  · exact .pure _
  · exact .fail _

/-- Inference of a declaration carries over from its expression. -/
theorem inferDeclared_carriesOver (declaredIn : ScopeId) (name : String) (expr : Expr) :
    CarriesOver excused adjustment (inferDeclared infer declaredIn name expr)
      (inferDeclared otherInfer declaredIn name expr) := by
  refine .bind_environment (fun env => by simp) fun env => ?_
  split
  · exact .pure _
  · refine .bind (.ofState (freshPlaceholder_ignores _)) fun _ => ?_
    refine .bind (.between ?_ (fun _ => rfl) fun _ => rfl) fun _ =>
      .ofState (generalize_ignores _)
    exact .bind (inferCarries _) fun _ => blame_carriesOver _ (unify_ignores _ _)

/-- The rule of references carries over from the declaration that it finds. -/
theorem inferReference_carriesOver (expr : Expr) (name : String) :
    CarriesOver excused adjustment (inferReference infer expr name)
      (inferReference otherInfer expr name) := by
  refine .bind_environment (fun env => by simp) fun env => ?_
  split
  · exact .fail _
  · refine .bind (inferDeclared_carriesOver inferCarries _ _ _) fun _ => ?_
    exact .ofState (instantiate_ignores _)

/-- A rule ignores the trace if the inference of other expressions does. -/
theorem inferForm_carriesOver (expr : Expr) : CarriesOver excused adjustment (inferForm infer expr)
      (inferForm otherInfer expr) := by
  unfold inferForm
  cases expr.form with
  | literal value => exact .pure _
  | array elements => exact .map (inferArray_carriesOver inferCarries _ _)
  | index base position => exact .map (inferIndex_carriesOver inferCarries _ _ _)
  | struct fields => exact .map (inferStruct_carriesOver inferCarries _ _)
  | field base label => exact .map (inferField_carriesOver inferCarries _ _ _)
  | function params body => exact .map (inferFunction_carriesOver inferCarries _ _ _)
  | call callee args => exact .map (inferCall_carriesOver inferCarries _ _ _)
  | conditional condition whenTrue whenFalse =>
      exact .map (inferConditional_carriesOver inferCarries _ _ _)
  | reference name => exact .map (inferReference_carriesOver inferCarries _ _)
  | external kind name ascription => exact .map (.ofState (inferExternal_ignores _ _))
  | parameter function position => exact .map (inferParameter_carriesOver inferCarries _ _ _)
  | dynamicArray length generator =>
      exact .map (inferDynamicArray_carriesOver inferCarries _ _ _)
  | union options => exact .map (inferUnion_carriesOver inferCarries _ _)
  | native ty => exact .pure _

end Rules

/-! ## Inference -/

section Inference

variable {rule otherRule : Expr → Action InferError (InferRule × Ty)}
  (ruleCarries :
    ∀ expr, CarriesOver excused adjustment (rule expr) (otherRule expr))
include ruleCarries

/-- Linking an inferred type with the one recorded before carries over. -/
theorem linked_carriesOver (expr : Expr) (previous : Option Ty) :
    CarriesOver excused adjustment (linked rule expr previous)
      (linked otherRule expr previous) := by
  refine .bind (ruleCarries expr) fun _ => ?_
  cases previous with
  | some previous => exact .bind (blame_carriesOver _ (unify_ignores _ _)) fun _ => .pure _
  | none => exact .pure _

/-- An attempt carries over from its rule. -/
theorem attempted_carriesOver (expr : Expr) (previous : Option Ty) :
    CarriesOver excused adjustment (attempted rule expr previous)
      (attempted otherRule expr previous) := by
  refine .bind (.transaction ?_) fun _ => ?_
  · refine .bind (.between (linked_carriesOver ruleCarries _ _) (fun _ => rfl) fun _ => rfl)
      fun _ => ?_
    exact .bind (.update fun _ => rfl) fun _ => .pure _
  · exact .bind (.update fun env => env.traceInfer_adjust adjustment _ _ _) fun _ => .pure _

end Inference

end Inference

/--
The adjustment leaves the depth limit as it is, or it raises the limit while it is excused to reach
the limit and to give no answer.
-/
structure Adjustment.Raises
    (adjustment : Adjustment)
    (excused : Option InferError → Prop) : Prop where
  le_maxDepth : ∀ options : Options, options.maxDepth ≤ (adjustment.options options).maxDepth
  excuses :
    (∀ options : Options, (adjustment.options options).maxDepth = options.maxDepth) ∨
      excused none ∧ ∀ expr limit, excused (some (.ofExpr expr (.depthLimit limit)))

section

variable {excused : Option InferError → Prop} (raises : adjustment.Raises excused)
include raises

namespace Inference

/-- Where nothing is recorded the limit may stop one way to infer only, which is excused. -/
theorem memoized_carriesOver
    {rule otherRule : Expr → Action InferError (InferRule × Ty)}
    (ruleCarries : ∀ expr, CarriesOver excused adjustment (rule expr) (otherRule expr))
    (expr : Expr) :
    CarriesOver excused adjustment (memoized rule expr) (memoized otherRule expr) := by
  intro env
  have sameRecord :
      (((env.adjust adjustment).frames.inferred? expr.id).filter
        fun ty => !(env.adjust adjustment).isUnbound ty) =
        (env.frames.inferred? expr.id).filter fun ty => !env.isUnbound ty := by
    simp only [Environment.frames_adjust, Environment.isUnbound_adjust]
  cases found : (env.frames.inferred? expr.id).filter fun ty => !env.isUnbound ty with
  | some ty =>
      rw [memoized_of_known found, memoized_of_known (sameRecord.trans found)]
      exact .inr rfl
  | none =>
      have isRaised : env.options.maxDepth ≤ (env.adjust adjustment).options.maxDepth :=
        raises.le_maxDepth env.options
      rw [memoized_of_unknown found, memoized_of_unknown (sameRecord.trans found),
        Environment.context_adjust]
      by_cases reached : env.options.maxDepth ≤ env.context.depth
      · rw [if_pos reached]
        rcases raises.excuses with same | ⟨_, excuses⟩
        · have sameLimit : (env.adjust adjustment).options.maxDepth = env.options.maxDepth :=
            same env.options
          rw [sameLimit, if_pos reached]
          exact .inr rfl
        · exact .inl (excuses expr _)
      · rw [if_neg reached, if_neg fun stillReached => reached (Nat.le_trans isRaised stillReached)]
        exact attempted_carriesOver ruleCarries expr _ env

/-- More levels give the same, unless having come to the end of the levels is excused. -/
theorem within_carriesOver
    {levels otherLevels : Nat}
    (fits : levels ≤ otherLevels)
    (excuses : levels = otherLevels ∨ excused none)
    (expr : Expr) :
    CarriesOver excused adjustment (within levels expr) (within otherLevels expr) := by
  induction levels generalizing otherLevels expr with
  | zero =>
      rcases excuses with rfl | isExcused
      · exact memoized_carriesOver raises (fun _ => .exhausted) expr
      · cases otherLevels with
        | zero => exact memoized_carriesOver raises (fun _ => .exhausted) expr
        | succ otherLevels =>
            exact memoized_carriesOver raises (fun _ => .of_excused isExcused) expr
  | succ levels inductionHypothesis =>
      cases otherLevels with
      | zero => contradiction
      | succ otherLevels =>
          refine memoized_carriesOver raises (fun expr => inferForm_carriesOver ?_ expr) expr
          exact inductionHypothesis (Nat.le_of_succ_le_succ fits) (excuses.imp_left Nat.succ.inj)

end Inference

/-- Inference of an expression carries over to any adjustment that raises the limit. -/
theorem infer_carriesOver (expr : Expr) :
    CarriesOver excused adjustment (infer expr) (infer expr) := by
  intro env
  refine Inference.within_carriesOver raises ?_ ?_ expr env
  · exact Nat.sub_le_sub_right (raises.le_maxDepth env.options) env.context.depth
  · refine raises.excuses.imp (fun same => ?_) And.left
    exact congrArg (· - env.context.depth) (same env.options).symm

/-- Inference of a declaration carries over to any adjustment that raises the limit. -/
theorem inferDeclaration_carriesOver (scope : ScopeId) (name : String) :
    CarriesOver excused adjustment (inferDeclaration scope name)
      (inferDeclaration scope name) := by
  refine .bind_environment (fun _ => rfl) fun _ => ?_
  split
  · exact .map (Inference.inferDeclared_carriesOver (infer_carriesOver raises) _ _ _)
  · exact .pure _

end

end ShaderTyping
