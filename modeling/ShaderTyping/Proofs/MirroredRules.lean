import ShaderTyping.Proofs.MirroredInstantiation

namespace ShaderTyping

/-!
# Rules of inference in mirrored environments

If the expressions of a program and those that it was reascribed to have types that are
alike, then so do the expressions made from them: every rule takes the same steps on both
(`inferForm_parallel`).
-/

open ShaderTyping.Environment (Mirroring Matches Together)
open ShaderTyping.Action (Parallel)

variable {mayStop : Prop} {change : ExprId → Nat → Ty → Ty} {levels : Nat}
variable {env env' : Environment}

/-! ## Structs from fields -/

namespace Environment

/-- Adding fields that are alike under one label keeps fields alike. -/
theorem FieldsMatch.insertField
    {fields fields' : List (String × Ty)}
    (alike : env.FieldsMatch fields fields')
    (label : String)
    {ty ty' : Ty}
    (types : env.Matches ty ty') :
    env.FieldsMatch (Ty.insertField label ty fields) (Ty.insertField label ty' fields') := by
  induction alike with
  | nil => exact .cons ⟨rfl, types⟩ .nil
  | @cons field field' rest rest' related others inductionHypothesis =>
      obtain ⟨first, firstType⟩ := field
      obtain ⟨_, firstType'⟩ := field'
      obtain ⟨rfl, firstAlike⟩ := related
      simp only [Ty.insertField]
      split
      · exact .cons ⟨rfl, types⟩ (.cons ⟨rfl, firstAlike⟩ others)
      · split
        · exact .cons ⟨rfl, types⟩ others
        · exact .cons ⟨rfl, firstAlike⟩ inductionHypothesis

/-- Sorting by labels keeps fields alike. -/
theorem FieldsMatch.sortFields
    {fields fields' : List (String × Ty)}
    (alike : env.FieldsMatch fields fields') :
    env.FieldsMatch (Ty.sortFields fields) (Ty.sortFields fields') := by
  refine List.rel_foldl (R := fun field field' : String × Ty =>
    field'.1 = field.1 ∧ env.Matches field.2 field'.2) ?_ .nil alike
  rintro sorted sorted' alikeSorted ⟨label, ty⟩ ⟨_, ty'⟩ ⟨rfl, types⟩
  exact FieldsMatch.insertField alikeSorted _ types

/-- Structs made of fields that are alike are alike. -/
theorem Matches.ofFields
    {fields fields' : List (String × Ty)}
    (alike : env.FieldsMatch fields fields') :
    env.Matches (Ty.ofFields fields) (Ty.ofFields fields') :=
  .struct (Ty.sortFields_sorted fields) alike.sortFields

/-- Functions of several parameters are alike if the parameters and the results are. -/
theorem Matches.curried
    {params params' : List Ty}
    (alikeParams : List.Forall₂ env.Matches params params')
    {result result' : Ty}
    (alikeResult : env.Matches result result') :
    env.Matches (Ty.curried params result) (Ty.curried params' result') := by
  induction alikeParams with
  | nil => exact alikeResult
  | cons alike _ inductionHypothesis => exact alike.function inductionHypothesis

/-- Recording types that are alike for a parameter keeps environments mirrored. -/
theorem recordParameter_together
    (mirrors : Mirroring change levels env env')
    (function : ExprId)
    (position : Nat)
    {ty ty' : Ty}
    (alike : env.Matches ty ty') :
    Together change levels (fun _ _ _ => True) (modify (recordParameter function position ty))
      (modify (recordParameter function position ty')) env env' := by
  have run : Run env (env.recordParameter function position ty) :=
    .recordParameter function position ty
  exact .modified (run.grows mirrors.sound.consistent)
    (mirrors.write_of_run (.parameter function position alike) run
      (.recordParameter function position ty'))

end Environment

namespace Inference

/-- Declared expressions have types that are alike before and after the program is reascribed. -/
def InfersAlike
    (change : ExprId → Nat → Ty → Ty)
    (levels : Nat)
    (infer infer' : Infer) : Prop :=
  ∀ {env env' : Environment} {expr : Expr},
    Mirroring change levels env env' →
    expr ∈ env.declared.nodes →
    Parallel False change levels Matches (infer expr) (infer' (expr.reascribe change)) env env'

/-- A declared expression, and what it was reascribed to. -/
def Reascribed (change : ExprId → Nat → Ty → Ty) (env : Environment) (expr expr' : Expr) : Prop :=
  expr ∈ env.declared.nodes ∧ expr' = expr.reascribe change

/-- What an expression is reascribed to does not depend on what is bound. -/
theorem reascribed_lasting : Parallel.Lasting (Reascribed change) :=
  fun _ _ _ _ grows _ ⟨member, same⟩ => ⟨grows.declared ▸ member, same⟩

/-- The expressions of a list are reascribed one by one. -/
theorem reascribed_map
    {exprs : List Expr}
    (members : ∀ expr ∈ exprs, expr ∈ env.declared.nodes) :
    List.Forall₂ (Reascribed change env) exprs (exprs.map (Expr.reascribe change)) := by
  rw [List.forall₂_map_right_iff]
  exact List.forall₂_same.mpr fun expr member => ⟨members expr member, rfl⟩

/-- A field with a declared expression, and what it was reascribed to. -/
def ReascribedField
    (change : ExprId → Nat → Ty → Ty)
    (env : Environment)
    (field field' : String × Expr) : Prop :=
  field.2 ∈ env.declared.nodes ∧ field' = (field.1, field.2.reascribe change)

/-- What a field is reascribed to does not depend on what is bound. -/
theorem reascribedField_lasting : Parallel.Lasting (ReascribedField change) :=
  fun _ _ _ _ grows _ ⟨member, same⟩ => ⟨grows.declared ▸ member, same⟩

/-- The fields of a struct are reascribed one by one. -/
theorem reascribedField_map
    {fields : List (String × Expr)}
    (members : ∀ value ∈ fields.map Prod.snd, value ∈ env.declared.nodes) :
    List.Forall₂ (ReascribedField change env) fields
      (fields.map fun field => (field.1, field.2.reascribe change)) := by
  rw [List.forall₂_map_right_iff]
  exact List.forall₂_same.mpr fun field member =>
    ⟨members field.2 (List.mem_map_of_mem member), rfl⟩

/-- Fields that are alike stay alike. -/
theorem fieldMatches_lasting :
    Parallel.Lasting fun (later : Environment) (field field' : String × Ty) =>
      field'.1 = field.1 ∧ later.Matches field.2 field'.2 :=
  fun _ _ _ _ grows sound ⟨sameLabel, alike⟩ => ⟨sameLabel, alike.mono grows sound.consistent⟩

/-- A struct that gives a field twice does so in both programs. -/
theorem map_fst_reascribe (fields : List (String × Expr)) :
    (fields.map fun field => (field.1, field.2.reascribe change)).map Prod.fst =
      fields.map Prod.fst := by
  rw [List.map_map]
  rfl

/-- Blaming expressions for errors keeps actions parallel. -/
theorem blame_parallel
    {related : Environment → α → β → Prop}
    {action : Action UnifyError α}
    {action' : Action UnifyError β}
    (expr expr' : Expr)
    (parallel : Parallel mayStop change levels related action action' env env') :
    Parallel mayStop change levels related (blame expr action) (blame expr' action') env env' :=
  .mapError parallel

/-- Unifying with one of two types comes to types that are alike. -/
theorem unifyEither_parallel
    (mirrors : Mirroring change levels env env')
    {first first' second second' ty ty' : Ty}
    (alikeFirst : env.Matches first first')
    (alikeSecond : env.Matches second second')
    (alike : env.Matches ty ty') :
    Parallel mayStop change levels Matches (unifyEither first second ty)
      (unifyEither first' second' ty') env env' := by
  have pushed {env env' : Environment} (mirrors : Mirroring change levels env env') {ty ty' : Ty}
      (alike : env.Matches ty ty') : env.push.Matches ty ty' :=
    alike.mono (.push env) mirrors.push.sound.consistent
  refine .bind (.attempt_transaction mirrors Call.matches_lasting (unify_run _ _ _)
    (unify_run _ _ _) (unify_parallel mirrors.push (pushed mirrors alikeFirst)
      (pushed mirrors alike))) fun {result result' _ _} grows mirrors ends => ?_
  cases result with
  | ok ty =>
      cases result' with
      | ok ty' => exact .pure mirrors ends
      | error cause' => exact ends.elim
  | error cause =>
      cases result' with
      | ok ty' => exact ends.elim
      | error cause' =>
          have consistent := mirrors.sound.consistent
          exact .mapError (.transaction Call.matches_lasting (unify_parallel mirrors.push
            (pushed mirrors (alikeSecond.mono grows consistent))
            (pushed mirrors (alike.mono grows consistent))))

/-- Parameters with types that are alike. -/
def ParametersMatch (env : Environment) : List Parameter → List Parameter → Prop :=
  List.Forall₂ fun param param' => Option.Rel env.Matches param.ascription param'.ascription

/-- Parameters with written types that are alike stay alike. -/
theorem ParametersMatch.mono
    {later : Environment}
    {params params' : List Parameter}
    (alike : ParametersMatch env params params')
    (grows : env.Grows later)
    (consistent : later.frames.Consistent) :
    ParametersMatch later params params' :=
  List.Forall₂.imp (fun _ _ => Snapshot.rel_mono fun types => types.mono grows consistent) alike

/-- Parameters open with types that are alike. -/
theorem openParameters_together
    (mirrors : Mirroring change levels env env')
    (function : ExprId)
    (scope : ScopeId)
    (position : Nat)
    {params params' : List Parameter}
    (alike : ParametersMatch env params params') :
    Together change levels (fun later => List.Forall₂ later.Matches)
      (openParameters function scope position params)
      (openParameters function scope position params') env env' := by
  induction params generalizing params' env env' position with
  | nil =>
      cases alike
      exact .pure mirrors .nil
  | cons param rest inductionHypothesis =>
      cases alike with
      | @cons _ param' _ rest' first others =>
          have recorded {middle middle' : Environment} {ty ty' : Ty}
              (grows : env.Grows middle)
              (mirrors : Mirroring change levels middle middle')
              (types : middle.Matches ty ty') :
              Together change levels (fun later => List.Forall₂ later.Matches)
                (do
                  modify (Environment.recordParameter function position ty)
                  let others ← openParameters function scope (position + 1) rest
                  pure (ty :: others))
                (do
                  modify (Environment.recordParameter function position ty')
                  let others ← openParameters function scope (position + 1) rest'
                  pure (ty' :: others)) middle middle' := by
            refine .bind (Environment.recordParameter_together mirrors function position types)
              fun sinceType mirrors _ => ?_
            have others :=
              ParametersMatch.mono others (grows.trans sinceType) mirrors.sound.consistent
            refine .bind (inductionHypothesis mirrors (position + 1) others)
              fun sinceRecord mirrors opened => ?_
            have types := types.mono (sinceType.trans sinceRecord) mirrors.sound.consistent
            exact .pure mirrors (.cons types opened)
          unfold openParameters
          cases isWritten : param.ascription with
          | some ascription =>
              cases isWritten' : param'.ascription with
              | none => rw [isWritten, isWritten'] at first; cases first
              | some ascription' =>
                  rw [isWritten, isWritten'] at first
                  cases first with
                  | some types => exact recorded (.refl env) mirrors types
          | none =>
              cases isWritten' : param'.ascription with
              | some ascription' => rw [isWritten, isWritten'] at first; cases first
              | none =>
                  refine .bind (Environment.freshPlaceholder_together mirrors scope) ?_
                  rintro _ ty middle middle' grows mirrors ⟨rfl, steady⟩
                  exact recorded grows mirrors (.refl steady)

/-- The actions run inside functions with parameter types that are alike. -/
theorem withActiveParams_parallel
    {related : Environment → α → β → Prop}
    (mirrors : Mirroring change levels env env')
    (lasting : Parallel.Lasting related)
    {types types' : List Ty}
    (alike : List.Forall₂ env.Matches types types')
    {action : Action ε α}
    {action' : Action ε' β}
    (inside :
      ∀ {inner inner' : Environment},
        env.Grows inner →
        Mirroring change levels inner inner' →
        Parallel mayStop change levels related action action' inner inner') :
    Parallel mayStop change levels related (withActiveParams types action)
      (withActiveParams types' action') env env' := by
  have entered :
      Mirroring change levels
        { env with context.activeParams := types :: env.context.activeParams }
        { env' with context.activeParams := types' :: env'.context.activeParams } :=
    mirrors.setContext
      { mirrors.context with activeParams := .cons alike mirrors.context.activeParams }
      mirrors.levels
  have enters :
      env.Grows { env with context.activeParams := types :: env.context.activeParams } :=
    .of_frames rfl rfl
  refine .between (inside enters entered) ?_ fun leaves =>
    ⟨leaves.fresh, leaves.externals, leaves.externalsSteady⟩
  intro value value' inner inner' grows mirrors values
  have others := List.forall₂_drop 1 mirrors.context.activeParams
  rw [List.drop_one, List.drop_one] at others
  have left :
      Mirroring change levels
        { inner with context.activeParams := inner.context.activeParams.tail }
        { inner' with context.activeParams := inner'.context.activeParams.tail } :=
    mirrors.setContext { mirrors.context with activeParams := others } mirrors.levels
  have leaves :
      inner.Grows { inner with context.activeParams := inner.context.activeParams.tail } :=
    .of_frames rfl rfl
  exact ⟨(enters.trans grows).trans leaves, left, lasting leaves left.sound values⟩

/-- The actions run while a declaration has the same provisional type. -/
theorem withProvisional_parallel
    {related : Environment → α → β → Prop}
    (mirrors : Mirroring change levels env env')
    (lasting : Parallel.Lasting related)
    (key : ScopeId × String)
    {provisional : Ty}
    (steady : provisional.Steady)
    {action : Action ε α}
    {action' : Action ε' β}
    (inside :
      ∀ {inner inner' : Environment},
        env.Grows inner →
        Mirroring change levels inner inner' →
        Parallel mayStop change levels related action action' inner inner') :
    Parallel mayStop change levels related (withProvisional key provisional action)
      (withProvisional key provisional action') env env' := by
  have entered :
      Mirroring change levels
        { env with context.inProgress := (key, provisional) :: env.context.inProgress }
        { env' with context.inProgress := (key, provisional) :: env'.context.inProgress } :=
    mirrors.setContext
      { mirrors.context with
        inProgress := congrArg ((key, provisional) :: ·) mirrors.context.inProgress
        provisionalSteady := List.forall_mem_cons.mpr ⟨steady, mirrors.context.provisionalSteady⟩ }
      mirrors.levels
  have enters :
      env.Grows { env with context.inProgress := (key, provisional) :: env.context.inProgress } :=
    .of_frames rfl rfl
  refine .between (inside enters entered) ?_ fun leaves =>
    ⟨leaves.fresh, leaves.externals, leaves.externalsSteady⟩
  intro value value' inner inner' grows mirrors values
  have left :
      Mirroring change levels
        { inner with
          context.inProgress := inner.context.inProgress.filter fun entry => entry.1 != key }
        { inner' with
          context.inProgress := inner'.context.inProgress.filter fun entry => entry.1 != key } :=
    mirrors.setContext
      { mirrors.context with
        inProgress := congrArg (List.filter _) mirrors.context.inProgress
        provisionalSteady := fun entry member =>
          mirrors.context.provisionalSteady entry (List.mem_of_mem_filter member) }
      mirrors.levels
  have leaves :
      inner.Grows
        { inner with
          context.inProgress := inner.context.inProgress.filter fun entry => entry.1 != key } :=
    .of_frames rfl rfl
  exact ⟨(enters.trans grows).trans leaves, left, lasting leaves left.sound values⟩

/--
The types of outside values are alike: written ones are kept, and fresh placeholders get the same
number.
-/
theorem inferExternal_together
    (mirrors : Mirroring change levels env env')
    {expr expr' : Expr}
    (sameScope : expr'.scope = expr.scope)
    {ascription : Option Ty}
    (steady : ∀ ty ∈ ascription, ty.Steady) :
    Together change levels Matches (inferExternal expr ascription) (inferExternal expr' ascription)
      env env' := by
  cases ascription with
  | some ascription => exact Environment.generalize_alike mirrors (.refl (steady ascription rfl))
  | none =>
      unfold inferExternal
      rw [sameScope]
      refine .bind (Environment.freshPlaceholder_together mirrors expr.scope) ?_
      rintro _ ty middle middle' _ mirrors ⟨rfl, steady⟩
      refine .bind (.modified (.of_frames rfl rfl) ?_) fun _ mirrors _ =>
        .pure mirrors (.refl steady)
      exact mirrors.setContext
        { mirrors.context with
          externals := congrArg (ty :: ·) mirrors.context.externals
          externalsSteady := List.forall_mem_cons.mpr ⟨steady, mirrors.context.externalsSteady⟩ }
        mirrors.levels

/-- Types that are alike show parameters that are alike. -/
theorem parameterAt?_alike
    (mirrors : Mirroring change levels env env')
    (position : Nat)
    {ty ty' : Ty}
    (alike : env.Matches ty ty') :
    Option.Rel env.Matches (parameterAt? env position ty) (parameterAt? env' position ty') := by
  induction position generalizing ty ty' with
  | zero =>
      have shape := mirrors.sameShape_head alike
      rw [parameterAt?, parameterAt?]
      generalize env.head ty = found, env'.head ty' = found' at shape ⊢
      cases shape with
      | function alikeParam _ => exact .some alikeParam
      | _ => exact .none
  | succ position inductionHypothesis =>
      have shape := mirrors.sameShape_head alike
      rw [parameterAt?, parameterAt?]
      generalize env.head ty = found, env'.head ty' = found' at shape ⊢
      cases shape with
      | function _ alikeResult => exact inductionHypothesis alikeResult
      | _ => exact .none

/-- Lengths are shown by literals, which are not changed. -/
theorem shownLength_reascribe (expr : Expr) :
    shownLength (expr.reascribe change) = shownLength expr := by
  rw [shownLength, shownLength, Expr.form_reascribe]
  cases expr.form <;> rfl

section Rules

variable {infer infer' : Infer} (infersAlike : InfersAlike change levels infer infer')
include infersAlike

/-- Fresh instances of types that are alike are alike. -/
theorem inferInstance_parallel
    (mirrors : Mirroring change levels env env')
    {expr : Expr}
    (member : expr ∈ env.declared.nodes) :
    Parallel False change levels Matches (inferInstance infer expr)
      (inferInstance infer' (expr.reascribe change)) env env' :=
  .bind (infersAlike mirrors member) fun _ mirrors alike =>
    .of_together (Environment.instantiate_together mirrors alike)

/-- Fresh instances of the types of several expressions are alike one by one. -/
theorem mapM_inferInstance_parallel
    (mirrors : Mirroring change levels env env')
    {exprs : List Expr}
    (members : ∀ expr ∈ exprs, expr ∈ env.declared.nodes) :
    Parallel False change levels (fun later => List.Forall₂ later.Matches)
      (exprs.mapM (inferInstance infer))
      ((exprs.map (Expr.reascribe change)).mapM (inferInstance infer')) env env' := by
  refine .mapM mirrors reascribed_lasting Call.matches_lasting (reascribed_map members) ?_
  rintro expr _ later later' mirrors ⟨member, rfl⟩
  exact inferInstance_parallel infersAlike mirrors member

/-- Arrays of reascribed elements are inferred alike. -/
theorem inferArray_parallel
    (mirrors : Mirroring change levels env env')
    (expr expr' : Expr)
    {elements : List Expr}
    (members : ∀ element ∈ elements, element ∈ env.declared.nodes) :
    Parallel False change levels Matches (inferArray infer expr elements)
      (inferArray infer' expr' (elements.map (Expr.reascribe change))) env env' := by
  cases elements with
  | nil => exact .fail mirrors
  | cons first rest =>
      obtain ⟨firstMember, restMembers⟩ := List.forall_mem_cons.mp members
      refine .bind (inferInstance_parallel infersAlike mirrors firstMember)
        fun grows mirrors component => ?_
      refine .bind (.foldlM mirrors reascribed_lasting
        ((reascribed_map restMembers).imp fun _ _ => reascribed_lasting grows mirrors.sound)
        component ?_) fun _ mirrors component => ?_
      · rintro element _ component component' later later' mirrors ⟨member, rfl⟩ alike
        refine .bind (inferInstance_parallel infersAlike mirrors member) fun grows mirrors ty => ?_
        exact blame_parallel _ _
          (unify_parallel mirrors (alike.mono grows mirrors.sound.consistent) ty)
      · refine .bind (.of_together (Environment.generalize_alike mirrors component))
          fun _ mirrors general => ?_
        refine .pure mirrors (.array general ?_)
        rw [List.length_map]

/-- Accesses to reascribed arrays at reascribed positions are inferred alike. -/
theorem inferIndex_parallel
    (mirrors : Mirroring change levels env env')
    {expr expr' base position : Expr}
    (sameScope : expr'.scope = expr.scope)
    (baseMember : base ∈ env.declared.nodes)
    (positionMember : position ∈ env.declared.nodes) :
    Parallel False change levels Matches (inferIndex infer expr base position)
      (inferIndex infer' expr' (base.reascribe change) (position.reascribe change)) env env' := by
  refine .bind (inferInstance_parallel infersAlike mirrors positionMember)
    fun sincePosition mirrors positionType => ?_
  refine .bind (blame_parallel _ _ (unify_parallel mirrors (.refl (.primitive .int)) positionType))
    fun sinceInt mirrors _ => ?_
  have baseMember := (sincePosition.trans sinceInt).declared ▸ baseMember
  refine .bind (inferInstance_parallel infersAlike mirrors baseMember)
    fun _ mirrors baseType => ?_
  rw [sameScope]
  refine .bind (.of_together (Environment.freshPlaceholder_together mirrors expr.scope)) ?_
  rintro _ component middle middle' sinceBase mirrors ⟨rfl, steady⟩
  refine .bind (.of_together (Environment.freshLength_together mirrors)) ?_
  rintro _ length later later' sinceComponent mirrors rfl
  have baseType := baseType.mono (sinceBase.trans sinceComponent) mirrors.sound.consistent
  refine .bind (blame_parallel _ _ (unify_parallel mirrors baseType (.refl (.array _ steady))))
    fun _ mirrors _ => ?_
  exact Parallel.of_together (Environment.generalize_alike mirrors (.refl steady))

/-- Structs of reascribed fields are inferred alike. -/
theorem inferStruct_parallel
    (mirrors : Mirroring change levels env env')
    (expr expr' : Expr)
    {fields : List (String × Expr)}
    (members : ∀ value ∈ fields.map Prod.snd, value ∈ env.declared.nodes) :
    Parallel False change levels Matches (inferStruct infer expr fields)
      (inferStruct infer' expr' (fields.map fun field => (field.1, field.2.reascribe change)))
      env env' := by
  unfold inferStruct
  rw [List.isEmpty_map, map_fst_reascribe]
  split
  · exact .fail mirrors
  · split
    · exact .fail mirrors
    · refine .bind (.mapM mirrors reascribedField_lasting fieldMatches_lasting
        (reascribedField_map members) ?_) fun _ mirrors typed => .pure mirrors (.ofFields typed)
      rintro field _ later later' mirrors ⟨member, rfl⟩
      refine .bind (inferInstance_parallel infersAlike mirrors member) fun _ mirrors ty => ?_
      refine .bind (.of_together (Environment.generalize_alike mirrors ty))
        fun _ mirrors general => ?_
      exact .pure mirrors ⟨rfl, general⟩

/-- Accesses to a field of a reascribed struct are inferred alike. -/
theorem inferField_parallel
    (mirrors : Mirroring change levels env env')
    {expr expr' base : Expr}
    (sameScope : expr'.scope = expr.scope)
    (member : base ∈ env.declared.nodes)
    (label : String) :
    Parallel False change levels Matches (inferField infer expr base label)
      (inferField infer' expr' (base.reascribe change) label) env env' := by
  refine .bind (inferInstance_parallel infersAlike mirrors member) fun _ mirrors baseType => ?_
  rw [sameScope]
  refine .bind (.of_together (Environment.freshPlaceholder_together mirrors expr.scope)) ?_
  rintro _ slot middle middle' grows mirrors ⟨rfl, steady⟩
  have baseType := baseType.mono grows mirrors.sound.consistent
  have steadyStruct : (Ty.struct [(label, slot)]).Steady :=
    .struct (List.pairwise_singleton _ _) (List.forall_mem_singleton.mpr steady)
  refine .bind (blame_parallel _ _ (unify_parallel mirrors baseType (.refl steadyStruct)))
    fun _ mirrors _ => ?_
  exact Parallel.of_together (Environment.generalize_alike mirrors (.refl steady))

/-- Functions with a reascribed body and parameters that are alike are inferred alike. -/
theorem inferFunction_parallel
    (mirrors : Mirroring change levels env env')
    {expr expr' body : Expr}
    (sameId : expr'.id = expr.id)
    {params params' : List Parameter}
    (alike : ParametersMatch env params params')
    (member : body ∈ env.declared.nodes) :
    Parallel False change levels Matches (inferFunction infer expr params body)
      (inferFunction infer' expr' params' (body.reascribe change)) env env' := by
  unfold inferFunction
  rw [sameId, Expr.scope_reascribe]
  refine .bind (.of_together (openParameters_together mirrors expr.id body.scope 0 alike))
    fun sinceStart mirrors opened => ?_
  refine .bind (withActiveParams_parallel mirrors Call.matches_lasting opened
    fun sinceOpened mirrors => ?_) fun sinceOpened mirrors result => ?_
  · exact inferInstance_parallel infersAlike mirrors
      ((sinceStart.trans sinceOpened).declared ▸ member)
  · refine .bind_environment (.pure mirrors (.curried ?_ result))
    rw [List.forall₂_map_left_iff, List.forall₂_map_right_iff]
    exact opened.imp fun _ _ types =>
      mirrors.resolve (types.mono sinceOpened mirrors.sound.consistent)

/-- Calls of reascribed functions with reascribed arguments are inferred alike. -/
theorem inferCall_parallel
    (mirrors : Mirroring change levels env env')
    (expr expr' : Expr)
    {callee : Expr}
    (member : callee ∈ env.declared.nodes)
    {args : List Expr}
    (members : ∀ arg ∈ args, arg ∈ env.declared.nodes) :
    Parallel False change levels Matches (inferCall infer expr callee args)
      (inferCall infer' expr' (callee.reascribe change) (args.map (Expr.reascribe change)))
      env env' := by
  refine .bind (inferInstance_parallel infersAlike mirrors member)
    fun sinceStart mirrors calleeType => ?_
  have members := sinceStart.declared ▸ members
  refine .bind (mapM_inferInstance_parallel infersAlike mirrors members)
    fun sinceCallee mirrors argTypes => ?_
  exact blame_parallel _ _
    (call_parallel mirrors (calleeType.mono sinceCallee mirrors.sound.consistent) argTypes)

/-- Conditionals of reascribed parts are inferred alike. -/
theorem inferConditional_parallel
    (mirrors : Mirroring change levels env env')
    {condition whenTrue whenFalse : Expr}
    (conditionMember : condition ∈ env.declared.nodes)
    (trueMember : whenTrue ∈ env.declared.nodes)
    (falseMember : whenFalse ∈ env.declared.nodes) :
    Parallel False change levels Matches (inferConditional infer condition whenTrue whenFalse)
      (inferConditional infer' (condition.reascribe change) (whenTrue.reascribe change)
        (whenFalse.reascribe change)) env env' := by
  refine .bind (inferInstance_parallel infersAlike mirrors conditionMember)
    fun sinceStart mirrors conditionType => ?_
  refine .bind (blame_parallel _ _
    (unify_parallel mirrors (.refl (.primitive .bool)) conditionType)) fun sinceCondition mirrors _ => ?_
  have sinceStart := sinceStart.trans sinceCondition
  refine .bind (inferInstance_parallel infersAlike mirrors (sinceStart.declared ▸ trueMember))
    fun sinceBool mirrors trueType => ?_
  have sinceStart := sinceStart.trans sinceBool
  refine .bind (inferInstance_parallel infersAlike mirrors (sinceStart.declared ▸ falseMember))
    fun sinceTrue mirrors falseType => ?_
  refine .bind (blame_parallel _ _
    (unify_parallel mirrors (trueType.mono sinceTrue mirrors.sound.consistent) falseType))
    fun _ mirrors ty => ?_
  exact .of_together (Environment.generalize_alike mirrors ty)

/-- Parameters are inferred alike: their functions are listed in both programs. -/
theorem inferParameter_parallel
    (mirrors : Mirroring change levels env env')
    (expr expr' : Expr)
    (function : ExprId)
    (position : Nat) :
    Parallel False change levels Matches (inferParameter infer expr function position)
      (inferParameter infer' expr' function position) env env' := by
  have recorded {later later' : Environment}
      (mirrors : Mirroring change levels later later') :
      Option.Rel later.Matches (later.frames.parameter? function position)
        (later'.frames.parameter? function position) :=
    mirrors.snapshot.parameters ⟨function, position⟩
  refine .bind_environment ?_
  have first := recorded mirrors
  generalize env.frames.parameter? function position = found,
    env'.frames.parameter? function position = found' at first ⊢
  cases first with
  | some alike => exact .pure mirrors alike
  | none =>
      simp only [mirrors.program, Declarations.function?_reascribe]
      cases isOwner : env.declared.function? function with
      | none => exact .fail mirrors
      | some owner =>
          refine .bind (infersAlike mirrors (mirrors.functions _ (mem_of_lookup isOwner)))
            fun {ownerType ownerType' later later'} _ mirrors alike => ?_
          refine .bind_environment ?_
          have second := recorded mirrors
          generalize later.frames.parameter? function position = found,
            later'.frames.parameter? function position = found' at second ⊢
          cases second with
          | some alike => exact .pure mirrors alike
          | none =>
              have shown := parameterAt?_alike mirrors position alike
              generalize parameterAt? later position ownerType = param,
                parameterAt? later' position ownerType' = param' at shown ⊢
              cases shown with
              | some alike => exact .pure mirrors alike
              | none => exact .fail mirrors

/-- Dynamic arrays of a reascribed length and generator are inferred alike. -/
theorem inferDynamicArray_parallel
    (mirrors : Mirroring change levels env env')
    {expr expr' length generator : Expr}
    (sameScope : expr'.scope = expr.scope)
    (lengthMember : length ∈ env.declared.nodes)
    (generatorMember : generator ∈ env.declared.nodes) :
    Parallel False change levels Matches (inferDynamicArray infer expr length generator)
      (inferDynamicArray infer' expr' (length.reascribe change) (generator.reascribe change))
      env env' := by
  unfold inferDynamicArray
  rw [sameScope, shownLength_reascribe]
  refine .bind (inferInstance_parallel infersAlike mirrors lengthMember)
    fun sinceStart mirrors lengthType => ?_
  refine .bind (blame_parallel _ _ (unifyEither_parallel mirrors (.refl (.primitive .int))
    (.refl (.primitive .uint)) lengthType)) fun sinceLength mirrors _ => ?_
  have sinceStart := sinceStart.trans sinceLength
  cases shownLength length with
  | error cause => exact .fail mirrors
  | ok shown =>
      refine .bind (inferInstance_parallel infersAlike mirrors
        (sinceStart.declared ▸ generatorMember)) fun _ mirrors generatorType => ?_
      refine .bind (.of_together (Environment.freshPlaceholder_together mirrors expr.scope)) ?_
      rintro _ element middle middle' sinceGenerator mirrors ⟨rfl, steady⟩
      have generatorType := generatorType.mono sinceGenerator mirrors.sound.consistent
      refine .bind (blame_parallel _ _ (unifyEither_parallel mirrors
        (.refl (.function (.primitive .int) steady)) (.refl (.function (.primitive .uint) steady))
        generatorType)) fun _ mirrors _ => ?_
      cases shown with
      | some count => exact .pure mirrors (.refl (.array count steady))
      | none =>
          refine .bind (.of_together (Environment.freshLength_together mirrors)) ?_
          rintro _ count later later' _ mirrors rfl
          exact .pure mirrors (.refl (.array count steady))

/-- The generalized type of a declared variable is the same in both programs. -/
theorem inferDeclared_parallel
    (mirrors : Mirroring change levels env env')
    (declaredIn : ScopeId)
    (name : String)
    {expr : Expr}
    (member : expr ∈ env.declared.nodes) :
    Parallel False change levels (fun _ ty ty' => ty' = ty ∧ ty.Steady)
      (inferDeclared infer declaredIn name expr)
      (inferDeclared infer' declaredIn name (expr.reascribe change)) env env' := by
  refine .bind_environment ?_
  rw [mirrors.context.inProgress]
  cases isProvisional : env.context.inProgress.lookup (declaredIn, name) with
  | some provisional =>
      exact .pure mirrors
        ⟨rfl, mirrors.context.provisionalSteady _ (mem_of_lookup isProvisional)⟩
  | none =>
      refine .bind (.of_together (Environment.freshPlaceholder_together mirrors declaredIn)) ?_
      rintro _ provisional middle middle' sinceStart mirrors ⟨rfl, steady⟩
      refine .bind (withProvisional_parallel mirrors Call.matches_lasting (declaredIn, name) steady
        fun sinceProvisional mirrors => ?_) fun _ mirrors ty => ?_
      · refine .bind (infersAlike mirrors
          ((sinceStart.trans sinceProvisional).declared ▸ member)) fun _ mirrors ty => ?_
        exact blame_parallel _ _ (unify_parallel mirrors (.refl steady) ty)
      · exact .of_together (Environment.generalize_together mirrors ty)

/-- References are inferred alike: they find declarations that were reascribed. -/
theorem inferReference_parallel
    (mirrors : Mirroring change levels env env')
    {expr expr' : Expr}
    (sameScope : expr'.scope = expr.scope)
    (name : String) :
    Parallel False change levels Matches (inferReference infer expr name)
      (inferReference infer' expr' name) env env' := by
  refine .bind_environment ?_
  simp only [sameScope, mirrors.program, Declarations.findVariable?_reascribe]
  cases isFound : env.declared.findVariable? expr.scope name with
  | none => exact .fail mirrors
  | some found =>
      obtain ⟨declaredIn, value⟩ := found
      obtain ⟨declaration, isDeclared, rfl⟩ := DeclarationTable.exists_of_lookup? isFound
      refine .bind (inferDeclared_parallel infersAlike mirrors declaredIn name
        (Declarations.value_mem_nodes isDeclared)) ?_
      rintro _ ty middle middle' _ mirrors ⟨rfl, steady⟩
      exact .of_together (Environment.instantiate_together mirrors (.refl steady))

/-- A rule comes to the same for an expression and for what it was reascribed to. -/
theorem inferForm_parallel
    (mirrors : Mirroring change levels env env')
    {expr : Expr}
    (member : expr ∈ env.declared.nodes) :
    Parallel False change levels
      (fun later typed typed' => typed'.1 = typed.1 ∧ later.Matches typed.2 typed'.2)
      (inferForm infer expr) (inferForm infer' (expr.reascribe change)) env env' := by
  have plain := mirrors.plain expr member
  have parts : ∀ child ∈ expr.form.children, child ∈ env.declared.nodes := fun child isChild =>
    Declarations.child_mem_nodes member isChild
  have named {rule : InferRule} {action action' : Action InferError Ty}
      (parallel : Parallel False change levels Matches action action' env env') :
      Parallel False change levels
        (fun later typed typed' => typed'.1 = typed.1 ∧ later.Matches typed.2 typed'.2)
        ((rule, ·) <$> action) ((rule, ·) <$> action') env env' :=
    parallel.map fun alike => ⟨rfl, alike⟩
  have written {ty ty' : Ty} (alike : (Environment.ofDeclarations env.declared).Matches ty ty') :
      env.Matches ty ty' :=
    alike.mono (Environment.ofDeclarations_grows env) mirrors.sound.consistent
  unfold inferForm
  rw [Expr.form_reascribe]
  unfold Expr.Plain at plain
  cases isForm : expr.form with
  | literal value =>
      refine .pure mirrors ⟨rfl, .refl ?_⟩
      cases value <;> exact .primitive _
  | array elements =>
      rw [isForm] at parts
      simp only [Expr.reascribeForm, Expr.reascribeList_eq]
      exact named (inferArray_parallel infersAlike mirrors _ _ parts)
  | index base position =>
      rw [isForm] at parts
      obtain ⟨baseMember, others⟩ := List.forall_mem_cons.mp parts
      exact named (inferIndex_parallel infersAlike mirrors (expr.scope_reascribe change) baseMember
        (List.forall_mem_singleton.mp others))
  | struct fields =>
      rw [isForm] at parts
      simp only [Expr.reascribeForm, Expr.reascribeFields_eq]
      exact named (inferStruct_parallel infersAlike mirrors _ _ parts)
  | field base label =>
      rw [isForm] at parts
      exact named (inferField_parallel infersAlike mirrors (expr.scope_reascribe change)
        (List.forall_mem_singleton.mp parts) label)
  | function params body =>
      rw [isForm] at parts plain
      have alike : ParametersMatch env params (Parameter.reascribe (change expr.id) params) :=
        plain.imp fun _ _ => Snapshot.rel_mono written
      exact named (inferFunction_parallel infersAlike mirrors (expr.id_reascribe change) alike
        (List.forall_mem_singleton.mp parts))
  | call callee args =>
      rw [isForm] at parts
      obtain ⟨calleeMember, argMembers⟩ := List.forall_mem_cons.mp parts
      simp only [Expr.reascribeForm, Expr.reascribeList_eq]
      exact named (inferCall_parallel infersAlike mirrors _ _ calleeMember argMembers)
  | conditional condition whenTrue whenFalse =>
      rw [isForm] at parts
      obtain ⟨conditionMember, branchMembers⟩ := List.forall_mem_cons.mp parts
      obtain ⟨trueMember, others⟩ := List.forall_mem_cons.mp branchMembers
      exact named (inferConditional_parallel infersAlike mirrors conditionMember trueMember
        (List.forall_mem_singleton.mp others))
  | reference name =>
      exact named (inferReference_parallel infersAlike mirrors (expr.scope_reascribe change) name)
  | external kind name ascription =>
      rw [isForm] at plain
      have sameScope := expr.scope_reascribe change
      exact named (.of_together (inferExternal_together mirrors sameScope plain))
  | parameter function position =>
      exact named (inferParameter_parallel infersAlike mirrors _ _ function position)
  | dynamicArray length generator =>
      rw [isForm] at parts
      obtain ⟨lengthMember, others⟩ := List.forall_mem_cons.mp parts
      exact named (inferDynamicArray_parallel infersAlike mirrors (expr.scope_reascribe change)
        lengthMember (List.forall_mem_singleton.mp others))
  | union options =>
      rw [isForm] at plain
      exact plain.elim
  | native ty =>
      rw [isForm] at plain
      exact .pure mirrors ⟨rfl, .refl plain⟩

end Rules

end Inference

end ShaderTyping
