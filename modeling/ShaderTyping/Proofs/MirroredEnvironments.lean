import ShaderTyping.Proofs.CalmRuns
import ShaderTyping.Proofs.GeneralizedTypes
import ShaderTyping.Proofs.ReascribedPrograms
import ShaderTyping.Proofs.Snapshots

namespace ShaderTyping

/-!
# Environments that mirror each other

Two environments mirror each other if one program was reascribed from the other, and all
that is found in them is alike.  Whatever looks at a type gives results that are alike:
following and resolving it (`Mirroring.follow`, `Mirroring.head`, `Mirroring.resolve`) as well
as the occurs check and the monomorphic variables; expanding gives even the same type
(`Mirroring.expand`).
-/

/-! ## Findings -/

namespace Finding

/-- The same finding about types that are related. -/
inductive Matches (related : Ty → Ty → Prop) : Finding → Finding → Prop where
  | placeholder (id : PlaceholderId) {ty ty' : Ty} :
      related ty ty' → Matches related (.placeholder id ty) (.placeholder id ty')
  | length (id : LengthId) (length : Length) :
      Matches related (.length id length) (.length id length)
  | generic (id : LengthId) : Matches related (.generic id) (.generic id)
  | inferred (id : ExprId) {ty ty' : Ty} :
      related ty ty' → Matches related (.inferred id ty) (.inferred id ty')
  | parameter (function : ExprId) (position : Nat) {ty ty' : Ty} :
      related ty ty' →
      Matches related (.parameter function position ty) (.parameter function position ty')

end Finding

namespace Snapshot

/-- The same findings about types that are related. -/
structure Matches (related : Ty → Ty → Prop) (snapshot snapshot' : Snapshot) : Prop where
  placeholders :
    ∀ id, Option.Rel related (snapshot.placeholder? id) (snapshot'.placeholder? id)
  lengths : ∀ id, snapshot'.length? id = snapshot.length? id
  generic : ∀ id, snapshot'.isGeneric id = snapshot.isGeneric id
  inferred : ∀ id, Option.Rel related (snapshot.inferred? id) (snapshot'.inferred? id)
  parameters : ∀ key, Option.Rel related (snapshot.parameter? key) (snapshot'.parameter? key)

/-- Findings that are related are related by what follows from that. -/
theorem rel_mono
    {related weaker : α → β → Prop}
    (implies : ∀ {first second}, related first second → weaker first second)
    {first : Option α}
    {second : Option β}
    (holds : Option.Rel related first second) :
    Option.Rel weaker first second := by
  cases holds with
  | some holds => exact .some (implies holds)
  | none => exact .none

/-- Writing related values keeps tables related. -/
theorem rel_update
    [DecidableEq κ]
    {related : α → β → Prop}
    {table : κ → Option α}
    {table' : κ → Option β}
    (tables : ∀ key, Option.Rel related (table key) (table' key))
    {value : α}
    {value' : β}
    (values : related value value')
    (key other : κ) :
    Option.Rel related (Function.update table key (some value) other)
      (Function.update table' key (some value') other) := by
  rw [Function.update_apply, Function.update_apply]
  split
  · exact .some values
  · exact tables other

namespace Matches

variable {related weaker : Ty → Ty → Prop} {snapshot snapshot' : Snapshot}

/-- Snapshots that are alike are alike by a weaker relation of types. -/
theorem mono
    (alike : snapshot.Matches related snapshot')
    (implies : ∀ {ty ty'}, related ty ty' → weaker ty ty') :
    snapshot.Matches weaker snapshot' where
  placeholders id := rel_mono implies (alike.placeholders id)
  lengths := alike.lengths
  generic := alike.generic
  inferred id := rel_mono implies (alike.inferred id)
  parameters key := rel_mono implies (alike.parameters key)

/-- Findings that are alike keep snapshots alike. -/
theorem addTo
    (alike : snapshot.Matches related snapshot')
    {finding finding' : Finding}
    (findings : finding.Matches related finding') :
    (finding.addTo snapshot).Matches related (finding'.addTo snapshot') := by
  cases findings with
  | placeholder id types =>
      exact { alike with placeholders := rel_update alike.placeholders types id }
  | length id length =>
      refine { alike with lengths := fun other => ?_ }
      simp only [Finding.addTo, Function.update_apply, alike.lengths]
  | generic id =>
      refine { alike with generic := fun other => ?_ }
      simp only [Finding.addTo, Function.update_apply, alike.generic]
  | inferred id types => exact { alike with inferred := rel_update alike.inferred types id }
  | parameter function position types =>
      exact { alike with parameters := rel_update alike.parameters types ⟨function, position⟩ }

end Matches

end Snapshot

/-- The same context with parameter types that are related. -/
structure Context.Matches (related : Ty → Ty → Prop) (context context' : Context) : Prop where
  activeParams :
    List.Forall₂ (List.Forall₂ related) context.activeParams context'.activeParams
  inProgress : context'.inProgress = context.inProgress
  externals : context'.externals = context.externals
  depth : context'.depth = context.depth
  provisionalSteady : ∀ entry ∈ context.inProgress, entry.2.Steady
  externalsSteady : ∀ ty ∈ context.externals, ty.Steady

/-- Contexts that are alike are alike by a weaker relation of types. -/
theorem Context.Matches.mono
    {related weaker : Ty → Ty → Prop}
    {context context' : Context}
    (alike : context.Matches related context')
    (implies : ∀ {ty ty'}, related ty ty' → weaker ty ty') :
    context.Matches weaker context' :=
  { alike with
    activeParams := alike.activeParams.imp fun _ _ types => types.imp fun _ _ => implies }

namespace Environment

variable {change : ExprId → Nat → Ty → Ty} {levels : Nat}
variable {env env' later later' : Environment}

/-! ## Changes that show nothing -/

/-- Everything that can be read is the same. -/
structure ReadsLike (env later : Environment) : Prop where
  declared : later.declared = env.declared
  snapshot : later.frames.snapshot = env.frames.snapshot
  context : later.context = env.context
  fresh : later.fresh = env.fresh
  maxDepth : later.options.maxDepth = env.options.maxDepth

namespace ReadsLike

theorem refl (env : Environment) : env.ReadsLike env :=
  ⟨rfl, rfl, rfl, rfl, rfl⟩

theorem trans
    (first : env.ReadsLike later)
    (second : later.ReadsLike later') :
    env.ReadsLike later' where
  declared := second.declared.trans first.declared
  snapshot := second.snapshot.trans first.snapshot
  context := second.context.trans first.context
  fresh := second.fresh.trans first.fresh
  maxDepth := second.maxDepth.trans first.maxDepth

/-- A step of unification is not read. -/
theorem traceUnify (event : UnifyEvent) (left right : Operand) (env : Environment) :
    env.ReadsLike (env.traceUnify event left right) := by
  rw [traceUnify_eq]
  exact ⟨rfl, rfl, rfl, rfl, rfl⟩

/-- A step of inference is not read. -/
theorem traceInfer (expr : Expr) (rule : InferRule) (ty : Ty) (env : Environment) :
    env.ReadsLike (env.traceInfer expr rule ty) := by
  rw [traceInfer_eq]
  exact ⟨rfl, rfl, rfl, rfl, rfl⟩

/-- A new frame is read through. -/
theorem push (env : Environment) : env.ReadsLike env.push :=
  ⟨rfl, env.frames.snapshot_push, rfl, rfl, rfl⟩

/-- After a commit the same is read as before. -/
theorem commit (env : Environment) : env.ReadsLike (env.finish true) := by
  rw [finish_eq]
  exact ⟨rfl, env.frames.snapshot_finish_true, rfl, rfl, rfl⟩

/-- Placeholders are bound alike in environments that read alike. -/
theorem binding? (shows : env.ReadsLike later) (id : PlaceholderId) :
    later.binding? id = env.binding? id :=
  congrFun (congrArg Snapshot.placeholder? shows.snapshot) id

/-- Length variables are bound alike in environments that read alike. -/
theorem length? (shows : env.ReadsLike later) (id : LengthId) :
    later.frames.length? id = env.frames.length? id :=
  congrFun (congrArg Snapshot.length? shows.snapshot) id

/-- An environment that reads alike knows nothing less. -/
theorem grows (shows : env.ReadsLike later) : env.Grows later where
  declared := shows.declared
  bindings found := (shows.binding? _).trans found
  lengths found := (shows.length? _).trans found

end ReadsLike

/-- Lengths that are bound alike are resolved alike. -/
theorem resolveLength_congr
    (consistent : env.frames.Consistent)
    (consistent' : env'.frames.Consistent)
    (same : ∀ id, env'.frames.length? id = env.frames.length? id)
    (length : Length) :
    env'.resolveLength length = env.resolveLength length := by
  obtain ⟨rank, _, falls⟩ := exists_lengthRank consistent
  induction length using (measure rank).wf.induction with
  | h length inductionHypothesis =>
      cases length with
      | known count => rfl
      | var id =>
          rw [resolveLength_var consistent, resolveLength_var consistent', same]
          cases found : env.frames.length? id with
          | none => rfl
          | some bound => exact inductionHypothesis bound (falls found)

/-- Lengths resolve alike in environments that read alike. -/
theorem ReadsLike.resolveLength
    (shows : env.ReadsLike later)
    (consistent : env.frames.Consistent)
    (laterConsistent : later.frames.Consistent)
    (length : Length) :
    later.resolveLength length = env.resolveLength length :=
  resolveLength_congr consistent laterConsistent shows.length? length

/-! ## What looking at types finds -/

/-- A leaf that stands for nothing else is expanded to itself. -/
theorem expand_leaf_of_final
    (acyclic : env.Acyclic)
    {leaf : Ty}
    (isLeaf : leaf.IsLeaf)
    (isFinal : env.standsFor? leaf = none) :
    env.expand leaf = leaf := by
  rw [expand_eq_subst acyclic]
  cases isLeaf with
  | primitive | parametric => rfl
  | named scope name =>
      have undeclared : env.definition? scope name = none := Option.map_eq_none_iff.mp isFinal
      simp only [Ty.subst_named, expansion, undeclared]
  | placeholder scope id =>
      have unbound : env.binding? id = none := isFinal
      simp only [Ty.subst_placeholder, expansion, unbound]

/-- A leaf that stands for nothing else is reached exactly if expanding leads to it. -/
theorem reaches_iff_mem_leaves_expand
    (acyclic : env.Acyclic)
    {ty target : Ty}
    (isLeaf : target.IsLeaf)
    (isFinal : env.standsFor? target = none) :
    env.Reaches ty target ↔ target ∈ (env.expand ty).leaves := by
  have inParts {ty part : Ty} (isPart : part ∈ ty.leaves)
      (member : target ∈ (env.expand part).leaves) : target ∈ (env.expand ty).leaves := by
    rw [expand_eq_subst acyclic] at member ⊢
    exact Ty.mem_leaves_subst_iff.mpr ⟨part, isPart, member⟩
  constructor
  · rintro ⟨leaf, inLeaves, path⟩
    refine inParts inLeaves ?_
    clear inLeaves
    induction path using Relation.ReflTransGen.head_induction_on with
    | refl =>
        rw [expand_leaf_of_final acyclic isLeaf isFinal, isLeaf.leaves_eq]
        exact List.mem_singleton_self _
    | head step _ inductionHypothesis =>
        obtain ⟨next, stands, isPart⟩ := step
        rw [expand_of_standsFor? acyclic stands]
        exact inParts isPart inductionHypothesis
  · obtain ⟨rank, _, ranks⟩ := exists_expansionRank acyclic
    intro member
    induction ty using (measure rank).wf.induction with
    | h ty inductionHypothesis =>
        rw [expand_eq_subst acyclic, Ty.mem_leaves_subst_iff] at member
        obtain ⟨part, isPart, member⟩ := member
        rw [← expand_eq_subst acyclic] at member
        cases stands : env.standsFor? part with
        | none =>
            have partIsLeaf := Ty.isLeaf_of_mem_leaves isPart
            rw [expand_leaf_of_final acyclic partIsLeaf stands, partIsLeaf.leaves_eq,
              List.mem_singleton] at member
            exact ⟨part, isPart, member ▸ .refl⟩
        | some next =>
            rw [expand_of_standsFor? acyclic stands] at member
            exact .of_standsFor? isPart stands
              (inductionHypothesis next (ranks isPart stands) member)

/-- The lengths of a resolved type are resolved. -/
theorem resolveLength_of_mem_lengths_resolve
    (consistent : env.frames.Consistent)
    {ty : Ty}
    {length : Length}
    (member : length ∈ (env.resolve ty).lengths) :
    env.resolveLength length = length := by
  cases length with
  | known count => rfl
  | var id =>
      have unbound := isBound_of_mem_vars_resolve consistent (Ty.length_mem_vars_iff.mpr member)
      rw [resolveLength_var consistent, isBound_length_eq_false_iff.mp unbound]

/-- Unfolding a resolved type neither adds variables nor hides any. -/
theorem mem_vars_unfold_resolve
    (consistent : env.frames.Consistent)
    {ty : Ty}
    {var : Var} :
    var ∈ (env.unfold (env.resolve ty)).vars ↔ var ∈ (env.resolve ty).vars := by
  rw [Ty.vars, unfold, Ty.mem_collect_subst_iff, Ty.vars, Ty.mem_collect_iff]
  refine or_congr (exists_congr fun part => and_congr_right fun inLeaves => ?_)
    (exists_congr fun length => and_congr_right fun inLengths => ?_)
  · have isLeaf := Ty.isLeaf_of_mem_leaves inLeaves
    change var ∈ (env.unfold part).vars ↔ var ∈ part.leafVars
    rcases unfold_leaf isLeaf with isSame | ⟨scope, name, rfl, constant, isMeaning⟩
    · rw [isSame]
      cases isLeaf <;> simp [Ty.vars]
    · rw [isMeaning, constant.vars_eq_nil]
      simp [Ty.leafVars]
  · change var ∈ Ty.lengthVars (env.resolveLength length) ↔ _
    rw [resolveLength_of_mem_lengths_resolve consistent inLengths]

/-- Resolving keeps a type steady if all bindings are. -/
theorem steady_resolve
    (consistent : env.frames.Consistent)
    (bindings : ∀ {id bound}, env.binding? id = some bound → bound.Steady)
    {ty : Ty}
    (steady : ty.Steady) :
    (env.resolve ty).Steady := by
  induction ty using bindingInduction consistent with
  | step ty inductionHypothesis =>
      rw [resolve_eq_subst consistent]
      refine steady.subst (fun _ => rfl) fun leaf isLeaf => ?_
      cases Ty.isLeaf_of_mem_leaves isLeaf with
      | primitive kind => exact .primitive kind
      | named scope name => exact .named scope name
      | parametric scope label => exact .parametric scope label
      | placeholder scope id =>
          simp only [Ty.subst_placeholder, resolution]
          cases found : env.binding? id with
          | none => exact .placeholder scope id
          | some bound => exact inductionHypothesis isLeaf found (bindings found)

/-- Expanding keeps a type steady if all bindings are. -/
theorem steady_expand
    (sound : env.Sound)
    (bindings : ∀ {id bound}, env.binding? id = some bound → bound.Steady)
    {ty : Ty}
    (steady : ty.Steady) :
    (env.expand ty).Steady := by
  obtain ⟨rank, _, ranks⟩ := exists_expansionRank sound.acyclic
  induction ty using (measure rank).wf.induction with
  | h ty inductionHypothesis =>
      rw [expand_eq_subst sound.acyclic]
      refine steady.subst (fun _ => rfl) fun leaf isLeaf => ?_
      cases Ty.isLeaf_of_mem_leaves isLeaf with
      | primitive kind => exact .primitive kind
      | parametric scope label => exact .parametric scope label
      | named scope name =>
          simp only [Ty.subst_named, expansion]
          cases found : env.definition? scope name with
          | none => exact .named scope name
          | some entry =>
              exact inductionHypothesis entry.2 (ranks.definition isLeaf found)
                (sound.definitions found)
      | placeholder scope id =>
          simp only [Ty.subst_placeholder, expansion]
          cases found : env.binding? id with
          | none => exact .placeholder scope id
          | some bound =>
              exact inductionHypothesis bound (ranks.binding isLeaf found) (bindings found)

/-! ## Sound environments stay sound -/

namespace Sound

/-- Runs keep an environment sound. -/
theorem of_run (sound : env.Sound) (run : Run env later) : later.Sound where
  consistent := run.consistent sound.consistent
  acyclic := run.acyclic sound.consistent sound.acyclic
  definitions isDefined := by
    rw [definition?_congr (run.grows sound.consistent).declared] at isDefined
    exact sound.definitions isDefined

/-- What reads like a sound environment is sound. -/
theorem of_readsLike
    (sound : env.Sound)
    (shows : env.ReadsLike later)
    (consistent : later.frames.Consistent) :
    later.Sound where
  consistent := consistent
  acyclic := sound.acyclic.congr (standsFor?_congr shows.declared shows.binding?)
  definitions isDefined := by
    rw [definition?_congr shows.declared] at isDefined
    exact sound.definitions isDefined

/-- A new frame keeps an environment sound. -/
theorem push (sound : env.Sound) : env.push.Sound :=
  sound.of_readsLike (.push env) sound.consistent.push

/-- A step of unification keeps an environment sound. -/
theorem traceUnify (sound : env.Sound) (event : UnifyEvent) (left right : Operand) :
    (env.traceUnify event left right).Sound :=
  sound.of_run (.binds (.note event left right))

/-- An unbound placeholder may be bound to a type in which it does not occur. -/
theorem bindPlaceholder
    (sound : env.Sound)
    {id : PlaceholderId}
    {ty : Ty}
    (unbound : env.binding? id = none)
    (notFound : env.occurs id ty = false) :
    (env.bindPlaceholder id ty).Sound ∧ env.Grows (env.bindPlaceholder id ty) := by
  have bound : Run env
      ((env.traceUnify .identity (.type ty) (.type ty)).bindPlaceholder id ty) :=
    .binds (.placeholder .identity (.type ty) (.type ty) unbound notFound)
  have shows :
      ((env.traceUnify .identity (.type ty) (.type ty)).bindPlaceholder id ty).ReadsLike
        (env.bindPlaceholder id ty) := by
    rw [traceUnify_eq]
    exact ⟨rfl, rfl, rfl, rfl, rfl⟩
  refine
    ⟨(sound.of_run bound).of_readsLike shows ?_, (bound.grows sound.consistent).trans shows.grows⟩
  exact consistent_bindPlaceholder sound.consistent unbound notFound

end Sound

/-- A head stands for what the type stands for, if that is a constant. -/
theorem Sound.head_of_constant
    (sound : env.Sound)
    {ty : Ty}
    (steady : ty.Steady)
    (constant : (env.unfold ty).Constant) :
    env.Matches ty (env.head ty) := by
  by_cases reference : env.RefersToConstant ty
  · exact (sound.head_of_reference reference).1
  · have isFinal : env.standsFor? ty = none := by
      cases ty with
      | named scope name =>
          exact absurd ⟨scope, name, rfl, constant_of_unfold_named constant⟩ reference
      | placeholder scope id => cases constant
      | _ => rfl
    rw [head_eq_self isFinal]
    exact .refl steady

/-! ## Mirroring environments -/

/--
The second environment is that of a reascribed program, and the same is known in it about
types that are alike.
-/
structure Mirroring
    (change : ExprId → Nat → Ty → Ty)
    (levels : Nat)
    (env env' : Environment) : Prop where
  sound : env.Sound
  sound' : env'.Sound
  program : env'.declared = env.declared.reascribe change
  functions : env.declared.ListsFunctions
  plain : ∀ node ∈ env.declared.nodes, node.Plain (ofDeclarations env.declared).Matches change
  snapshot : env.frames.snapshot.Matches env.Matches env'.frames.snapshot
  context : env.context.Matches env.Matches env'.context
  fresh : env'.fresh = env.fresh
  maxDepth : env'.options.maxDepth = env.options.maxDepth
  /-- The levels that are left for the nesting of expressions. -/
  levels : env.options.maxDepth ≤ env.context.depth + levels

namespace Mirroring

/-- References stand for the same types in both environments. -/
theorem definition? (mirrors : Mirroring change levels env env') (scope : ScopeId) (name : String) :
    env'.definition? scope name = env.definition? scope name := by
  rw [Environment.definition?, mirrors.program]
  rfl

/-- A placeholder is bound to types that are alike, or in neither environment. -/
theorem binding (mirrors : Mirroring change levels env env') (id : PlaceholderId) :
    Option.Rel env.Matches (env.binding? id) (env'.binding? id) :=
  mirrors.snapshot.placeholders id

/-- Lengths resolve alike in both environments. -/
theorem resolveLength (mirrors : Mirroring change levels env env') (length : Length) :
    env'.resolveLength length = env.resolveLength length :=
  resolveLength_congr mirrors.sound.consistent mirrors.sound'.consistent
    mirrors.snapshot.lengths length

/-- Declared types mean the same in both environments. -/
theorem meaning (mirrors : Mirroring change levels env env') (scope : ScopeId) (name : String) :
    env'.declared.meaning scope name = env.declared.meaning scope name :=
  expand_congr ((ofDeclarations_grows env).acyclic mirrors.sound.acyclic)
    ((ofDeclarations_grows env').acyclic mirrors.sound'.acyclic)
    mirrors.definition? (fun _ => rfl)
    (fun length =>
      (resolveLength_ofDeclarations _ length).trans (resolveLength_ofDeclarations _ length).symm)
    (.named scope name)

/-- References to constants are written out alike in both environments. -/
theorem unfolding (mirrors : Mirroring change levels env env') :
    env'.unfolding = env.unfolding := by
  have sameMeaning : env'.declared.meaning = env.declared.meaning :=
    funext fun scope => funext (mirrors.meaning scope)
  rw [Environment.unfolding, Environment.unfolding, sameMeaning, funext mirrors.resolveLength]

/-- Types are alike in one environment exactly if they are in the other. -/
theorem alike_iff (mirrors : Mirroring change levels env env') {ty ty' : Ty} :
    env'.Matches ty ty' ↔ env.Matches ty ty' := by
  have same (ty : Ty) : env'.unfold ty = env.unfold ty := by
    rw [Environment.unfold, Environment.unfold, mirrors.unfolding]
  constructor
  · rintro ⟨steady, steady', alike⟩
    exact ⟨steady, steady', by rwa [same, same] at alike⟩
  · rintro ⟨steady, steady', alike⟩
    exact ⟨steady, steady', by rwa [same, same]⟩

/-- A reference is to a constant in one environment exactly if it is in the other. -/
theorem refersToConstant_iff (mirrors : Mirroring change levels env env') {ty : Ty} :
    env'.RefersToConstant ty ↔ env.RefersToConstant ty := by
  simp only [RefersToConstant, mirrors.meaning]

/-! ## Looking at types -/

section Looking

variable (mirrors : Mirroring change levels env env')
include mirrors

/-- A placeholder is bound in both environments or in none of them. -/
theorem binding_cases (id : PlaceholderId) :
    (env.binding? id = none ∧ env'.binding? id = none) ∨
      ∃ bound bound',
        env.binding? id = some bound ∧
          env'.binding? id = some bound' ∧ env.Matches bound bound' := by
  have related := mirrors.binding id
  cases found : env.binding? id with
  | none =>
      rw [found] at related
      cases found' : env'.binding? id with
      | none => exact Or.inl ⟨rfl, rfl⟩
      | some bound' => rw [found'] at related; cases related
  | some bound =>
      rw [found] at related
      cases found' : env'.binding? id with
      | none => rw [found'] at related; cases related
      | some bound' =>
          rw [found'] at related
          cases related with
          | some alike => exact Or.inr ⟨bound, bound', rfl, rfl, alike⟩

/-- A placeholder that is unbound in one environment is unbound in the other. -/
theorem unbound {id : PlaceholderId} (unbound : env.binding? id = none) :
    env'.binding? id = none := by
  rcases mirrors.binding_cases id with ⟨_, unbound'⟩ | ⟨_, _, isBound, _, _⟩
  · exact unbound'
  · cases unbound.symm.trans isBound

/-- Types that are alike are followed to types that are alike. -/
theorem follow
    {ty ty' : Ty}
    (alike : env.Matches ty ty') :
    env.Matches (env.follow ty) (env'.follow ty') := by
  induction ty using bindingInduction mirrors.sound.consistent generalizing ty' with
  | step ty inductionHypothesis =>
      cases form : ty.isPlaceholder with
      | true =>
          cases ty with
          | placeholder scope id =>
              cases alike.eq_placeholder
              rw [follow_placeholder mirrors.sound.consistent,
                follow_placeholder mirrors.sound'.consistent]
              rcases mirrors.binding_cases id with
                ⟨unbound, unbound'⟩ | ⟨bound, bound', found, found', alikeBound⟩
              · rw [unbound, unbound']
                exact alike
              · rw [found, found']
                exact inductionHypothesis (List.mem_singleton_self _) found alikeBound
          | _ => cases form
      | false =>
          have form' : ty'.isPlaceholder = false := alike.isPlaceholder_eq.trans form
          simpa [Environment.follow, form, form'] using alike

/-- Types that are alike end in unbound placeholders together. -/
theorem isUnbound
    {ty ty' : Ty}
    (alike : env.Matches ty ty') :
    env'.isUnbound ty' = env.isUnbound ty :=
  (mirrors.follow alike).isPlaceholder_eq

/-- Types that are alike have heads that are alike. -/
theorem head
    {ty ty' : Ty}
    (alike : env.Matches ty ty') :
    env.Matches (env.head ty) (env'.head ty') := by
  obtain ⟨rank, _, ranks⟩ := exists_expansionRank mirrors.sound.acyclic
  induction ty using (measure rank).wf.induction generalizing ty' with
  | h ty inductionHypothesis =>
      by_cases constant : (env.unfold ty).Constant
      · have alike' := mirrors.alike_iff.mpr alike
        have constant' : (env'.unfold ty').Constant := by
          rw [Environment.unfold, mirrors.unfolding, ← Environment.unfold, ← alike.same]
          exact constant
        have first := mirrors.sound.head_of_constant alike.steady constant
        have second := mirrors.sound'.head_of_constant alike.steady' constant'
        exact (first.symm.trans alike).trans (mirrors.alike_iff.mp second)
      · have descend {next next' : Ty}
            (stands : env.standsFor? ty = some next)
            (stands' : env'.standsFor? ty' = some next')
            (isLess : rank next < rank ty)
            (alikeNext : env.Matches next next') :
            env.Matches (env.head ty) (env'.head ty') := by
          rw [head_eq_of_standsFor? mirrors.sound.consistent mirrors.sound.acyclic stands,
            head_eq_of_standsFor? mirrors.sound'.consistent mirrors.sound'.acyclic stands']
          exact inductionHypothesis next isLess alikeNext
        have stay
            (stands : env.standsFor? ty = none)
            (stands' : env'.standsFor? ty' = none) :
            env.Matches (env.head ty) (env'.head ty') := by
          rwa [head_eq_self stands, head_eq_self stands']
        cases alike.sameShape_of_not_constant constant with
        | named scope name =>
            cases found : env.definition? scope name with
            | none =>
                refine stay ?_ ?_
                · rw [standsFor?, found]
                  rfl
                · rw [standsFor?, mirrors.definition?, found]
                  rfl
            | some entry =>
                have isLess : rank entry.2 < rank (.named scope name) :=
                  ranks.definition (List.mem_singleton_self _) found
                refine descend ?_ ?_ isLess (.refl (mirrors.sound.definitions found))
                · rw [standsFor?, found]
                  rfl
                · rw [standsFor?, mirrors.definition?, found]
                  rfl
        | placeholder scope id =>
            rcases mirrors.binding_cases id with
              ⟨unbound, unbound'⟩ | ⟨bound, bound', found, found', alikeBound⟩
            · exact stay unbound unbound'
            · have isLess : rank bound < rank (.placeholder scope id) :=
                ranks.binding (List.mem_singleton_self _) found
              exact descend found found' isLess alikeBound
        | _ => exact stay rfl rfl

/-- Types that are alike have heads with the same constructor. -/
theorem sameShape_head
    {ty ty' : Ty}
    (alike : env.Matches ty ty') :
    env.SameShape (env.head ty) (env'.head ty') :=
  (mirrors.head alike).sameShape (mirrors.sound.not_refersToConstant_head ty)
    (mirrors.refersToConstant_iff.not.mp (mirrors.sound'.not_refersToConstant_head ty'))

/-- A type is written out alike in both environments. -/
theorem unfold (ty : Ty) : env'.unfold ty = env.unfold ty := by
  rw [Environment.unfold, mirrors.unfolding, Environment.unfold]

/-- What is bound in the first environment is steady. -/
theorem binding_steady {id : PlaceholderId} {bound : Ty} (found : env.binding? id = some bound) :
    bound.Steady := by
  rcases mirrors.binding_cases id with ⟨unbound, _⟩ | ⟨_, _, isBound, _, alike⟩
  · cases unbound.symm.trans found
  · cases isBound.symm.trans found
    exact alike.steady

/-- What is bound in the second environment is steady. -/
theorem binding_steady' {id : PlaceholderId} {bound : Ty} (found : env'.binding? id = some bound) :
    bound.Steady := by
  rcases mirrors.binding_cases id with ⟨_, unbound⟩ | ⟨_, _, _, isBound, alike⟩
  · cases unbound.symm.trans found
  · cases isBound.symm.trans found
    exact alike.steady'

/-- Types that are alike expand to the same type. -/
theorem expand
    {ty ty' : Ty}
    (alike : env.Matches ty ty') :
    env'.expand ty' = env.expand ty := by
  have consistent' := mirrors.sound'.consistent
  have acyclic' := mirrors.sound'.acyclic
  have same {ty ty' : Ty} (alike : env.Matches ty ty') : env'.expand ty' = env'.expand ty := by
    rw [← expand_unfold consistent' acyclic' ty, ← expand_unfold consistent' acyclic' ty',
      mirrors.unfold, mirrors.unfold, alike.same]
  rw [same alike]
  clear alike
  obtain ⟨rank, _, ranks⟩ := exists_expansionRank mirrors.sound.acyclic
  induction ty using (measure rank).wf.induction with
  | h ty inductionHypothesis =>
      rw [expand_eq_subst mirrors.sound.acyclic, expand_eq_subst acyclic']
      refine Ty.subst_congr mirrors.resolveLength fun leaf isLeaf => ?_
      cases Ty.isLeaf_of_mem_leaves isLeaf with
      | primitive | parametric => simp only [Ty.subst_primitive, Ty.subst_parametric, expansion]
      | named scope name =>
          simp only [Ty.subst_named, expansion, mirrors.definition?]
          cases found : env.definition? scope name with
          | none => rfl
          | some entry => exact inductionHypothesis entry.2 (ranks.definition isLeaf found)
      | placeholder scope id =>
          simp only [Ty.subst_placeholder, expansion]
          rcases mirrors.binding_cases id with
            ⟨unbound, unbound'⟩ | ⟨bound, bound', found, found', alikeBound⟩
          · rw [unbound, unbound']
          · rw [found, found']
            exact (same alikeBound).trans
              (inductionHypothesis bound (ranks.binding isLeaf found))

/-- Types that are alike are resolved to types that are alike. -/
theorem resolve
    {ty ty' : Ty}
    (alike : env.Matches ty ty') :
    env.Matches (env.resolve ty) (env'.resolve ty') := by
  have consistent := mirrors.sound.consistent
  have consistent' := mirrors.sound'.consistent
  refine ⟨steady_resolve consistent mirrors.binding_steady alike.steady,
    steady_resolve consistent' mirrors.binding_steady' alike.steady', ?_⟩
  have composed (ty : Ty) :
      env.unfold (env'.resolve ty) = ty.subst (env'.resolution.andThen env.unfolding) := by
    rw [Environment.unfold, resolve_eq_subst consistent', Ty.subst_subst env.unfolding_isCanonical]
  have same {ty ty' : Ty} (alike : env.Matches ty ty') :
      env.unfold (env'.resolve ty) = env.unfold (env'.resolve ty') := by
    have unfolded (ty : Ty) :
        env.unfold (env'.resolve (env.unfold ty)) = env.unfold (env'.resolve ty) := by
      rw [composed, composed]
      refine subst_unfold (Substitution.IsCanonical.andThen env.unfolding_isCanonical _) ?_ ?_
      · intro length _
        change env.resolveLength (env'.resolveLength _) = env.resolveLength (env'.resolveLength _)
        rw [mirrors.resolveLength, mirrors.resolveLength, resolveLength_resolveLength consistent]
      · intro scope name _ constant
        exact (constant.subst fun _ => rfl).trans (unfold_named_of_constant constant).symm
    rw [← unfolded ty, alike.same, unfolded ty']
  rw [← same alike]
  clear alike
  induction ty using bindingInduction consistent with
  | step ty inductionHypothesis =>
      rw [composed, Environment.unfold, resolve_eq_subst consistent,
        Ty.subst_subst env.unfolding_isCanonical]
      refine Ty.subst_congr (fun length => ?_) fun leaf isLeaf => ?_
      · exact congrArg env.resolveLength (mirrors.resolveLength length).symm
      · cases Ty.isLeaf_of_mem_leaves isLeaf with
        | primitive | parametric | named =>
            simp only [Ty.subst_primitive, Ty.subst_parametric, Ty.subst_named,
              Substitution.andThen, resolution]
        | placeholder scope id =>
            simp only [Ty.subst_placeholder, Substitution.andThen, resolution]
            rcases mirrors.binding_cases id with
              ⟨unbound, unbound'⟩ | ⟨bound, bound', found, found', alikeBound⟩
            · rw [unbound, unbound']
            · rw [found, found']
              exact (inductionHypothesis isLeaf found).trans (same alikeBound)

/-- The occurs check finds the same placeholders. -/
theorem occurs
    {id : PlaceholderId}
    (unbound : env.binding? id = none)
    {ty ty' : Ty}
    (alike : env.Matches ty ty') :
    env'.occurs id ty' = env.occurs id ty := by
  have unbound' := mirrors.unbound unbound
  rw [Bool.eq_iff_iff, occurs_eq_true_iff mirrors.sound.consistent,
    occurs_eq_true_iff mirrors.sound'.consistent]
  refine exists_congr fun scope => ?_
  rw [reaches_iff_mem_leaves_expand mirrors.sound.acyclic (.placeholder scope id) unbound,
    reaches_iff_mem_leaves_expand mirrors.sound'.acyclic (.placeholder scope id) unbound',
    mirrors.expand alike]

/-- The same variables are bound in both environments. -/
theorem isBound (var : Var) : env'.isBound var = env.isBound var := by
  cases var with
  | placeholder id =>
      simp only [Environment.isBound]
      rcases mirrors.binding_cases id with ⟨unbound, unbound'⟩ | ⟨_, _, found, found', _⟩
      · rw [unbound, unbound']
      · rw [found, found']
        rfl
  | length id => exact congrArg Option.isSome (mirrors.snapshot.lengths id)
  | parametric scope label => rfl

/-- Types that are alike have the same variables once they are resolved. -/
theorem mem_vars_resolve_iff
    {ty ty' : Ty}
    (alike : env.Matches ty ty')
    (var : Var) :
    var ∈ (env'.resolve ty').vars ↔ var ∈ (env.resolve ty).vars := by
  rw [← mem_vars_unfold_resolve mirrors.sound.consistent,
    ← mem_vars_unfold_resolve mirrors.sound'.consistent, mirrors.unfold,
    (mirrors.resolve alike).same]

/-- The surroundings depend on types that are alike. -/
theorem roots : List.Forall₂ env.Matches env.roots env'.roots := by
  have provisional : ∀ ty ∈ env.context.inProgress.map Prod.snd, env.Matches ty ty := by
    rw [List.forall_mem_map]
    exact fun entry member => .refl (mirrors.context.provisionalSteady entry member)
  rw [Environment.roots, Environment.roots, mirrors.context.inProgress, mirrors.context.externals]
  refine List.rel_append (List.rel_flatten mirrors.context.activeParams)
    (List.rel_append (List.forall₂_same.mpr provisional) (List.forall₂_same.mpr ?_))
  exact fun ty member => .refl (mirrors.context.externalsSteady ty member)

/-- The surroundings depend on the same variables. -/
theorem monomorphic
    {var : Var}
    (isOpen : var.isParametric = false)
    (unbound : env.isBound var = false) :
    env'.monomorphic.contains var = env.monomorphic.contains var := by
  rw [Bool.eq_iff_iff, monomorphic_contains_iff mirrors.sound.consistent isOpen unbound,
    monomorphic_contains_iff mirrors.sound'.consistent isOpen
      ((mirrors.isBound var).trans unbound)]
  have roots := mirrors.roots
  revert roots
  generalize env.roots = roots, env'.roots = roots'
  intro alike
  induction alike with
  | nil => simp
  | cons alike _ inductionHypothesis =>
      rw [List.exists_mem_cons_iff, List.exists_mem_cons_iff]
      exact or_congr (mirrors.mem_vars_resolve_iff alike var) inductionHypothesis

end Looking

end Mirroring

end Environment

end ShaderTyping
