import ShaderTyping.Proofs.MirroredRules

namespace ShaderTyping

/-!
# Inference in mirrored environments

Expressions are inferred at the same depth in both environments, and their types are
recorded alike, so declared variables get the same types, or both get none
(`inferDeclaration_parallel`).  The levels that are left bound the depth, so neither
inference goes unanswered.
-/

open ShaderTyping.Environment (Mirroring Matches Run)
open ShaderTyping.Action (Parallel)

variable {change : ExprId → Nat → Ty → Ty} {levels : Nat} {env env' : Environment}

namespace Inference

/-- The rule that was applied, and types that are alike. -/
def TypedAlike (env : Environment) (typed typed' : InferRule × Ty) : Prop :=
  typed'.1 = typed.1 ∧ env.Matches typed.2 typed'.2

/-- Types that are alike by the same rule stay alike. -/
theorem typedAlike_lasting : Parallel.Lasting TypedAlike :=
  fun _ _ _ _ grows sound ⟨sameRule, alike⟩ => ⟨sameRule, alike.mono grows sound.consistent⟩

/-- One level deeper, one level less is left. -/
theorem deeper_parallel
    {related : Environment → α → β → Prop}
    (mirrors : Mirroring change (levels + 1) env env')
    (lasting : Parallel.Lasting related)
    {action : Action ε α}
    {action' : Action ε' β}
    (inside :
      ∀ {inner inner' : Environment},
        env.Grows inner →
        Mirroring change levels inner inner' →
        Parallel False change levels related action action' inner inner') :
    Parallel False change (levels + 1) related (deeper action) (deeper action') env env' := by
  have entered :
      Mirroring change levels { env with context.depth := env.context.depth + 1 }
        { env' with context.depth := env'.context.depth + 1 } := by
    refine mirrors.setContext
      { mirrors.context with depth := congrArg (· + 1) mirrors.context.depth } ?_
    have isBounded := mirrors.levels
    change env.options.maxDepth ≤ env.context.depth + 1 + levels
    omega
  have enters : env.Grows { env with context.depth := env.context.depth + 1 } := .of_frames rfl rfl
  refine .between (inside enters entered) ?_ fun leaves =>
    ⟨leaves.fresh, leaves.externals, leaves.externalsSteady⟩
  intro value value' inner inner' grows mirrors values
  have left :
      Mirroring change (levels + 1) { inner with context.depth := inner.context.depth - 1 }
        { inner' with context.depth := inner'.context.depth - 1 } := by
    refine mirrors.setContext
      { mirrors.context with depth := congrArg (· - 1) mirrors.context.depth } ?_
    have isBounded := mirrors.levels
    change inner.options.maxDepth ≤ inner.context.depth - 1 + (levels + 1)
    omega
  have leaves : inner.Grows { inner with context.depth := inner.context.depth - 1 } :=
    .of_frames rfl rfl
  exact ⟨(enters.trans grows).trans leaves, left, lasting leaves left.sound values⟩

/-- A rule comes to the same for declared expressions and for what they were reascribed to. -/
def RuleAlike
    (change : ExprId → Nat → Ty → Ty)
    (levels : Nat)
    (rule rule' : Expr → Action InferError (InferRule × Ty)) : Prop :=
  ∀ {env env' : Environment} {expr : Expr},
    Mirroring change levels env env' →
    expr ∈ env.declared.nodes →
    Parallel False change levels TypedAlike (rule expr) (rule' (expr.reascribe change)) env env'

variable {rule rule' : Expr → Action InferError (InferRule × Ty)}

/-- Linking types that are alike with recorded ones that are alike is parallel. -/
theorem linked_parallel
    (rulesAlike : RuleAlike change levels rule rule')
    (mirrors : Mirroring change levels env env')
    {expr : Expr}
    (member : expr ∈ env.declared.nodes)
    {previous previous' : Option Ty}
    (previousAlike : Option.Rel env.Matches previous previous') :
    Parallel False change levels TypedAlike (linked rule expr previous)
      (linked rule' (expr.reascribe change) previous') env env' := by
  refine .bind (rulesAlike mirrors member) fun {typed typed' _ _} grows mirrors alike => ?_
  obtain ⟨name, ty⟩ := typed
  obtain ⟨_, ty'⟩ := typed'
  obtain ⟨rfl, alike⟩ := alike
  cases previousAlike with
  | none => exact .pure mirrors ⟨rfl, alike⟩
  | some previousAlike =>
      have previousAlike := previousAlike.mono grows mirrors.sound.consistent
      refine .bind (blame_parallel _ _ (unify_parallel mirrors previousAlike alike))
        fun _ mirrors linked => ?_
      exact .pure mirrors ⟨rfl, linked⟩

/-- Attempts are parallel if their rules are, one level deeper. -/
theorem attempted_parallel
    (rulesAlike : RuleAlike change levels rule rule')
    (mirrors : Mirroring change (levels + 1) env env')
    {expr : Expr}
    (member : expr ∈ env.declared.nodes)
    {previous previous' : Option Ty}
    (previousAlike : Option.Rel env.Matches previous previous') :
    Parallel False change (levels + 1) Matches (attempted rule expr previous)
      (attempted rule' (expr.reascribe change) previous') env env' := by
  refine .bind (.transaction typedAlike_lasting (.bind (deeper_parallel mirrors.push
    typedAlike_lasting fun grows mirrors => ?_) ?_)) ?_
  · have sinceStart := (Environment.Grows.push env).trans grows
    exact linked_parallel rulesAlike mirrors (sinceStart.declared ▸ member)
      (Snapshot.rel_mono (fun alike => alike.mono sinceStart mirrors.sound.consistent)
        previousAlike)
  · rintro ⟨_, ty⟩ ⟨_, ty'⟩ middle middle' _ mirrors ⟨rfl, alike⟩
    have run : Run middle (middle.recordInferred expr.id ty) := .recordInferred expr.id ty
    have grows := run.grows mirrors.sound.consistent
    have recorded : Mirroring change (levels + 1) (middle.recordInferred expr.id ty)
        (middle'.recordInferred expr.id ty') :=
      mirrors.write_of_run (.inferred expr.id alike) run (.recordInferred expr.id ty')
    rw [Expr.id_reascribe]
    exact .bind_update grows
      (.pure recorded ⟨rfl, alike.mono grows recorded.sound.consistent⟩)
  · rintro ⟨_, ty⟩ ⟨name, ty'⟩ middle middle' _ mirrors ⟨rfl, alike⟩
    have shows := Environment.ReadsLike.traceInfer expr name ty middle
    have traced : Mirroring change (levels + 1) (middle.traceInfer expr name ty)
        (middle'.traceInfer (expr.reascribe change) name ty') :=
      mirrors.of_readsLike shows (mirrors.sound.of_run (.traceInfer expr name ty))
        (.traceInfer _ name ty' middle') (mirrors.sound'.of_run (.traceInfer _ name ty'))
    exact .bind_update shows.grows
      (.pure traced (alike.mono shows.grows traced.sound.consistent))

/-- The recorded types are alike, and where none counts both attempts are made. -/
theorem memoized_parallel
    (mirrors : Mirroring change levels env env')
    {expr : Expr}
    (attempts :
      ∀ {previous previous' : Option Ty},
        env.context.depth < env.options.maxDepth →
        Option.Rel env.Matches previous previous' →
        Parallel False change levels Matches (attempted rule expr previous)
          (attempted rule' (expr.reascribe change) previous') env env') :
    Parallel False change levels Matches (memoized rule expr)
      (memoized rule' (expr.reascribe change)) env env' := by
  refine .bind_environment ?_
  have attempted (previous previous' : Option Ty)
      (alike : Option.Rel env.Matches previous previous') :
      Parallel False change levels Matches
        (if env.options.maxDepth ≤ env.context.depth then
          failAt expr (.depthLimit env.options.maxDepth)
        else attempted rule expr previous)
        (if env'.options.maxDepth ≤ env'.context.depth then
          failAt (expr.reascribe change) (.depthLimit env'.options.maxDepth)
        else attempted rule' (expr.reascribe change) previous') env env' := by
    rw [mirrors.maxDepth, mirrors.context.depth]
    split
    · exact .fail mirrors
    · rename_i isAllowed
      exact attempts (Nat.not_le.mp isAllowed) alike
  have recorded : Option.Rel env.Matches (env.frames.inferred? expr.id)
      (env'.frames.inferred? expr.id) :=
    mirrors.snapshot.inferred expr.id
  rw [Expr.id_reascribe]
  generalize env.frames.inferred? expr.id = previous,
    env'.frames.inferred? expr.id = previous' at recorded ⊢
  cases recorded with
  | none => exact attempted none none .none
  | @some ty ty' alike =>
      simp only [Option.filter_some, mirrors.isUnbound alike]
      cases env.isUnbound ty with
      | true => exact attempted (some ty) (some ty') (.some alike)
      | false => exact .pure mirrors alike

/-- Inference in any number of levels is parallel. -/
theorem within_parallel (levels : Nat) :
    InfersAlike change levels (within levels) (within levels) := by
  induction levels with
  | zero =>
      intro env env' expr mirrors member
      refine memoized_parallel mirrors fun isAllowed _ => ?_
      have isBounded := mirrors.levels
      omega
  | succ levels inductionHypothesis =>
      intro env env' expr mirrors member
      refine memoized_parallel mirrors fun _ alike => ?_
      exact attempted_parallel (fun mirrors member =>
        inferForm_parallel inductionHypothesis mirrors member) mirrors member alike

end Inference

/-- Fewer levels than are granted may be left. -/
theorem Environment.Mirroring.of_le
    {fewer : Nat}
    (mirrors : Mirroring change fewer env env')
    (isLess : fewer ≤ levels) :
    Mirroring change levels env env' :=
  { mirrors with levels := mirrors.levels.trans (Nat.add_le_add_left isLess _) }

/-- Declared expressions have types that are alike in mirrored environments. -/
theorem infer_parallel : Inference.InfersAlike change levels infer infer := by
  intro env env' expr mirrors member
  refine .bind_environment ?_
  rw [mirrors.maxDepth, mirrors.context.depth]
  have isBounded := mirrors.levels
  have granted :
      Mirroring change (env.options.maxDepth - env.context.depth) env env' :=
    { mirrors with levels := by omega }
  have parallel := Inference.within_parallel _ granted member
  unfold Parallel at parallel ⊢
  generalize Inference.within _ expr env = outcome,
    Inference.within _ (expr.reascribe change) env' = outcome' at parallel
  cases parallel with
  | ok grows mirrors values => exact .ok grows (mirrors.of_le (by omega)) values
  | error leaves => exact .error leaves
  | stopped _ stops => exact stops.elim
  | stopped' _ stops => exact stops.elim

/-- A declared variable has the same type in mirrored environments, or has none in both. -/
theorem inferDeclaration_parallel
    (mirrors : Mirroring change levels env env')
    (scope : ScopeId)
    (name : String) :
    Parallel False change levels (fun _ found found' => found' = found ∧ ∀ ty ∈ found, ty.Steady)
      (inferDeclaration scope name) (inferDeclaration scope name) env env' := by
  refine .bind_environment ?_
  have declared : env'.declared.values.local? scope name =
      (env.declared.values.local? scope name).map (Expr.reascribe change) := by
    rw [mirrors.program]
    exact DeclarationTable.local?_map _ _ scope name
  rw [declared]
  cases isDeclared : env.declared.values.local? scope name with
  | none => exact .pure mirrors ⟨rfl, by simp⟩
  | some expr =>
      obtain ⟨declaration, isFound, rfl⟩ := Option.map_eq_some_iff.mp isDeclared
      have member := Declarations.value_mem_nodes (List.mem_of_find?_eq_some isFound)
      refine .map (Inference.inferDeclared_parallel infer_parallel mirrors scope name member) ?_
      rintro _ ty _ ⟨rfl, steady⟩
      exact ⟨rfl, by simpa using steady⟩

end ShaderTyping
