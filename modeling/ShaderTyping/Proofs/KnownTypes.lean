import ShaderTyping.Proofs.FollowingRules

namespace ShaderTyping

/-!
# Known types stay

The type of an expression is known if it is recorded and is not an unbound
placeholder.  Inference records the type of an expression only while it is not known,
so what is known at the start of a run is still recorded at its end
(`inferDeclaration_keepsKnown`).  Bindings that are added meanwhile refine what a
type expands to, but not by more than expanding again: expanding, resolving or
generalizing a type now does not change what it expands to later.
-/

open Environment (Run Permits QuietRun)
open ShaderTyping.Action (Obeys Follows)

namespace Environment

variable {env later middle final inner : Environment}

/-! ## Expanding later -/

/-- What is put in by expanding is in canonical form. -/
theorem expansion_isCanonical
    (consistent : env.frames.Consistent)
    (acyclic : env.Acyclic) :
    env.expansion.IsCanonical := by
  intro leaf _
  rw [← expand_eq_subst acyclic]
  exact canonical_expand consistent leaf

/-- A substitution that changes nothing about what leaves and lengths expand to. -/
theorem expand_subst
    (consistent : env.frames.Consistent)
    (acyclic : env.Acyclic)
    {substitution : Substitution}
    {ty : Ty}
    (lengths : ∀ length, env.resolveLength (substitution.length length) = env.resolveLength length)
    (leaves : ∀ leaf ∈ ty.leaves, env.expand (leaf.subst substitution) = env.expand leaf) :
    env.expand (ty.subst substitution) = env.expand ty := by
  rw [expand_eq_subst acyclic, Ty.subst_subst (expansion_isCanonical consistent acyclic),
    expand_eq_subst acyclic]
  refine Ty.subst_congr lengths fun leaf isLeaf => ?_
  rw [← expand_eq_subst acyclic, ← leaves leaf isLeaf, expand_eq_subst acyclic,
    Ty.subst_subst (expansion_isCanonical consistent acyclic)]

/-- What an earlier environment resolves of a type expands to the same. -/
theorem Grows.expand_resolve
    (grows : env.Grows later)
    (consistent : env.frames.Consistent)
    (laterConsistent : later.frames.Consistent)
    (acyclic : later.Acyclic)
    (ty : Ty) :
    later.expand (env.resolve ty) = later.expand ty := by
  induction ty using bindingInduction consistent with
  | step ty inductionHypothesis =>
      rw [resolve_eq_subst consistent]
      refine expand_subst laterConsistent acyclic
        (grows.resolveLength_resolveLength laterConsistent) fun leaf isLeaf => ?_
      cases Ty.isLeaf_of_mem_leaves isLeaf with
      | placeholder scope id =>
          simp only [Ty.subst_placeholder, resolution]
          cases found : env.binding? id with
          | none => rfl
          | some bound =>
              have stands : later.standsFor? (.placeholder scope id) = some bound :=
                grows.bindings found
              rw [expand_of_standsFor? acyclic stands]
              exact inductionHypothesis isLeaf found
      | _ => rfl

/-- What an earlier environment expands of a type expands to the same. -/
theorem Grows.expand_expand
    (grows : env.Grows later)
    (consistent : env.frames.Consistent)
    (laterConsistent : later.frames.Consistent)
    (acyclic : later.Acyclic)
    (ty : Ty) :
    later.expand (env.expand ty) = later.expand ty := by
  refine expandInduction consistent
    (motive := fun steps expanding ty =>
      later.expand (env.expandWithin steps expanding ty) = later.expand ty) ?_ ty
  intro steps expanding ty bindings definitions
  rw [expandWithin]
  refine expand_subst laterConsistent acyclic
    (grows.resolveLength_resolveLength laterConsistent) fun leaf isLeaf => ?_
  cases Ty.isLeaf_of_mem_leaves isLeaf with
  | placeholder scope id =>
      simp only [Ty.subst_placeholder]
      cases found : env.binding? id with
      | none => rfl
      | some bound =>
          have stands : later.standsFor? (.placeholder scope id) = some bound :=
            grows.bindings found
          rw [expand_of_standsFor? acyclic stands]
          exact bindings isLeaf found
  | named scope name =>
      simp only [Ty.subst_named]
      cases found : env.definition? scope name with
      | none => rfl
      | some entry =>
          have stands : later.standsFor? (.named scope name) = some entry.2 :=
            grows.standsFor? (by simp [Environment.standsFor?, found])
          dsimp only
          split
          · rfl
          · rename_i notAround
            rw [expand_of_standsFor? acyclic stands]
            exact definitions isLeaf found (Bool.eq_false_iff.mpr notAround)
  | _ => rfl

/-- The generalized type expands to what the type itself expands to. -/
theorem expand_generalize
    (consistent : env.frames.Consistent)
    {ty : Ty}
    (grows : (generalize ty env).2.Grows later)
    (laterConsistent : later.frames.Consistent)
    (acyclic : later.Acyclic) :
    later.expand (generalize ty env).1 = later.expand ty := by
  have before : env.Grows later :=
    ((generalize_run ty env).run.grows consistent).trans grows
  obtain ⟨_, isGeneralized⟩ := generalize_quantified consistent ty
  rw [isGeneralized, ← before.expand_expand consistent laterConsistent acyclic ty]
  refine expand_subst laterConsistent acyclic (fun _ => rfl) fun leaf isLeaf => ?_
  cases Ty.isLeaf_of_mem_leaves isLeaf with
  | placeholder scope id =>
      simp only [Ty.subst_placeholder, quantification]
      split
      · rename_i boundScope label found
        have stands :
            later.standsFor? (.placeholder scope id) = some (.parametric boundScope label) :=
          grows.bindings found
        exact (expand_of_standsFor? acyclic stands).symm
      · rfl
  | _ => rfl

/-! ## Known types -/

/-- A type stays known while bindings are added. -/
theorem Grows.isUnbound_eq_false
    (grows : env.Grows later)
    (consistent : env.frames.Consistent)
    (laterConsistent : later.frames.Consistent)
    {ty : Ty}
    (isBound : env.isUnbound ty = false) :
    later.isUnbound ty = false := by
  induction ty using bindingInduction consistent with
  | step ty inductionHypothesis =>
      cases ty with
      | placeholder scope id =>
          rw [isUnbound, follow_placeholder consistent] at isBound
          rw [isUnbound, follow_placeholder laterConsistent]
          cases found : env.binding? id with
          | none =>
              rw [found] at isBound
              contradiction
          | some bound =>
              rw [found] at isBound
              rw [grows.bindings found]
              exact inductionHypothesis (Ty.leaves_placeholder scope id ▸
                List.mem_singleton_self _) found isBound
      | _ => rfl

/-- The expanded type of an expression. -/
def expandedType? (env : Environment) (id : ExprId) : Option Ty :=
  (env.typeOf? id).map env.expand

/-- The type of an expression is recorded and is more than an unbound placeholder. -/
structure KnownType (env : Environment) (id : ExprId) (ty : Ty) : Prop where
  recorded : env.frames.inferred? id = some ty
  isKnown : env.isUnbound ty = false

variable {id : ExprId} {ty : Ty}

namespace KnownType

/-- A known type is known in later environments that record the same. -/
theorem of_grows
    (known : env.KnownType id ty)
    (consistent : env.frames.Consistent)
    (grows : env.Grows later)
    (laterConsistent : later.frames.Consistent)
    (inferred : later.frames.inferred? id = env.frames.inferred? id) :
    later.KnownType id ty where
  recorded := inferred.trans known.recorded
  isKnown := grows.isUnbound_eq_false consistent laterConsistent known.isKnown

/-- A new frame shows what is known below it. -/
theorem push (known : env.KnownType id ty) (consistent : env.frames.Consistent) :
    env.push.KnownType id ty :=
  known.of_grows consistent (.push env) consistent.push (FrameStack.inferred?_push env.frames id)

/-- What is known depends on declarations and frames only. -/
theorem of_frames
    (known : env.KnownType id ty)
    (consistent : env.frames.Consistent)
    (sameDeclared : later.declared = env.declared)
    (sameFrames : later.frames = env.frames) :
    later.KnownType id ty :=
  known.of_grows consistent (.of_frames sameDeclared sameFrames) (sameFrames ▸ consistent)
    (by rw [sameFrames])

/-- The expanded type of an expression whose type is known. -/
theorem expandedType?_eq
    (known : env.KnownType id ty)
    (consistent : env.frames.Consistent)
    (acyclic : env.Acyclic) :
    env.expandedType? id = some (env.expand ty) := by
  rw [expandedType?, typeOf?, known.recorded]
  exact congrArg some ((Grows.refl env).expand_resolve consistent consistent acyclic ty)

end KnownType

/-- A run after which a known type of an expression is still recorded. -/
structure KeepsKnown (id : ExprId) (ty : Ty) (env final : Environment) : Prop where
  run : Run env final
  known : env.frames.Consistent → env.KnownType id ty → final.KnownType id ty

/-- The type of an expression is known in a program of the given declarations. -/
structure KnownIn
    (declared : Declarations)
    (id : ExprId)
    (ty : Ty)
    (env : Environment) : Prop where
  sameDeclared : env.declared = declared
  consistent : env.frames.Consistent
  known : env.KnownType id ty

namespace KeepsKnown

/-- A quiet run records nothing, so it keeps what is known. -/
theorem of_quiet (quiet : QuietRun env final) : KeepsKnown id ty env final where
  run := quiet.run
  known consistent known :=
    known.of_grows consistent (quiet.run.grows consistent) (quiet.run.consistent consistent)
      (quiet.inferred id)

theorem trans
    (first : KeepsKnown id ty env middle)
    (second : KeepsKnown id ty middle final) :
    KeepsKnown id ty env final where
  run := .trans first.run second.run
  known consistent known :=
    second.known (first.run.consistent consistent) (first.known consistent known)

/-- Keeping what is known is reflexive and transitive. -/
instance : IsPreorder Environment (KeepsKnown id ty) where
  refl env := of_quiet (.refl env)
  trans _ _ _ := trans

/-- A transaction keeps what is known if what happens inside does: an abort leads back to it. -/
theorem transaction
    (keeps : KeepsKnown id ty env.push inner)
    (keep : Bool) :
    KeepsKnown id ty env (inner.finish keep) := by
  have restored := Restored.of_run keeps.run
  refine ⟨.transaction keep keeps.run, fun consistent known => ?_⟩
  cases keep with
  | false =>
      exact known.of_frames consistent (restored.transaction false).declared
        restored.frames_of_failed
  | true =>
      have innerConsistent := keeps.run.consistent consistent.push
      exact (keeps.known consistent.push (known.push consistent)).of_grows innerConsistent
        (.commit inner) (consistent_finish innerConsistent true) (inferred?_commit inner id)

/-- Recording the type of another expression. -/
theorem recordInferred
    {other : ExprId}
    (isOther : other ≠ id)
    (env : Environment)
    (recorded : Ty) :
    KeepsKnown id ty env (env.recordInferred other recorded) := by
  refine ⟨.recordInferred other recorded, fun consistent known => ?_⟩
  exact known.of_grows consistent (.write rfl rfl) (consistent.recordInferred other recorded)
    (inferred?_recordInferred_of_ne isOther env recorded)

/-- Keeping what is known is permitted in a program of the given declarations. -/
instance (declared : Declarations) : Permits (KnownIn declared id ty) (KeepsKnown id ty) where
  keeps keeps valid :=
    { sameDeclared := (Restored.of_run keeps.run).declared.trans valid.sameDeclared
      consistent := keeps.run.consistent valid.consistent
      known := keeps.known valid.consistent valid.known }
  withContext _ valid :=
    { sameDeclared := valid.sameDeclared
      consistent := valid.consistent
      known := valid.known.of_frames valid.consistent rfl rfl }
  push valid :=
    { sameDeclared := valid.sameDeclared
      consistent := valid.consistent.push
      known := valid.known.push valid.consistent }
  calm calm := of_quiet calm.toQuietRun
  insideFunction keeps :=
    { run := .insideFunction _ keeps.run
      known := fun consistent known =>
        have inside := keeps.known consistent (known.of_frames consistent rfl rfl)
        inside.of_frames (keeps.run.consistent consistent) rfl rfl }
  insideDeclaration notInProgress keeps :=
    { run := .insideDeclaration _ notInProgress keeps.run
      known := fun consistent known =>
        have inside := keeps.known consistent (known.of_frames consistent rfl rfl)
        inside.of_frames (keeps.run.consistent consistent) rfl rfl }
  deeper keeps :=
    { run := .deeper keeps.run
      known := fun consistent known =>
        have inside := keeps.known consistent (known.of_frames consistent rfl rfl)
        inside.of_frames (keeps.run.consistent consistent) rfl rfl }
  transaction keep keeps := keeps.transaction keep

end KeepsKnown

end Environment

open Environment (KeepsKnown KnownIn)

namespace Inference

variable {declared : Declarations} {id : ExprId} {ty : Ty} {env : Environment}

/-- An attempt records the type of another expression than one whose type is known. -/
theorem memoized_keepsKnown
    {rule : Expr → Action InferError (InferRule × Ty)}
    (ruleFollows :
      ∀ expr env,
        Follows (KnownIn declared id ty) (KeepsKnown id ty) (rule expr) (rule expr) env)
    (expr : Expr) :
    Follows (KnownIn declared id ty) (KeepsKnown id ty) (memoized rule expr)
      (memoized rule expr) env := by
  refine .of_valid fun valid => memoized_follows fun notKnown => ?_
  have isOther : expr.id ≠ id := by
    rintro rfl
    rw [valid.known.recorded] at notKnown
    simp [Option.filter, valid.known.isKnown] at notKnown
  exact attempted_follows (ruleFollows expr _) fun _ _ => .recordInferred isOther _ _

/-- Inference in any number of levels keeps what is known. -/
theorem within_keepsKnown (levels : Nat) :
    InferFollows (KnownIn declared id ty) (KeepsKnown id ty) (fun _ => True) (within levels)
      (within levels) := by
  have closes : declared.Closes fun _ => True :=
    ⟨fun _ _ => trivial, fun _ _ => trivial, fun _ _ => trivial⟩
  induction levels with
  | zero => exact fun expr _ env => memoized_keepsKnown (fun _ _ => .exhausted _) expr
  | succ levels inductionHypothesis =>
      intro expr _ env
      refine memoized_keepsKnown (fun expr env => ?_) expr
      refine inferForm_follows inductionHypothesis closes (fun valid => valid.sameDeclared)
        trivial fun _ _ => ?_
      exact .of_quiet (openParameters_run _ _ _ _ _)

end Inference

variable {declared : Declarations} {id : ExprId} {ty : Ty} {env : Environment}

/-- Inference of an expression keeps what is known. -/
theorem infer_followsKnown :
    Inference.InferFollows (KnownIn declared id ty) (KeepsKnown id ty) (fun _ => True) infer
      infer :=
  fun expr _ env => .bind_environment (Inference.within_keepsKnown _ expr trivial env)

/-- Inference keeps the type of an expression if it is known. -/
theorem inferDeclaration_keepsKnown (scope : ScopeId) (name : String) (env : Environment) :
    Obeys (KeepsKnown id ty) (inferDeclaration scope name) env := by
  intro final ended
  refine ⟨inferDeclaration_run scope name env final ended, fun consistent known => ?_⟩
  have follows :
      Follows (KnownIn env.declared id ty) (KeepsKnown id ty) (inferDeclaration scope name)
        (inferDeclaration scope name) env := by
    refine .bind_environment ?_
    split
    · exact .map (Inference.inferDeclared_follows infer_followsKnown _ _ trivial)
    · exact .pure _
  exact ((follows ⟨rfl, consistent, known⟩).2 final ended).known consistent known

end ShaderTyping
