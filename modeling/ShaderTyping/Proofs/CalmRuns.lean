import ShaderTyping.Proofs.CheckedPrograms
import ShaderTyping.Proofs.Instantiation

namespace ShaderTyping

/-!
# Runs that record no types

Apart from recording types, inference only binds variables, and what is bound stays
bound.  So a type that was resolved earlier resolves to the same as the type itself
(`Environment.Grows.resolve_resolve`), and what resolved types show of each other
lasts.  A `CalmRun` records the type of no expression and of no parameter;
unification, calls, generalization and instantiation are calm runs.
-/

open ShaderTyping.Action (Obeys)
open Relation (ReflTransGen)

namespace Environment

variable {env middle later final inner : Environment}

/-! ## Bindings stay -/

/-- A new frame forgets nothing. -/
theorem Grows.push (env : Environment) : env.Grows env.push where
  declared := rfl
  bindings found := (FrameStack.placeholder?_push env.frames _).trans found
  lengths found := (FrameStack.length?_push env.frames _).trans found

/-- What is kept of a transaction is all that was bound in it. -/
theorem Grows.commit (env : Environment) : env.Grows (env.finish true) where
  declared := declared_finish true env
  bindings found := by rwa [binding?, frames_finish, FrameStack.placeholder?_finish_true]
  lengths found := by rwa [frames_finish, FrameStack.length?_finish_true]

/-- A commit keeps all recorded types. -/
theorem inferred?_commit (env : Environment) (id : ExprId) :
    (env.finish true).frames.inferred? id = env.frames.inferred? id := by
  rw [frames_finish, FrameStack.inferred?_finish_true]

/-- Recording the type of one expression leaves what is recorded of another. -/
theorem inferred?_recordInferred_of_ne
    {id other : ExprId}
    (isOther : other ≠ id)
    (env : Environment)
    (ty : Ty) :
    (env.recordInferred other ty).frames.inferred? id = env.frames.inferred? id := by
  rw [recordInferred, FrameStack.inferred?_recordInferred, if_neg isOther.symm]

/-- What is known depends on declarations and frames only. -/
theorem Grows.of_frames
    (sameDeclared : later.declared = env.declared)
    (sameFrames : later.frames = env.frames) :
    env.Grows later where
  declared := sameDeclared
  bindings found := by rwa [binding?, sameFrames]
  lengths found := by rwa [sameFrames]

/-- A change of the top frame that keeps its bindings forgets nothing. -/
theorem Grows.write
    {change : Frame → Frame}
    (placeholders : (change env.frames.top).placeholders = env.frames.top.placeholders)
    (lengths : (change env.frames.top).lengths = env.frames.top.lengths) :
    env.Grows { env with frames := env.frames.write change } where
  declared := rfl
  bindings {id ty} found := by
    have sameEntry :
        (change env.frames.top).placeholders[id]? = env.frames.top.placeholders[id]? := by
      rw [placeholders]
    have kept : (env.frames.write change).placeholder? id = env.frames.placeholder? id :=
      FrameStack.read_write_of_eq sameEntry
    exact kept.trans found
  lengths {id length} found := by
    have sameEntry : (change env.frames.top).lengths[id]? = env.frames.top.lengths[id]? := by
      rw [lengths]
    have kept : (env.frames.write change).length? id = env.frames.length? id :=
      FrameStack.read_write_of_eq sameEntry
    exact kept.trans found

/-- A run keeps all bindings, because each change does. -/
theorem Run.grows
    (run : Run env final)
    (consistent : env.frames.Consistent) :
    env.Grows final := by
  induction run with
  | refl env => exact .refl env
  | trans first _ firstHypothesis secondHypothesis =>
      exact (firstHypothesis consistent).trans (secondHypothesis (first.consistent consistent))
  | binds step => exact .of_binds consistent step
  | fresh => exact .of_frames rfl rfl
  | @quantify env id scope label unbound =>
      refine { declared := rfl, bindings := fun {other ty} found => ?_, lengths := ?_ }
      · have different : other ≠ id := by
          rintro rfl
          cases unbound.symm.trans found
        change FrameStack.placeholder? (FrameStack.bindPlaceholder id _ _) other = some ty
        rw [FrameStack.placeholder?_bindPlaceholder, if_neg different]
        exact found
      · exact fun found => (FrameStack.read_write_of_eq rfl).trans found
  | markGeneric => exact .write rfl rfl
  | recordInferred => exact .write rfl rfl
  | recordParameter => exact .write rfl rfl
  | traceInfer expr rule ty =>
      exact .of_frames (declared_traceInfer expr rule ty _) (frames_traceInfer expr rule ty _)
  | external => exact .of_frames rfl rfl
  | @transaction env inner keep run inductionHypothesis =>
      cases keep with
      | true =>
          exact ((Grows.push env).trans (inductionHypothesis consistent.push)).trans (.commit inner)
      | false =>
          have restored := Restored.of_run run
          exact .of_frames (restored.transaction false).declared restored.frames_of_failed
  | insideFunction types _ inductionHypothesis =>
      have grows := inductionHypothesis consistent
      exact { grows with }
  | insideDeclaration provisional _ _ inductionHypothesis =>
      have grows := inductionHypothesis consistent
      exact { grows with }
  | deeper _ inductionHypothesis =>
      have grows := inductionHypothesis consistent
      exact { grows with }

/-- What is put in for bound variables is in canonical form. -/
theorem resolution_isCanonical
    (consistent : env.frames.Consistent) :
    env.resolution.IsCanonical := by
  intro leaf isLeaf
  rw [← resolve_eq_subst consistent]
  exact canonical_resolve consistent leaf

/-- What an earlier environment resolves of a type is resolved to the same. -/
theorem Grows.resolve_resolve
    (grows : env.Grows later)
    (consistent : env.frames.Consistent)
    (laterConsistent : later.frames.Consistent)
    (ty : Ty) :
    later.resolve (env.resolve ty) = later.resolve ty := by
  induction ty using bindingInduction consistent with
  | step ty inductionHypothesis =>
      rw [resolve_eq_subst consistent, resolve_eq_subst laterConsistent,
        Ty.subst_subst (resolution_isCanonical laterConsistent),
        resolve_eq_subst laterConsistent]
      refine Ty.subst_congr (grows.resolveLength_resolveLength laterConsistent) ?_
      intro leaf isLeaf
      cases Ty.isLeaf_of_mem_leaves isLeaf with
      | placeholder scope id =>
          simp only [Ty.subst_placeholder, Substitution.andThen, resolution]
          cases found : env.binding? id with
          | none => rfl
          | some bound =>
              rw [grows.bindings found]
              have resolved := inductionHypothesis isLeaf found
              rw [resolve_eq_subst laterConsistent] at resolved
              exact resolved
      | _ => rfl

/-! ## Calm runs -/

/-- A run that records the types of no expression and of no parameter. -/
structure CalmRun (env final : Environment) : Prop extends QuietRun env final where
  parameters :
    env.frames.Consistent →
    ∀ function position,
      final.frames.parameter? function position = env.frames.parameter? function position

namespace CalmRun

theorem refl (env : Environment) : CalmRun env env :=
  ⟨.refl env, fun _ _ _ => rfl⟩

theorem trans (first : CalmRun env middle) (second : CalmRun middle final) :
    CalmRun env final where
  toQuietRun := first.toQuietRun.trans second.toQuietRun
  parameters consistent function position :=
    (second.parameters (first.run.consistent consistent) function position).trans
      (first.parameters consistent function position)

/-- Calm runs are reflexive and transitive. -/
instance : IsPreorder Environment CalmRun where
  refl := refl
  trans _ _ _ := trans

/-- Drawing fresh variables of any kind is a calm run. -/
theorem fresh (placeholders lengths labels : Nat) :
    CalmRun env
      { env with
        fresh.placeholder := env.fresh.placeholder + placeholders
        fresh.length := env.fresh.length + lengths
        fresh.label := env.fresh.label + labels } :=
  ⟨.fresh placeholders lengths labels, fun _ _ _ => rfl⟩

/-- What unification does is a calm run. -/
theorem of_binds (steps : ReflTransGen Binds env final) : CalmRun env final := by
  refine ⟨.of_binds steps, fun _ function position => ?_⟩
  induction steps with
  | refl => rfl
  | tail _ step inductionHypothesis =>
      rw [← inductionHypothesis]
      cases step with
      | note => rw [frames_traceUnify]
      | placeholder =>
          rw [bindPlaceholder, frames_traceUnify]
          exact FrameStack.read_write_of_eq rfl
      | length =>
          rw [bindLength, frames_traceUnify]
          exact FrameStack.read_write_of_eq rfl

/-- A transaction is calm if it is calm inside, whether it is kept or not. -/
theorem transaction
    (calm : CalmRun env.push inner)
    (keep : Bool) :
    CalmRun env (inner.finish keep) := by
  cases keep with
  | false =>
      have sameFrames := (Restored.of_run calm.run).frames_of_failed
      exact
        { run := .transaction false calm.run
          inferred := fun id => by rw [sameFrames]
          parameters := fun _ function position => by rw [sameFrames] }
  | true =>
      refine ⟨⟨.transaction true calm.run, fun id => ?_⟩, fun consistent function position => ?_⟩
      · rw [inferred?_commit, calm.inferred]
        exact FrameStack.inferred?_push env.frames id
      · rw [frames_finish, FrameStack.parameter?_finish_true, calm.parameters consistent.push]
        exact FrameStack.parameter?_push env.frames function position

/-- A step of inference is a calm run. -/
theorem traceInfer (expr : Expr) (rule : InferRule) (ty : Ty) :
    CalmRun env (env.traceInfer expr rule ty) :=
  ⟨.traceInfer expr rule ty, fun _ function position => by rw [frames_traceInfer]⟩

/-- Calm runs are enough for calls. -/
theorem call : Call.Admits CalmRun :=
  ⟨of_binds, fresh 1 0 0, fun keep calm => calm.transaction keep⟩

end CalmRun

/-- Generalizing a type is a calm run. -/
theorem generalize_calm (ty : Ty) (env : Environment) : CalmRun env (generalize ty env).2 where
  toQuietRun := generalize_run ty env
  parameters consistent := (generalize_quantified consistent ty).1.parameter?

/-- Instantiating a type is instantiating what it is resolved to. -/
theorem instantiate_resolve
    (consistent : env.frames.Consistent)
    (ty : Ty) :
    instantiate (env.resolve ty) env = instantiate ty env := by
  unfold instantiate
  change (if (env.resolve (env.resolve ty)).vars.any env.isQuantified = true then _ else _ :
      StateM Environment Ty) env =
    (if (env.resolve ty).vars.any env.isQuantified = true then _ else _ :
      StateM Environment Ty) env
  rw [resolve_resolve consistent]

/-- Instantiating a type takes fresh variables and nothing else. -/
theorem instantiate_calm (ty : Ty) (env : Environment) : CalmRun env (instantiate ty env).2 where
  toQuietRun := instantiate_run ty env
  parameters consistent function position := by
    obtain ⟨made, instantiated, _⟩ :=
      instantiate_instantiated (canonical_resolve consistent ty) (resolve_resolve consistent ty)
    rw [← instantiate_resolve consistent, instantiated.frames]

/-- The type of an outside value is found by a calm run. -/
theorem inferExternal_calm (expr : Expr) (ascription : Option Ty) (env : Environment) :
    CalmRun env (Inference.inferExternal expr ascription env).2 := by
  cases ascription with
  | some ascription => exact generalize_calm ascription env
  | none => exact .trans (.fresh 1 0 0) ⟨.external _, fun _ _ _ => rfl⟩

end Environment

end ShaderTyping
