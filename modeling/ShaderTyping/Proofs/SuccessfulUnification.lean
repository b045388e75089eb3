import ShaderTyping.Proofs.Endings
import ShaderTyping.Proofs.Nesting

namespace ShaderTyping

/-!
# Successful unifications

A unification that succeeds within some number of steps is put together from the
unifications of bound types, definitions and parts that succeed (`Environment.Finishes`,
with a lemma for each form).  The number of steps does not matter in the end: what can
succeed within some of them succeeds (`Environment.Finishes.exists_unify`).
-/

open Unification

namespace Unification

/-- Where no steps are kept, writing one down changes nothing. -/
theorem note_of_quiet
    {env : Environment}
    (quiet : env.options.trace = false)
    (event : UnifyEvent)
    (left right : Ty) :
    (note event left right : Action ε Unit) env = .ok () env :=
  congrArg (Outcome.ok ()) (Environment.traceUnify_of_quiet quiet event _ _)

end Unification

namespace Environment

/-- Unification of two types succeeds and leaves an environment, within some number of steps. -/
def Finishes (env : Environment) (left right : Ty) (final : Environment) : Prop :=
  ∃ steps ty, within steps left right env = .ok ty final

namespace Finishes

variable {env middle final : Environment} {left right : Ty}

/-- A type is unified with itself. -/
theorem self (quiet : env.options.trace = false) (ty : Ty) : env.Finishes ty ty env := by
  refine ⟨1, ty, ?_⟩
  rw [within]
  unfold step
  rw [if_pos rfl, Action.bind_eq_ok]
  exact ⟨(), env, note_of_quiet quiet _ _ _, rfl⟩

/-- A bound placeholder is unified by unifying what it is bound to. -/
theorem bound
    {scope : ScopeId}
    {id : PlaceholderId}
    {bound : Ty}
    (isBound : env.binding? id = some bound)
    (different : .placeholder scope id ≠ right)
    (finishes : env.Finishes bound right final) :
    env.Finishes (.placeholder scope id) right final := by
  obtain ⟨steps, ty, ended⟩ := finishes
  refine ⟨steps + 1, ty, ?_⟩
  rw [within]
  unfold step
  rw [if_neg different]
  simp only [Action.environment_bind, isBound]
  exact ended

/-- An unbound placeholder is bound to a type in which it does not occur. -/
theorem bind
    (quiet : env.options.trace = false)
    (consistent : env.frames.Consistent)
    {scope : ScopeId}
    {id : PlaceholderId}
    (unbound : env.binding? id = none)
    (different : .placeholder scope id ≠ env.follow right)
    (notFound : env.occurs id (env.follow right) = false) :
    env.Finishes (.placeholder scope id) right (env.bindPlaceholder id (env.follow right)) := by
  have distinct : .placeholder scope id ≠ right := by
    rintro rfl
    exact different (follow_unbound consistent unbound scope).symm
  refine ⟨1, env.follow right, ?_⟩
  rw [within]
  unfold step
  rw [if_neg distinct]
  simp only [Action.environment_bind, unbound]
  unfold Unification.bind
  rw [Action.environment_bind]
  rw [if_neg different.symm, notFound]
  refine Action.bind_eq_ok.mpr ⟨(), env, note_of_quiet quiet _ _ _, ?_⟩
  exact Action.bind_eq_ok.mpr ⟨(), _, rfl, rfl⟩

/-- A placeholder on the right is unified with the sides swapped. -/
theorem swapped
    (notPlaceholder : left.isPlaceholder = false)
    (isPlaceholder : right.isPlaceholder = true)
    (finishes : env.Finishes right left final) :
    env.Finishes left right final := by
  obtain ⟨steps, ty, ended⟩ := finishes
  refine ⟨steps + 1, ty, ?_⟩
  rw [within]
  unfold step
  have different : left ≠ right := by
    rintro rfl
    rw [notPlaceholder] at isPlaceholder
    contradiction
  rw [if_neg different]
  cases right with
  | placeholder scope id =>
      cases left with
      | placeholder => contradiction
      | _ => exact ended
  | _ => contradiction

/-- A reference on the left is unified by unifying what it stands for. -/
theorem expandLeft
    (quiet : env.options.trace = false)
    {scope : ScopeId}
    {name : String}
    {found : Ty}
    (isHead : env.head (.named scope name) = found)
    (notNamed : ∀ scope name, found ≠ .named scope name)
    (notPlaceholder : right.isPlaceholder = false)
    (different : .named scope name ≠ right)
    (finishes : env.Finishes found right final) :
    env.Finishes (.named scope name) right final := by
  obtain ⟨steps, ty, ended⟩ := finishes
  refine ⟨steps + 1, ty, ?_⟩
  rw [within]
  unfold step
  rw [if_neg different]
  have expanded :
      (do
        let found ← definition (.named scope name) right
        note (.expand (.named scope name) found) (.named scope name) right
        within steps found right) env = .ok ty final := by
    refine Action.bind_eq_ok.mpr ⟨found, env, definition_eq_ok isHead notNamed, ?_⟩
    exact Action.bind_eq_ok.mpr ⟨(), env, note_of_quiet quiet _ _ _, ended⟩
  cases right with
  | placeholder => contradiction
  | _ => exact expanded

/-- A reference on the right is unified by unifying what it stands for. -/
theorem expandRight
    (quiet : env.options.trace = false)
    {scope : ScopeId}
    {name : String}
    {found : Ty}
    (isHead : env.head (.named scope name) = found)
    (notNamed : ∀ scope name, found ≠ .named scope name)
    (leftPlaceholder : left.isPlaceholder = false)
    (leftNamed : ∀ scope name, left ≠ .named scope name)
    (finishes : env.Finishes left found final) :
    env.Finishes left (.named scope name) final := by
  obtain ⟨steps, ty, ended⟩ := finishes
  refine ⟨steps + 1, ty, ?_⟩
  rw [within]
  unfold step
  rw [if_neg (leftNamed scope name)]
  have expanded :
      (do
        let found ← definition (.named scope name) left
        note (.expand (.named scope name) found) left (.named scope name)
        within steps left found) env = .ok ty final := by
    refine Action.bind_eq_ok.mpr ⟨found, env, definition_eq_ok isHead notNamed, ?_⟩
    exact Action.bind_eq_ok.mpr ⟨(), env, note_of_quiet quiet _ _ _, ended⟩
  cases left with
  | placeholder => contradiction
  | named scope name => exact absurd rfl (leftNamed scope name)
  | _ => exact expanded

/-- More steps do not matter to a unification that succeeds. -/
theorem exists_steps
    (finishes : env.Finishes left right final) :
    ∃ fewest, ∀ steps, fewest ≤ steps →
      ∃ ty, within steps left right env = .ok ty final := by
  obtain ⟨fewest, ty, ended⟩ := finishes
  refine ⟨fewest, fun steps enough => ⟨ty, ?_⟩⟩
  rw [within_extends enough left right env (by rw [ended]; nofun), ended]

/-- Arrays are unified if their components and then their lengths are. -/
theorem array
    (quiet : env.options.trace = false)
    {component component' : Ty}
    {length length' : Length}
    (different : Ty.array component length ≠ .array component' length')
    (components : env.Finishes component component' middle)
    (lengths : ∃ met, unifyLength length length' middle = .ok met final) :
    env.Finishes (.array component length) (.array component' length') final := by
  obtain ⟨steps, ty, ended⟩ := components
  obtain ⟨met, lengthEnded⟩ := lengths
  refine ⟨steps + 1, .array ty met, ?_⟩
  rw [within]
  unfold step
  rw [if_neg different]
  refine Action.bind_eq_ok.mpr ⟨(), env, note_of_quiet quiet _ _ _, ?_⟩
  refine Action.bind_eq_ok.mpr ⟨ty, middle, ended, ?_⟩
  exact Action.bind_eq_ok.mpr ⟨met, final, lengthEnded, rfl⟩

/-- Functions are unified if their parameters and then their results are. -/
theorem function
    (quiet : env.options.trace = false)
    {param result param' result' : Ty}
    (different : Ty.function param result ≠ .function param' result')
    (params : env.Finishes param param' middle)
    (results : middle.Finishes result result' final) :
    env.Finishes (.function param result) (.function param' result') final := by
  obtain ⟨enough, ended⟩ := params.exists_steps
  obtain ⟨enough', ended'⟩ := results.exists_steps
  obtain ⟨met, paramEnded⟩ := ended (max enough enough') (Nat.le_max_left _ _)
  obtain ⟨met', resultEnded⟩ := ended' (max enough enough') (Nat.le_max_right _ _)
  refine ⟨max enough enough' + 1, .function met met', ?_⟩
  rw [within]
  unfold step
  rw [if_neg different]
  refine Action.bind_eq_ok.mpr ⟨(), env, note_of_quiet quiet _ _ _, ?_⟩
  refine Action.bind_eq_ok.mpr ⟨met, middle, paramEnded, ?_⟩
  exact Action.bind_eq_ok.mpr ⟨met', final, resultEnded, rfl⟩

/-- `int` and `float` are unified in either order. -/
theorem widen
    (quiet : env.options.trace = false) :
    env.Finishes Ty.int Ty.float env ∧ env.Finishes Ty.float Ty.int env := by
  constructor
  · refine ⟨1, Ty.float, ?_⟩
    rw [within]
    unfold step
    rw [if_neg (by decide)]
    exact Action.bind_eq_ok.mpr ⟨(), env, note_of_quiet quiet _ _ _, rfl⟩
  · refine ⟨1, Ty.float, ?_⟩
    rw [within]
    unfold step
    rw [if_neg (by decide)]
    exact Action.bind_eq_ok.mpr ⟨(), env, note_of_quiet quiet _ _ _, rfl⟩

/-- An unbound placeholder and a type that is followed to it agree already. -/
theorem met
    {scope : ScopeId}
    {id : PlaceholderId}
    (quiet : env.options.trace = false)
    (unbound : env.binding? id = none)
    (isFollowed : env.follow right = .placeholder scope id) :
    env.Finishes (.placeholder scope id) right env := by
  by_cases same : .placeholder scope id = right
  · exact same ▸ .self quiet _
  · refine ⟨1, .placeholder scope id, ?_⟩
    rw [within]
    unfold step
    rw [if_neg same]
    simp only [Action.environment_bind, unbound]
    unfold Unification.bind
    rw [Action.environment_bind, isFollowed, if_pos rfl]
    rfl

end Finishes

/-- The fields of structs are unified one after the other. -/
inductive FinishesAll : Environment → List (String × Ty × Ty) → Environment → Prop where
  | nil (env : Environment) :
      FinishesAll env [] env
  | cons {env middle final : Environment} {first second : Ty} {rest : List (String × Ty × Ty)}
      (label : String) :
      env.Finishes first second middle →
      FinishesAll middle rest final →
      FinishesAll env ((label, first, second) :: rest) final

/-- From some number of steps on the shared fields are unified one after the other. -/
theorem FinishesAll.exists_steps
    {env final : Environment}
    {shared : List (String × Ty × Ty)}
    (finishes : env.FinishesAll shared final) :
    ∃ fewest, ∀ steps, fewest ≤ steps →
      ∃ fields,
        (shared.mapM fun (field : String × Ty × Ty) => do
          let ty ← within steps field.2.1 field.2.2
          pure (field.1, ty)) env = .ok fields final := by
  induction finishes with
  | nil env => exact ⟨0, fun _ _ => ⟨[], rfl⟩⟩
  | @cons env middle final first second rest label one _ inductionHypothesis =>
      obtain ⟨enough, ended⟩ := one.exists_steps
      obtain ⟨enough', ended'⟩ := inductionHypothesis
      refine ⟨max enough enough', fun steps isEnough => ?_⟩
      obtain ⟨ty, isOk⟩ := ended steps (le_of_max_le_left isEnough)
      obtain ⟨fields, areOk⟩ := ended' steps (le_of_max_le_right isEnough)
      refine ⟨(label, ty) :: fields, ?_⟩
      rw [List.mapM_cons]
      refine Action.bind_eq_ok.mpr ⟨(label, ty), middle, ?_, ?_⟩
      · exact Action.bind_eq_ok.mpr ⟨ty, middle, isOk, rfl⟩
      · exact Action.bind_eq_ok.mpr ⟨fields, final, areOk, rfl⟩

/-- Structs are unified if the fields are that they share. -/
theorem Finishes.struct
    {env final : Environment}
    (quiet : env.options.trace = false)
    {fields fields' : List (String × Ty)}
    (different : Ty.struct fields ≠ .struct fields')
    (notEmpty : Ty.sharedFields fields fields' ≠ [])
    (finishes : env.FinishesAll (Ty.sharedFields fields fields') final) :
    env.Finishes (.struct fields) (.struct fields') final := by
  obtain ⟨steps, ended⟩ := finishes.exists_steps
  obtain ⟨met, areOk⟩ := ended steps le_rfl
  refine ⟨steps + 1, .struct met, ?_⟩
  rw [within]
  unfold step
  rw [if_neg different]
  simp only [meet]
  refine Action.bind_eq_ok.mpr ⟨(), env, note_of_quiet quiet _ _ _, ?_⟩
  exact Action.bind_eq_ok.mpr ⟨met, final, areOk, rfl⟩

/-- A unification that can succeed within some number of steps succeeds. -/
theorem Finishes.exists_unify
    {env final : Environment}
    {left right : Ty}
    (finishes : env.Finishes left right final)
    (consistent : env.frames.Consistent)
    (acyclic : env.Acyclic) :
    ∃ ty, unify left right env = .ok ty final := by
  obtain ⟨fewest, ended⟩ := finishes.exists_steps
  obtain ⟨ty, isOk⟩ := ended (max fewest (limit env left right)) (Nat.le_max_left _ _)
  have same := (unify_eq_within consistent acyclic left right).2 _ (Nat.le_max_right fewest _)
  exact ⟨ty, same.trans isOk⟩

end Environment

end ShaderTyping
