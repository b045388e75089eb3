import ShaderTyping.Proofs.MirroredUnification
import ShaderTyping.Proofs.RenumberedEnvironments
import ShaderTyping.Proofs.Termination

namespace ShaderTyping

/-!
# Unification and calls under other numbers

`Action.Renumbers` compares an action with the same action in an environment where the same
is known under other numbers: they succeed with the same value, but for the numbers, or fail
together, or neither comes to an answer.  Unification and calls only compare numbers and take
fresh ones, so they are renumbered (`unify_renumbers`, `call_renumbers`).  A trial that fails
leaves nothing but the fresh numbers that it has taken, also in the middle of another trial.
-/

/-! ## Renumbered outcomes -/

/-- Both actions succeed with the same value but for the numbers, or both fail, or neither ends. -/
inductive Outcome.Renumbered
    (number : PlaceholderId ↪ PlaceholderId)
    (convert : α → β) : Outcome ε α → Outcome ε' β → Prop where
  | ok {value : α} {env env' : Environment} :
      Environment.Renumbered number env env' →
      Renumbered number convert (.ok value env) (.ok (convert value) env')
  | error {cause : ε} {cause' : ε'} {env env' : Environment} :
      env.fresh.Renumbered number env'.fresh →
      env'.context = env.context →
      Renumbered number convert (.error cause env) (.error cause' env')
  | exhausted : Renumbered number convert .exhausted .exhausted

namespace Action

/-- Two actions do the same in two environments, but for the numbers. -/
def Renumbers
    (number : PlaceholderId ↪ PlaceholderId)
    (convert : α → β)
    (first : Action ε α)
    (first' : Action ε' β)
    (env env' : Environment) : Prop :=
  Outcome.Renumbered number convert (first env) (first' env')

namespace Renumbers

variable {number : PlaceholderId ↪ PlaceholderId} {convert : α → β} {result : γ → δ}
variable {env env' : Environment}

theorem pure
    {value : α}
    (alike : Environment.Renumbered number env env') :
    Renumbers number convert (Pure.pure value : Action ε α)
      (Pure.pure (convert value) : Action ε' β) env env' :=
  .ok alike

theorem fail
    {cause : ε}
    {cause' : ε'}
    (alike : Environment.Renumbered number env env') :
    Renumbers number convert (Action.fail cause) (Action.fail cause') env env' :=
  .error alike.fresh alike.context

/-- Two actions in a row renumber if each of them does. -/
theorem bind
    {first : Action ε α}
    {first' : Action ε' β}
    {next : α → Action ε γ}
    {next' : β → Action ε' δ}
    (renumbers : Renumbers number convert first first' env env')
    (continues :
      ∀ {value middle middle'},
        Environment.Renumbered number middle middle' →
        Renumbers number result (next value) (next' (convert value)) middle middle') :
    Renumbers number result (first >>= next) (first' >>= next') env env' := by
  change Outcome.Renumbered number result (Action.bind first next env)
    (Action.bind first' next' env')
  unfold Renumbers at renumbers
  unfold Action.bind
  generalize first env = outcome, first' env' = outcome' at renumbers
  cases renumbers with
  | ok alike => exact continues alike
  | error fresh context => exact .error fresh context
  | exhausted => exact .exhausted

/-- After reading the environments the actions go on with the same environments. -/
theorem bind_environment
    {next : Environment → Action ε α}
    {next' : Environment → Action ε' β}
    (continues : Renumbers number convert (next env) (next' env') env env') :
    Renumbers number convert (Action.environment >>= next) (Action.environment >>= next')
      env env' :=
  continues

/-- Keeping steps in the traces makes no difference. -/
theorem note
    {next : Unit → Action ε α}
    {next' : Unit → Action ε' β}
    {event event' : UnifyEvent}
    {left left' right right' : Ty}
    (alike : Environment.Renumbered number env env')
    (continues :
      ∀ {middle middle'},
        Environment.Renumbered number middle middle' →
        Renumbers number convert (next ()) (next' ()) middle middle') :
    Renumbers number convert (Unification.note event left right >>= next)
      (Unification.note event' left' right' >>= next') env env' :=
  continues (alike.traceUnify _ _ _ _ _ _)

/-- A fresh placeholder gets the other number. -/
theorem freshPlaceholder
    {next : Ty → Action ε α}
    {next' : Ty → Action ε' β}
    (alike : Environment.Renumbered number env env')
    (scope : ScopeId)
    (continues :
      ∀ {ty middle middle'},
        Environment.Renumbered number middle middle' →
        Renumbers number convert (next ty) (next' (ty.renumber number)) middle middle') :
    Renumbers number convert (liftM (Environment.freshPlaceholder scope) >>= next)
      (liftM (Environment.freshPlaceholder scope) >>= next') env env' := by
  obtain ⟨sameType, alike⟩ := alike.freshPlaceholder scope
  have continued := @continues (Environment.freshPlaceholder scope env).1 _ _ alike
  rw [← sameType] at continued
  exact continued

/-- Going through a list renumbers if each item does. -/
theorem mapM
    {item : α → α'}
    {convert : β → β'}
    {action : α → Action ε β}
    {action' : α' → Action ε' β'}
    (alike : Environment.Renumbered number env env')
    (each :
      ∀ value {later later'},
        Environment.Renumbered number later later' →
        Renumbers number convert (action value) (action' (item value)) later later')
    (values : List α) :
    Renumbers number (List.map convert) (values.mapM action) ((values.map item).mapM action')
      env env' := by
  induction values generalizing env env' with
  | nil =>
      rw [List.map_nil, List.mapM_nil, List.mapM_nil]
      exact pure alike
  | cons value rest inductionHypothesis =>
      rw [List.map_cons, List.mapM_cons, List.mapM_cons]
      refine bind (each value alike) fun alike => ?_
      exact bind (inductionHypothesis alike) fun alike => pure alike

/-- What is left of a transaction that fails is the same, but for the numbers, as well. -/
theorem attempt_transaction
    {first : Action ε α}
    {first' : Action ε' β}
    {next : Except ε α → Action ε₁ γ}
    {next' : Except ε' β → Action ε₁' δ}
    (alike : Environment.Renumbered number env env')
    (runs : Obeys Environment.Run first env.push)
    (runs' : Obeys Environment.Run first' env'.push)
    (inside : Renumbers number convert first first' env.push env'.push)
    (accepted :
      ∀ {value middle middle'},
        Environment.Renumbered number middle middle' →
        Renumbers number result (next (.ok value)) (next' (.ok (convert value))) middle middle')
    (rejected :
      ∀ {cause cause' middle middle'},
        Environment.Renumbered number middle middle' →
        Renumbers number result (next (.error cause)) (next' (.error cause')) middle middle') :
    Renumbers number result (first.transaction.attempt >>= next)
      (first'.transaction.attempt >>= next') env env' := by
  change Outcome.Renumbered number result (Action.bind first.transaction.attempt next env)
    (Action.bind first'.transaction.attempt next' env')
  unfold Renumbers at inside
  unfold Action.bind Action.attempt Action.transaction
  generalize ended : first env.push = outcome, ended' : first' env'.push = outcome' at inside
  cases inside with
  | ok alikeInside => exact accepted alikeInside.commit
  | error fresh context =>
      have restored := Environment.Restored.of_run (runs.of_eq_error ended)
      have restored' := Environment.Restored.of_run (runs'.of_eq_error ended')
      exact rejected (alike.abort restored restored' fresh context)
  | exhausted => exact .exhausted

end Renumbers

end Action

open ShaderTyping.Environment (Renumbered)
open ShaderTyping.Action (Renumbers)

variable {number : PlaceholderId ↪ PlaceholderId} {env env' : Environment}

/-! ## Unification -/

/-- Lengths are unified alike. -/
theorem unifyLength_renumbers (alike : Renumbered number env env') (left right : Length) :
    Renumbers number id (unifyLength left right) (unifyLength left right) env env' := by
  unfold unifyLength
  refine .bind_environment ?_
  rw [alike.resolveLength, alike.resolveLength]
  dsimp only
  split
  · exact .pure alike
  · rename_i different
    split
    · rename_i isVar
      exact .ok (alike.bindLength isVar (fun same => different (isVar.trans same.symm))
        _ _ _ _ _ _)
    · rename_i isVar _
      exact .ok (alike.bindLength isVar (fun same => different (same.trans isVar.symm))
        _ _ _ _ _ _)
    · exact .fail alike

namespace Unification

/-- Types with other numbers are unified to the same type with other numbers. -/
def Renumbering
    (number : PlaceholderId ↪ PlaceholderId)
    (recur : Ty → Ty → Action UnifyError Ty) : Prop :=
  ∀ {env env' : Environment} (left right : Ty),
    Renumbered number env env' →
    Renumbers number (Ty.renumber number) (recur left right)
      (recur (left.renumber number) (right.renumber number)) env env'

variable {recur : Ty → Ty → Action UnifyError Ty}

/-- A mismatch renumbers. -/
theorem mismatch_renumbers
    {convert : α → β}
    (alike : Renumbered number env env')
    (left left' right right' : Ty) :
    Renumbers number convert (mismatch left right) (mismatch left' right') env env' :=
  .note alike fun alike => .bind_environment (.fail alike)

/-- Looking up what a reference stands for renumbers. -/
theorem definition_renumbers
    (alike : Renumbered number env env')
    (reference other : Ty) :
    Renumbers number (Ty.renumber number) (definition reference other)
      (definition (reference.renumber number) (other.renumber number)) env env' := by
  unfold definition
  refine .bind_environment ?_
  rw [alike.head]
  cases env.head reference with
  | named scope name =>
      simp only [Ty.renumber, alike.definition?]
      split
      · exact .fail alike
      · exact mismatch_renumbers alike _ _ _ _
  | _ => exact .pure alike

/-- Binding a placeholder binds the one with the other number. -/
theorem bind_renumbers
    (alike : Renumbered number env env')
    (scope : ScopeId)
    {id : PlaceholderId}
    (unbound : env.binding? id = none)
    (other : Ty) :
    Renumbers number (Ty.renumber number) (bind scope id other)
      (bind scope (number id) (other.renumber number)) env env' := by
  have sameVar :
      (env.follow other).renumber number = .placeholder scope (number id) ↔
        env.follow other = .placeholder scope id := by
    change _ = (Ty.placeholder scope id).renumber number ↔ _
    exact (Ty.renumber_injective number.injective).eq_iff
  unfold bind
  refine .bind_environment ?_
  rw [alike.follow]
  dsimp only
  split
  · rename_i isVar
    rw [if_pos (sameVar.mpr isVar)]
    exact .pure alike
  · rename_i different
    rw [if_neg (sameVar.not.mpr different), alike.occurs]
    split
    · exact .note alike fun alike => .fail alike
    · rename_i notFound
      exact .ok (alike.bindPlaceholder unbound (Bool.eq_false_iff.mpr notFound) _ _ _ _ _ _)

/-- Unification of common fields renumbers if that of types does. -/
theorem meet_renumbers
    (renumbering : Renumbering number recur)
    (alike : Renumbered number env env')
    (left right : List (String × Ty)) :
    Renumbers number (Ty.renumber number) (meet recur left right)
      (meet recur (left.map fun field => (field.1, field.2.renumber number))
        (right.map fun field => (field.1, field.2.renumber number))) env env' := by
  unfold meet
  rw [Ty.sharedFields_map]
  cases Ty.sharedFields left right with
  | nil => exact .note alike fun alike => .bind_environment (.fail alike)
  | cons first others =>
      have each (shared : String × Ty × Ty) {later later' : Environment}
          (alike : Renumbered number later later') :
          Renumbers number (fun field : String × Ty => (field.1, field.2.renumber number))
            (do
              let ty ← recur shared.2.1 shared.2.2
              pure (shared.1, ty))
            (do
              let ty ← recur (shared.2.1.renumber number) (shared.2.2.renumber number)
              pure (shared.1, ty)) later later' :=
        .bind (renumbering _ _ alike) fun alike => .pure alike
      refine .note alike fun alike => .bind (.mapM alike each (first :: others)) fun alike => ?_
      rw [← Ty.renumber_struct]
      exact .pure alike

/-- Two types of which neither is a placeholder or a reference are taken apart alike. -/
theorem step_renumbers_of_isSolid
    (renumbering : Renumbering number recur)
    (alike : Renumbered number env env')
    {left right : Ty}
    (leftSolid : left.isSolid = true)
    (rightSolid : right.isSolid = true)
    (different : left ≠ right) :
    Renumbers number (Ty.renumber number) (step recur left right)
      (step recur (left.renumber number) (right.renumber number)) env env' := by
  have different' : left.renumber number ≠ right.renumber number :=
    (Ty.renumber_injective number.injective).ne different
  have refused {left left' right right' : Ty} :
      Renumbers number (Ty.renumber number) (mismatch left right) (mismatch left' right')
        env env' :=
    mismatch_renumbers alike _ _ _ _
  cases left with
  | placeholder | named => contradiction
  | primitive kind =>
      cases right with
      | placeholder | named => contradiction
      | primitive kind' =>
          rcases step_primitive fun same => different (congrArg Ty.primitive same) with
            widened | isRefused
          · rw [Ty.renumber, Ty.renumber, widened]
            exact .note alike fun alike => .pure alike
          · rw [Ty.renumber, Ty.renumber, isRefused]
            exact refused
      | _ => exact refused
  | array component length =>
      cases right with
      | placeholder | named => contradiction
      | array component' length' =>
          unfold step
          rw [if_neg different, if_neg different']
          refine .note alike fun alike => .bind (renumbering _ _ alike) fun alike => ?_
          exact .bind (unifyLength_renumbers alike _ _) fun alike => .pure alike
      | _ => exact refused
  | struct fields =>
      cases right with
      | placeholder | named => contradiction
      | struct fields' =>
          rw [Ty.renumber_struct, Ty.renumber_struct] at different' ⊢
          unfold step
          rw [if_neg different, if_neg different']
          exact meet_renumbers renumbering alike _ _
      | _ => exact refused
  | function param result =>
      cases right with
      | placeholder | named => contradiction
      | function param' result' =>
          unfold step
          rw [if_neg different, if_neg different']
          refine .note alike fun alike => .bind (renumbering _ _ alike) fun alike => ?_
          exact .bind (renumbering _ _ alike) fun alike => .pure alike
      | _ => exact refused
  | union members =>
      cases right with
      | placeholder | named => contradiction
      | union members' =>
          unfold step
          rw [if_neg different, if_neg different']
          exact refused
      | _ => exact refused
  | parametric scope label =>
      cases right with
      | placeholder | named => contradiction
      | parametric scope' label' =>
          unfold step
          rw [if_neg different, if_neg different']
          exact refused
      | _ => exact refused

/-- A placeholder is bound alike, or what it is bound to is unified alike. -/
theorem step_renumbers_placeholder
    (renumbering : Renumbering number recur)
    (alike : Renumbered number env env')
    (scope : ScopeId)
    (id : PlaceholderId)
    {right : Ty}
    (different : .placeholder scope id ≠ right) :
    Renumbers number (Ty.renumber number) (step recur (.placeholder scope id) right)
      (step recur (.placeholder scope (number id)) (right.renumber number)) env env' := by
  have different' : .placeholder scope (number id) ≠ right.renumber number :=
    (Ty.renumber_injective number.injective).ne different
  unfold step
  rw [if_neg different, if_neg different']
  refine .bind_environment ?_
  rw [alike.binding?]
  cases found : env.binding? id with
  | none => exact bind_renumbers alike scope found right
  | some bound => exact renumbering bound right alike

/-- A step with a placeholder on the right swaps the sides, under other numbers too. -/
theorem step_renumbers_placeholder_right
    (renumbering : Renumbering number recur)
    (alike : Renumbered number env env')
    {left : Ty}
    (notPlaceholder : left.isPlaceholder = false)
    {scope : ScopeId}
    {id : PlaceholderId}
    (different : left ≠ .placeholder scope id) :
    Renumbers number (Ty.renumber number) (step recur left (.placeholder scope id))
      (step recur (left.renumber number) (.placeholder scope (number id))) env env' := by
  have different' : left.renumber number ≠ .placeholder scope (number id) :=
    (Ty.renumber_injective number.injective).ne different
  have notPlaceholder' := (Ty.isPlaceholder_renumber number left).trans notPlaceholder
  rw [step_swapped notPlaceholder different, step_swapped notPlaceholder' different']
  exact renumbering (.placeholder scope id) left alike

/-- References are expanded alike. -/
theorem step_renumbers_named
    (renumbering : Renumbering number recur)
    (alike : Renumbered number env env')
    (scope : ScopeId)
    (name : String)
    {right : Ty}
    (notPlaceholder : right.isPlaceholder = false)
    (different : .named scope name ≠ right) :
    Renumbers number (Ty.renumber number) (step recur (.named scope name) right)
      (step recur (.named scope name) (right.renumber number)) env env' := by
  have different' : .named scope name ≠ right.renumber number :=
    (Ty.renumber_injective number.injective).ne different
  have notPlaceholder' := (Ty.isPlaceholder_renumber number right).trans notPlaceholder
  rw [step_named notPlaceholder different, step_named notPlaceholder' different']
  refine .bind (definition_renumbers alike (.named scope name) right) fun alike => ?_
  exact .note alike fun alike => renumbering _ right alike

/-- A step with a reference on the right looks it up, under other numbers too. -/
theorem step_renumbers_named_right
    (renumbering : Renumbering number recur)
    (alike : Renumbered number env env')
    {left : Ty}
    (leftSolid : left.isSolid = true)
    (scope : ScopeId)
    (name : String) :
    Renumbers number (Ty.renumber number) (step recur left (.named scope name))
      (step recur (left.renumber number) (.named scope name)) env env' := by
  have leftSolid' := (Ty.isSolid_renumber number left).trans leftSolid
  rw [step_named_right leftSolid, step_named_right leftSolid']
  refine .bind (definition_renumbers alike (.named scope name) left) fun alike => ?_
  exact .note alike fun alike => renumbering left _ alike

/-- A step on types with other numbers does the same to them. -/
theorem step_renumbers (renumbering : Renumbering number recur) :
    Renumbering number (step recur) := by
  intro env env' left right alike
  by_cases same : left = right
  · subst same
    unfold step
    rw [if_pos rfl, if_pos rfl]
    exact .note alike fun alike => .pure alike
  -- The rules for placeholders come before those for references.
  cases left with
  | placeholder scope id => exact step_renumbers_placeholder renumbering alike scope id same
  | named scope name =>
      cases right with
      | placeholder scope' id =>
          exact step_renumbers_placeholder_right renumbering alike rfl same
      | _ => exact step_renumbers_named renumbering alike scope name rfl same
  | _ =>
      cases right with
      | placeholder scope id =>
          exact step_renumbers_placeholder_right renumbering alike rfl same
      | named scope name => exact step_renumbers_named_right renumbering alike rfl scope name
      | _ => exact step_renumbers_of_isSolid renumbering alike rfl rfl same

/-- Unification in any number of steps renumbers. -/
theorem within_renumbers (steps : Nat) : Renumbering number (within steps) := by
  induction steps with
  | zero => exact fun _ _ _ => .exhausted
  | succ steps inductionHypothesis => exact step_renumbers inductionHypothesis

end Unification

/-- Types with other numbers are unified to the same type with other numbers. -/
theorem unify_renumbers (alike : Renumbered number env env') (left right : Ty) :
    Renumbers number (Ty.renumber number) (unify left right)
      (unify (left.renumber number) (right.renumber number)) env env' := by
  obtain ⟨_, same⟩ :=
    unify_eq_within alike.followable.consistent alike.followable.acyclic left right
  obtain ⟨_, same'⟩ :=
    unify_eq_within alike.followable'.consistent alike.followable'.acyclic
      (left.renumber number) (right.renumber number)
  have renumbers := Unification.within_renumbers
    (max (Unification.limit env left right)
      (Unification.limit env' (left.renumber number) (right.renumber number))) left right alike
  unfold Renumbers at renumbers ⊢
  rwa [← same _ (Nat.le_max_left _ _), ← same' _ (Nat.le_max_right _ _)] at renumbers

/-! ## Calls -/

namespace Call

/-- Calls on types with other numbers come to the same type with other numbers. -/
def Renumbering
    (number : PlaceholderId ↪ PlaceholderId)
    (recur : Ty → List Ty → Action UnifyError Ty) : Prop :=
  ∀ {env env' : Environment} (callee : Ty) (args : List Ty),
    Renumbered number env env' →
    Renumbers number (Ty.renumber number) (recur callee args)
      (recur (callee.renumber number) (args.map (Ty.renumber number))) env env'

variable {recur : Ty → List Ty → Action UnifyError Ty}

/-- Trying the members of an overload set renumbers if the rest of the call does. -/
theorem firstAccepting_renumbers
    (renumbering : Renumbering number recur)
    (obeys : ∀ callee args env, Action.Obeys Environment.Run (recur callee args) env)
    (alike : Renumbered number env env')
    (arg : Ty)
    (rest members : List Ty) :
    Renumbers number (Option.map (Ty.renumber number)) (firstAccepting recur arg rest members)
      (firstAccepting recur (arg.renumber number) (rest.map (Ty.renumber number))
        (members.map (Ty.renumber number))) env env' := by
  induction members generalizing env env' with
  | nil => exact .pure alike
  | cons member others inductionHypothesis =>
      rw [List.map_cons]
      unfold firstAccepting
      refine .note alike fun alike => ?_
      have inside := renumbering member (arg :: rest) alike.push
      exact .attempt_transaction alike (obeys _ _ _) (obeys _ _ _) inside
        (fun alike => .pure alike) inductionHypothesis

/-- One argument of a call renumbers if the rest of the call does. -/
theorem step_renumbers
    (renumbering : Renumbering number recur)
    (obeys : ∀ callee args env, Action.Obeys Environment.Run (recur callee args) env) :
    Renumbering number (step recur) := by
  intro env env' callee args alike
  cases args with
  | nil => exact .pure alike
  | cons arg rest =>
      rw [List.map_cons]
      unfold step
      refine .bind_environment ?_
      rw [alike.head]
      cases env.head callee with
      | function param result =>
          exact .bind (unify_renumbers alike param arg) fun alike => renumbering result rest alike
      | placeholder scope id =>
          refine .freshPlaceholder alike scope fun {result _ _} alike => ?_
          refine .bind (unify_renumbers alike (.placeholder scope id) (.function arg result))
            fun alike => ?_
          exact renumbering result rest alike
      | union members =>
          rw [Ty.renumber_union]
          refine .bind (firstAccepting_renumbers renumbering obeys alike arg rest members)
            fun {accepted _ _} alike => ?_
          cases accepted with
          | some ty => exact .pure alike
          | none => exact .bind_environment (.fail alike)
      | _ => exact .fail alike

/-- A call in any number of steps renumbers. -/
theorem within_renumbers (steps : Nat) : Renumbering number (within steps) := by
  induction steps with
  | zero => exact fun _ _ _ => .exhausted
  | succ steps inductionHypothesis => exact step_renumbers inductionHypothesis (within_run steps)

end Call

/-- Calls on types with other numbers come to the same type with other numbers. -/
theorem call_renumbers (alike : Renumbered number env env') (callee : Ty) (args : List Ty) :
    Renumbers number (Ty.renumber number) (call callee args)
      (call (callee.renumber number) (args.map (Ty.renumber number))) env env' := by
  obtain ⟨_, same⟩ :=
    call_eq_within alike.followable.consistent alike.followable.acyclic callee args
  obtain ⟨_, same'⟩ :=
    call_eq_within alike.followable'.consistent alike.followable'.acyclic
      (callee.renumber number) (args.map (Ty.renumber number))
  have renumbers := Call.within_renumbers
    (max (Call.limit env callee args)
      (Call.limit env' (callee.renumber number) (args.map (Ty.renumber number)))) callee args alike
  unfold Renumbers at renumbers ⊢
  rwa [← same _ (Nat.le_max_left _ _), ← same' _ (Nat.le_max_right _ _)] at renumbers

end ShaderTyping
