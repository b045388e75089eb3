import Mathlib.Algebra.Order.BigOperators.Group.List
import ShaderTyping.Proofs.RenumberedCalls

namespace ShaderTyping

/-!
# Overload resolution

An overload set is settled by its first member that accepts the arguments, and the members
that were tried before it leave no trace but the numbers of the placeholders that they took.
A trial starts from the frames as they were before the first one, with higher numbers for
fresh placeholders.  Higher numbers make no difference (`renumbered_advance`), and neither
does the transaction around the trial, so a trial comes to what the member comes to alone.
-/

open ShaderTyping.Environment (Renumbered Run)
open ShaderTyping.Action (Renumbers)

/-! ## Higher numbers for fresh placeholders -/

/-- Placeholders from `base` on get numbers that are higher by `ahead`. -/
def PlaceholderId.shift (base ahead : Nat) : PlaceholderId ↪ PlaceholderId where
  toFun id := ⟨if id.number < base then id.number else id.number + ahead⟩
  inj' first second same := by
    have sameNumber := congrArg PlaceholderId.number same
    dsimp only at sameNumber
    ext
    split at sameNumber <;> split at sameNumber <;> omega

namespace PlaceholderId

variable {base ahead : Nat} {id : PlaceholderId}

/-- Numbers below the base are kept. -/
theorem shift_of_lt (isOlder : id.number < base) : shift base ahead id = id :=
  congrArg PlaceholderId.mk (if_pos isOlder)

/-- Numbers from the base on are moved ahead. -/
theorem shift_of_le (isFresh : base ≤ id.number) : shift base ahead id = ⟨id.number + ahead⟩ :=
  congrArg PlaceholderId.mk (if_neg (Nat.not_lt.mpr isFresh))

end PlaceholderId

/-- All placeholders of a type have numbers below a bound. -/
def Ty.NumberedBelow (bound : Nat) (ty : Ty) : Prop :=
  ∀ id, ty.Mentions id → id.number < bound

/-- Keeping all numbers keeps every type. -/
theorem Ty.renumber_refl (ty : Ty) : ty.renumber (Function.Embedding.refl PlaceholderId) = ty :=
  renumber_eq_self fun _ => rfl

/-- Moving fresh numbers keeps a type that has older numbers only. -/
theorem Ty.NumberedBelow.renumber_shift
    {bound : Nat}
    {ty : Ty}
    (below : ty.NumberedBelow bound)
    (ahead : Nat) :
    ty.renumber (PlaceholderId.shift bound ahead) = ty := by
  refine renumber_eq_self fun {scope id} isLeaf => ?_
  exact PlaceholderId.shift_of_lt (below id (mentions_iff_mem_leaves.mpr ⟨scope, isLeaf⟩))

namespace Counters.Renumbered

variable {counters counters' : Counters}

/-- Counters that are alike under the same numbers are the same. -/
theorem eq (alike : counters.Renumbered (.refl PlaceholderId) counters') : counters' = counters :=
  Counters.ext (congrArg PlaceholderId.number (alike.placeholders 0)).symm alike.lengths
    alike.labels

/-- Counters that are past the base are ahead by the shift. -/
theorem placeholder_of_shift
    {base ahead : Nat}
    (alike : counters.Renumbered (PlaceholderId.shift base ahead) counters')
    (isPast : base ≤ counters.placeholder) :
    counters'.placeholder = counters.placeholder + ahead := by
  have shifted := alike.placeholders 0
  rw [PlaceholderId.shift_of_le isPast] at shifted
  exact (congrArg PlaceholderId.number shifted).symm

end Counters.Renumbered

namespace Environment

/-- The next fresh placeholder has a higher number than those in bindings and definitions. -/
structure FreshUnused (env : Environment) : Prop where
  bindings :
    ∀ {id bound},
      env.binding? id = some bound →
      id.number < env.fresh.placeholder ∧ bound.NumberedBelow env.fresh.placeholder
  definitions :
    ∀ {scope name key definition},
      env.definition? scope name = some (key, definition) →
      definition.NumberedBelow env.fresh.placeholder

/-- The environment after some fresh placeholders have been taken. -/
def advance (env : Environment) (taken : Nat) : Environment :=
  { env with fresh.placeholder := env.fresh.placeholder + taken }

variable {env later final : Environment}

namespace FreshUnused

/-- A placeholder that has not been taken yet is not bound. -/
theorem unbound
    (unused : env.FreshUnused)
    {id : PlaceholderId}
    (isFresh : env.fresh.placeholder ≤ id.number) :
    env.binding? id = none := by
  by_contra isBound
  obtain ⟨bound, found⟩ := Option.ne_none_iff_exists'.mp isBound
  exact absurd (unused.bindings found).1 (Nat.not_lt.mpr isFresh)

/-- Only placeholders that have not been taken yet get higher numbers. -/
theorem binding?_shift
    (unused : env.FreshUnused)
    (ahead : Nat)
    (id : PlaceholderId) :
    env.binding? (PlaceholderId.shift env.fresh.placeholder ahead id) =
      (env.binding? id).map (Ty.renumber (PlaceholderId.shift env.fresh.placeholder ahead)) := by
  rcases Nat.lt_or_ge id.number env.fresh.placeholder with isOlder | isFresh
  · rw [PlaceholderId.shift_of_lt isOlder]
    cases found : env.binding? id with
    | none => rfl
    | some bound => exact congrArg some ((unused.bindings found).2.renumber_shift ahead).symm
  · rw [PlaceholderId.shift_of_le isFresh, unused.unbound isFresh,
      unused.unbound (isFresh.trans (Nat.le_add_right _ _)), Option.map_none]

end FreshUnused

/-- Taking numbers keeps an environment followable. -/
theorem Followable.advance (followable : env.Followable) (taken : Nat) :
    (env.advance taken).Followable :=
  followable.of_run (.fresh taken 0 0)

/-- After more placeholders have been taken the same is known. -/
theorem renumbered_advance
    (followable : env.Followable)
    (unused : env.FreshUnused)
    (taken : Nat) :
    Renumbered (PlaceholderId.shift env.fresh.placeholder taken) env (env.advance taken) where
  followable := followable
  followable' := followable.advance taken
  declared := rfl
  definitions found := (unused.definitions found).renumber_shift taken
  snapshot :=
    { placeholders := unused.binding?_shift taken
      lengths := rfl
      generic := rfl
      inferred := rfl
      parameters := rfl }
  fresh :=
    { placeholders := fun ahead => by
        rw [PlaceholderId.shift_of_le (Nat.le_add_right _ _)]
        exact congrArg PlaceholderId.mk (Nat.add_right_comm _ _ _)
      lengths := rfl
      labels := rfl }
  context := rfl
  maxDepth := rfl

namespace Renumbered

/-- An environment knows the same as one that reads alike, under the same numbers. -/
theorem of_readsLike_self
    (followable : env.Followable)
    (shows : env.ReadsLike later)
    (consistent : later.frames.Consistent) :
    Renumbered (.refl PlaceholderId) env later := by
  have self : Renumbered (.refl PlaceholderId) env env :=
    { followable := followable
      followable' := followable
      declared := rfl
      definitions := fun {_ _ _ definition} _ => definition.renumber_refl
      snapshot :=
        { placeholders := fun id => by
            rw [funext Ty.renumber_refl]
            exact Option.map_id'.symm
          lengths := rfl
          generic := rfl
          inferred := rfl
          parameters := rfl }
      fresh := ⟨fun _ => rfl, rfl, rfl⟩
      context := rfl
      maxDepth := rfl }
  exact self.of_readsLike (.refl env) followable.consistent shows consistent

/-- Environments in which the same is known under the same numbers read alike. -/
theorem readsLike (alike : Renumbered (.refl PlaceholderId) env later) : env.ReadsLike later where
  declared := alike.declared
  snapshot := by
    ext1
    · funext id
      have same := alike.snapshot.placeholders id
      rw [funext Ty.renumber_refl] at same
      exact same.trans Option.map_id'
    · exact alike.snapshot.lengths
    · exact alike.snapshot.generic
    · exact alike.snapshot.inferred
    · exact alike.snapshot.parameters
  context := alike.context
  fresh := alike.fresh.eq
  maxDepth := alike.maxDepth

end Renumbered

/-! ## What calls take -/

/-- Apart from what is found out, only placeholders are taken. -/
structure TakesPlaceholders (env final : Environment) : Prop where
  context : final.context = env.context
  lengths : final.fresh.length = env.fresh.length
  labels : final.fresh.label = env.fresh.label

namespace TakesPlaceholders

theorem refl (env : Environment) : env.TakesPlaceholders env :=
  ⟨rfl, rfl, rfl⟩

theorem trans
    (first : env.TakesPlaceholders later)
    (second : later.TakesPlaceholders final) :
    env.TakesPlaceholders final where
  context := second.context.trans first.context
  lengths := second.lengths.trans first.lengths
  labels := second.labels.trans first.labels

/-- Taking placeholders is reflexive and transitive. -/
instance : IsPreorder Environment TakesPlaceholders where
  refl := refl
  trans _ _ _ := trans

/-- A step of unification takes no placeholders. -/
theorem traceUnify (event : UnifyEvent) (left right : Operand) (env : Environment) :
    env.TakesPlaceholders (env.traceUnify event left right) := by
  have shows := ReadsLike.traceUnify event left right env
  exact ⟨shows.context, congrArg Counters.length shows.fresh, congrArg Counters.label shows.fresh⟩

/-- Unification takes no placeholders. -/
theorem of_binds (step : Binds env final) : env.TakesPlaceholders final := by
  cases step with
  | note event left right => exact traceUnify event left right env
  | placeholder event left right =>
      obtain ⟨context, lengths, labels⟩ := traceUnify event left right env
      exact ⟨context, lengths, labels⟩
  | length event left right =>
      obtain ⟨context, lengths, labels⟩ := traceUnify event left right env
      exact ⟨context, lengths, labels⟩

/-- A call takes placeholders for results, and trials take no more than that. -/
theorem call : Call.Admits TakesPlaceholders where
  binds steps := by
    induction steps with
    | refl => exact refl _
    | tail _ step inductionHypothesis => exact inductionHypothesis.trans (of_binds step)
  fresh := ⟨rfl, rfl, rfl⟩
  transaction keep inside := by
    constructor
    · rw [context_finish]
      exact inside.context
    · rw [fresh_finish]
      exact inside.lengths
    · rw [fresh_finish]
      exact inside.labels

end TakesPlaceholders

/-! ## Trials -/

/-- Alone, from the frames as they are, the member accepts the arguments. -/
def Accepts (env : Environment) (args : List Ty) (member : Ty) : Prop :=
  ∃ ty final, call member args env = .ok ty final

/-- Alone, the member fails on the arguments and takes some placeholders before it does. -/
def Rejects (env : Environment) (args : List Ty) (member : Ty) (taken : Nat) : Prop :=
  ∃ cause final,
    call member args env = .error cause final ∧
      final.fresh.placeholder = env.fresh.placeholder + taken

/--
The first member that accepts the arguments alone, and how many placeholders those before it
take in all.
-/
inductive FirstAccepting (env : Environment) (args : List Ty) : List Ty → Nat → Ty → Prop where
  | here {member : Ty} {others : List Ty} :
      env.Accepts args member →
      FirstAccepting env args (member :: others) 0 member
  | later {member found : Ty} {others : List Ty} {count taken : Nat} :
      env.Rejects args member count →
      FirstAccepting env args others taken found →
      FirstAccepting env args (member :: others) (count + taken) found

/-- The first member that accepts the arguments is a member that accepts them. -/
theorem FirstAccepting.exists_accepts
    {args members : List Ty}
    {taken : Nat}
    {found : Ty}
    (first : env.FirstAccepting args members taken found) :
    ∃ member ∈ members, env.Accepts args member := by
  induction first with
  | here accepts => exact ⟨_, List.mem_cons_self, accepts⟩
  | later _ _ inductionHypothesis =>
      obtain ⟨member, isMember, accepts⟩ := inductionHypothesis
      exact ⟨member, List.mem_cons_of_mem _ isMember, accepts⟩

/-- A member that rejects the arguments does not accept them. -/
theorem Rejects.not_accepts
    {args : List Ty}
    {member : Ty}
    {taken : Nat}
    (rejects : env.Rejects args member taken) :
    ¬ env.Accepts args member := by
  rintro ⟨_, _, accepted⟩
  obtain ⟨_, _, rejected, _⟩ := rejects
  cases accepted.symm.trans rejected

/-- If the members are in canonical order, the first that accepts is the least that does. -/
theorem FirstAccepting.least
    {args members : List Ty}
    {taken : Nat}
    {found : Ty}
    (first : env.FirstAccepting args members taken found)
    (ascending : Ty.Ascending members)
    {other : Ty}
    (isMember : other ∈ members)
    (accepts : env.Accepts args other) :
    other = found ∨ found.compare other = .lt := by
  have : IsTrans Ty fun first second => first.compare second = .lt :=
    ⟨fun _ _ _ => Ty.compare_lt_trans⟩
  have ordered := List.isChain_iff_pairwise.mp ascending
  clear ascending
  induction first with
  | here _ =>
      rcases List.mem_cons.mp isMember with same | isLater
      · exact Or.inl same
      · exact Or.inr (List.rel_of_pairwise_cons ordered isLater)
  | later rejects _ inductionHypothesis =>
      rcases List.mem_cons.mp isMember with rfl | isLater
      · exact absurd accepts rejects.not_accepts
      · exact inductionHypothesis isLater ordered.of_cons

/-- A member comes to the answer alone, once the fresh numbers have moved on. -/
def SettledBy
    (env : Environment)
    (args : List Ty)
    (member : Ty)
    (taken : Nat)
    (ty : Ty)
    (final : Environment) : Prop :=
  ∃ alone,
    call member args (env.advance taken) = .ok ty alone ∧
      alone.ReadsLike final ∧ final.frames.below = alone.frames.below

variable {member : Ty} {args : List Ty}

/-- Higher numbers for fresh placeholders make no difference for a call. -/
theorem call_advance
    (followable : env.Followable)
    (unused : env.FreshUnused)
    (memberNumbered : member.NumberedBelow env.fresh.placeholder)
    (argsNumbered : ∀ arg ∈ args, arg.NumberedBelow env.fresh.placeholder)
    (taken : Nat) :
    Outcome.Renumbered (PlaceholderId.shift env.fresh.placeholder taken)
      (Ty.renumber (PlaceholderId.shift env.fresh.placeholder taken)) (call member args env)
      (call member args (env.advance taken)) := by
  have renumbers := call_renumbers (renumbered_advance followable unused taken) member args
  have sameArgs :
      args.map (Ty.renumber (PlaceholderId.shift env.fresh.placeholder taken)) = args.map id :=
    List.map_congr_left fun arg isArg => (argsNumbered arg isArg).renumber_shift taken
  rwa [memberNumbered.renumber_shift, sameArgs, List.map_id] at renumbers

/-- A call comes to the same in an environment that reads alike. -/
theorem call_of_readsLike
    (followable : env.Followable)
    {steps : Nat}
    (enough : Call.limit env member args ≤ steps)
    (shows : env.ReadsLike later)
    (consistent : later.frames.Consistent) :
    Outcome.Renumbered (.refl PlaceholderId) id (call member args env)
      (Call.within steps member args later) := by
  have renumbers := Call.within_renumbers steps member args
    (.of_readsLike_self followable shows consistent)
  have kept : Ty.renumber (Function.Embedding.refl PlaceholderId) = id :=
    funext Ty.renumber_refl
  obtain ⟨_, same⟩ := call_eq_within followable.consistent followable.acyclic member args
  rw [kept, List.map_id] at renumbers
  rwa [same steps enough]

/-- In a transaction after other trials, a member comes to what it comes to alone. -/
theorem trial
    (followable : env.Followable)
    (unused : env.FreshUnused)
    (memberNumbered : member.NumberedBelow env.fresh.placeholder)
    (argsNumbered : ∀ arg ∈ args, arg.NumberedBelow env.fresh.placeholder)
    {steps : Nat}
    (enough : Call.limit env member args ≤ steps)
    {taken : Nat}
    {current : Environment}
    (shows : (env.advance taken).ReadsLike current)
    (sameFrames : current.frames = env.frames) :
    (∃ ty inner,
      Call.within steps member args current.push = .ok ty inner ∧
        env.Accepts args member ∧ env.SettledBy args member taken ty (inner.finish true)) ∨
    ∃ cause inner count,
      Call.within steps member args current.push = .error cause inner ∧
        env.Rejects args member count ∧
          (env.advance (taken + count)).ReadsLike (inner.finish false) ∧
            (inner.finish false).frames = env.frames := by
  have answers := (call_eq_within followable.consistent followable.acyclic member args).1
  have shifted := call_advance followable unused memberNumbered argsNumbered taken
  have copied := call_of_readsLike (followable.advance taken) enough (shows.trans (.push current))
    (sameFrames ▸ followable.consistent).push
  have runs := Call.within_run steps member args current.push
  generalize isAlone : call member args env = alone,
    isAdvanced : call member args (env.advance taken) = advanced at answers shifted copied
  generalize isTried : Call.within steps member args current.push = tried at copied
  cases shifted with
  | exhausted => contradiction
  | ok alike =>
      cases copied with
      | ok alikeInner =>
          have restored := Restored.of_run (runs.of_eq_ok isTried)
          have restoredAlone := Restored.of_run ((call_run _ _ _).of_eq_ok isAdvanced)
          refine Or.inl ⟨_, _, rfl, ⟨_, _, isAlone⟩, _, isAdvanced, ?_, ?_⟩
          · exact alikeInner.readsLike.trans (.commit _)
          · rw [(restored.transaction true).below, sameFrames, restoredAlone.below]
            rfl
  | error alikeFresh sameContext =>
      cases copied with
      | error fresh context =>
          have restored := Restored.of_run (runs.of_eq_error isTried)
          have restoredAlone := Restored.of_run ((call_run _ _ _).of_eq_error isAlone)
          have takes := (call_obeys TakesPlaceholders.call _ _ _).of_eq_error isAdvanced
          obtain ⟨count, isCount⟩ := Nat.exists_eq_add_of_le restoredAlone.placeholders
          have outside := restored.transaction false
          refine Or.inr ⟨_, _, count, rfl, ⟨_, _, isAlone, isCount⟩, ?_, ?_⟩
          · exact
              { declared := outside.declared.trans shows.declared
                snapshot := restored.frames_of_failed ▸ shows.snapshot
                context := by rw [context_finish, context, takes.context]; rfl
                fresh := by
                  rw [fresh_finish, fresh.eq]
                  refine Counters.ext ?_ takes.lengths takes.labels
                  rw [alikeFresh.placeholder_of_shift restoredAlone.placeholders, isCount]
                  exact Nat.add_right_comm _ _ _ |>.trans (Nat.add_assoc _ _ _)
                maxDepth := by rw [outside.options, shows.maxDepth]; rfl }
          · rw [restored.frames_of_failed, sameFrames]

end Environment

open ShaderTyping.Environment (Followable FreshUnused FirstAccepting SettledBy Rejects)

namespace Call

/-- The first member is tried in a transaction; if it fails, the others are tried. -/
theorem firstAccepting_cons
    (recur : Ty → List Ty → Action UnifyError Ty)
    (arg : Ty)
    (rest : List Ty)
    (member : Ty)
    (others : List Ty)
    {env noted : Environment}
    (isNoted :
      env.traceUnify (.overload (rest.length + 1)) (.type member) (.type arg) = noted) :
    firstAccepting recur arg rest (member :: others) env =
      match recur member (arg :: rest) noted.push with
      | .ok ty inner => .ok (some ty) (inner.finish true)
      | .error _ inner => firstAccepting recur arg rest others (inner.finish false)
      | .exhausted => .exhausted := by
  subst isNoted
  rw [firstAccepting]
  change Action.bind (Action.attempt (Action.transaction _)) _ _ = _
  unfold Action.bind Action.attempt Action.transaction
  cases recur member (arg :: rest) _ <;> rfl

/-- A call of an overload set ends as the trials of its members do. -/
theorem step_overloaded
    {recur : Ty → List Ty → Action UnifyError Ty}
    {env final : Environment}
    {callee arg : Ty}
    {rest members : List Ty}
    (overloaded : env.head callee = .union members)
    {accepted : Option Ty}
    (tried : firstAccepting recur arg rest members env = .ok accepted final) :
    match accepted with
    | some ty => step recur callee (arg :: rest) env = .ok ty final
    | none => ∃ cause, step recur callee (arg :: rest) env = .error cause final := by
  rw [step, Action.environment_bind, overloaded]
  cases accepted with
  | some ty => exact Action.bind_eq_ok.mpr ⟨some ty, final, tried, rfl⟩
  | none => exact ⟨_, Action.bind_eq_error.mpr (Or.inr ⟨none, final, tried, rfl⟩)⟩

/-- The members that are tried one after the other come to what they come to alone. -/
theorem firstAccepting_tries
    {env : Environment}
    (followable : env.Followable)
    (unused : env.FreshUnused)
    {arg : Ty}
    {rest members : List Ty}
    (membersNumbered : ∀ member ∈ members, member.NumberedBelow env.fresh.placeholder)
    (argsNumbered : ∀ ty ∈ arg :: rest, ty.NumberedBelow env.fresh.placeholder)
    {steps : Nat}
    (enough : ∀ member ∈ members, limit env member (arg :: rest) ≤ steps)
    {before : Nat}
    {current : Environment}
    (shows : (env.advance before).ReadsLike current)
    (sameFrames : current.frames = env.frames) :
    (∃ ty member taken final,
      firstAccepting (within steps) arg rest members current = .ok (some ty) final ∧
        env.FirstAccepting (arg :: rest) members taken member ∧
          env.SettledBy (arg :: rest) member (before + taken) ty final) ∨
    ∃ final,
      firstAccepting (within steps) arg rest members current = .ok none final ∧
        (∀ member ∈ members, ∃ taken, env.Rejects (arg :: rest) member taken) ∧
          final.frames = env.frames := by
  induction members generalizing before current with
  | nil => exact Or.inr ⟨current, rfl, fun _ isMember => absurd isMember List.not_mem_nil, sameFrames⟩
  | cons member others inductionHypothesis =>
      obtain ⟨memberNumbered, othersNumbered⟩ := List.forall_mem_cons.mp membersNumbered
      obtain ⟨enoughSteps, enoughOthers⟩ := List.forall_mem_cons.mp enough
      obtain ⟨noted, isNoted⟩ :
          ∃ noted,
            current.traceUnify (.overload (rest.length + 1)) (.type member) (.type arg) = noted :=
        ⟨_, rfl⟩
      have notedShows : (env.advance before).ReadsLike noted :=
        isNoted ▸ shows.trans (.traceUnify _ _ _ current)
      have notedFrames : noted.frames = env.frames := by
        rw [← isNoted, Environment.frames_traceUnify, sameFrames]
      rw [firstAccepting_cons _ arg rest member others isNoted]
      rcases Environment.trial followable unused memberNumbered argsNumbered enoughSteps
        notedShows notedFrames with
        ⟨ty, inner, tried, accepts, settled⟩ | ⟨cause, inner, count, tried, rejects, reads, frames⟩
      · rw [tried]
        exact Or.inl ⟨ty, member, 0, _, rfl, .here accepts, settled⟩
      · rw [tried]
        rcases inductionHypothesis othersNumbered enoughOthers reads frames with
          ⟨ty, found, taken, final, ended, first, settled⟩ | ⟨final, ended, allReject, left⟩
        · refine Or.inl ⟨ty, found, count + taken, final, ended, .later rejects first, ?_⟩
          rwa [← Nat.add_assoc]
        · refine Or.inr ⟨final, ended, ?_, left⟩
          exact List.forall_mem_cons.mpr ⟨⟨count, rejects⟩, allReject⟩

end Call

namespace Environment

variable {env : Environment}

/-- The head of a type with older placeholders has older placeholders only. -/
theorem FreshUnused.head
    (unused : env.FreshUnused)
    {ty : Ty}
    (numbered : ty.NumberedBelow env.fresh.placeholder) :
    (env.head ty).NumberedBelow env.fresh.placeholder := by
  refine head_induction (motive := Ty.NumberedBelow env.fresh.placeholder)
    (fun {leaf next} _ stands => ?_) numbered
  cases leaf with
  | placeholder scope id => exact (unused.bindings stands).2
  | named scope name =>
      obtain ⟨⟨key, definition⟩, found, rfl⟩ := Option.map_eq_some_iff.mp stands
      exact unused.definitions found
  | _ => cases stands

end Environment

/-- The members of an overload set have no higher numbers than the set. -/
theorem Ty.NumberedBelow.member
    {bound : Nat}
    {members : List Ty}
    (numbered : (Ty.union members).NumberedBelow bound)
    {member : Ty}
    (isMember : member ∈ members) :
    member.NumberedBelow bound := by
  intro id isMentioned
  obtain ⟨scope, isLeaf⟩ := mentions_iff_mem_leaves.mp isMentioned
  refine numbered id (mentions_iff_mem_leaves.mpr ⟨scope, ?_⟩)
  rw [leaves_union]
  exact List.mem_flatMap_of_mem isMember isLeaf

/--
A call of an overload set takes the first member that accepts the arguments.

The members are tried in the order in which the set lists them.
-/
theorem call_takes_first_accepting
    {env : Environment}
    (reachable : env.Reachable)
    (acyclic : env.Acyclic)
    (unused : env.FreshUnused)
    {callee arg : Ty}
    {rest members : List Ty}
    (numbered : ∀ ty ∈ callee :: arg :: rest, ty.NumberedBelow env.fresh.placeholder)
    (overloaded : env.head callee = .union members) :
    call callee (arg :: rest) env ≠ .exhausted ∧
      ((∃ ty final, call callee (arg :: rest) env = .ok ty final) ↔
        ∃ member ∈ members, env.Accepts (arg :: rest) member) ∧
      (∀ ty final, call callee (arg :: rest) env = .ok ty final →
        ∃ member taken,
          env.FirstAccepting (arg :: rest) members taken member ∧
            (Ty.Ascending members →
              ∀ other ∈ members, env.Accepts (arg :: rest) other →
                other = member ∨ member.compare other = .lt) ∧
            env.SettledBy (arg :: rest) member taken ty final) ∧
      ∀ cause final, call callee (arg :: rest) env = .error cause final →
        final.frames = env.frames := by
  have followable : env.Followable := ⟨reachable.consistent, acyclic⟩
  obtain ⟨calleeNumbered, argsNumbered⟩ := List.forall_mem_cons.mp numbered
  have membersNumbered : ∀ member ∈ members, member.NumberedBelow env.fresh.placeholder :=
    fun member isMember => (overloaded ▸ unused.head calleeNumbered).member isMember
  obtain ⟨answers, same⟩ := call_eq_within followable.consistent acyclic callee (arg :: rest)
  -- Steps that are enough for the call and for each member alone.
  let limits := members.map fun member => Call.limit env member (arg :: rest)
  let steps := Call.limit env callee (arg :: rest) + limits.sum
  have stepped :
      call callee (arg :: rest) env = Call.step (Call.within steps) callee (arg :: rest) env :=
    same (steps + 1) ((Nat.le_add_right _ _).trans (Nat.le_succ _))
  have enough : ∀ member ∈ members, Call.limit env member (arg :: rest) ≤ steps := by
    intro member isMember
    have isListed : Call.limit env member (arg :: rest) ∈ limits := List.mem_map_of_mem isMember
    exact (List.le_sum_of_mem isListed).trans (Nat.le_add_left _ _)
  have start : (env.advance 0).ReadsLike env := .refl env
  refine ⟨answers, ?_⟩
  rcases Call.firstAccepting_tries followable unused membersNumbered argsNumbered enough start
    rfl with
    ⟨ty, member, taken, final, tried, first, settled⟩ | ⟨final, tried, allReject, left⟩
  · have accepted : call callee (arg :: rest) env = .ok ty final :=
      stepped.trans (Call.step_overloaded overloaded tried)
    rw [Nat.zero_add] at settled
    refine ⟨iff_of_true ⟨ty, final, accepted⟩ first.exists_accepts, ?_, ?_⟩
    · intro otherTy otherFinal ended
      cases accepted.symm.trans ended
      exact ⟨member, taken, first, fun ascending _ isMember => first.least ascending isMember,
        settled⟩
    · intro cause otherFinal failed
      cases accepted.symm.trans failed
  · obtain ⟨cause, refused⟩ := Call.step_overloaded overloaded tried
    have failed : call callee (arg :: rest) env = .error cause final := stepped.trans refused
    refine ⟨iff_of_false ?_ ?_, ?_, ?_⟩
    · rintro ⟨_, _, ended⟩
      cases failed.symm.trans ended
    · rintro ⟨member, isMember, accepts⟩
      obtain ⟨taken, rejects⟩ := allReject member isMember
      exact rejects.not_accepts accepts
    · intro ty otherFinal ended
      cases failed.symm.trans ended
    · intro otherCause otherFinal ended
      cases failed.symm.trans ended
      exact left

namespace Trials

/-- A placeholder with a number. -/
def numbered (number : Nat) : Ty :=
  .placeholder .native ⟨number⟩

/-- The first member would have to contain itself to take two arguments. -/
def members : List Ty :=
  [.function (numbered 0) (numbered 0), .function (numbered 0) (numbered 1)]

/-- Two arguments of one type that is not known yet. -/
def args : List Ty :=
  [numbered 0, numbered 0]

end Trials

/-- A member takes a fresh placeholder before it fails, so the next one gets a higher number. -/
theorem call_takes_first_accepting_after_failed_trial :
    ∃ env : Environment,
      (env.Reachable ∧ env.Acyclic ∧ env.FreshUnused) ∧
        (∀ ty ∈ Ty.union Trials.members :: Trials.args,
          ty.NumberedBelow env.fresh.placeholder) ∧
        env.head (.union Trials.members) = .union Trials.members ∧
        env.fresh.placeholder = 2 ∧
        ∃ final member taken,
          call (.union Trials.members) Trials.args env = .ok (Trials.numbered 3) final ∧
            env.FirstAccepting Trials.args Trials.members taken member ∧
            env.SettledBy Trials.args member taken (Trials.numbered 3) final := by
  let start := Environment.empty Options.standard
  let env := (Environment.freshPlaceholder .native (Environment.freshPlaceholder .native start).2).2
  have reachable : env.Reachable :=
    ⟨Options.standard, [.freshPlaceholder .native, .freshPlaceholder .native], rfl⟩
  have unbound (id : PlaceholderId) : env.binding? id = none := FrameStack.placeholder?_empty id
  have acyclic : env.Acyclic :=
    Environment.acyclic_of_no_references unbound fun _ isDeclared =>
      absurd isDeclared List.not_mem_nil
  have unused : env.FreshUnused := by
    refine ⟨fun {id bound} found => ?_, fun {scope name key definition} found => ?_⟩
    · cases (unbound id).symm.trans found
    · exact absurd (Environment.mem_aliasKeys found) List.not_mem_nil
  have numbered : ∀ ty ∈ Ty.union Trials.members :: Trials.args,
      ty.NumberedBelow env.fresh.placeholder := by
    change ∀ ty ∈ _, Ty.NumberedBelow 2 ty
    simp [Trials.members, Trials.args, Trials.numbered, Ty.NumberedBelow, Ty.Mentions, Ty.vars,
      Ty.leafVars]
  have computed :
      (call (.union Trials.members) Trials.args env).value? = some (Trials.numbered 3) := by
    decide +kernel
  obtain ⟨final, ended⟩ := Outcome.eq_ok_of_value? computed
  obtain ⟨_, _, settled, _⟩ :=
    call_takes_first_accepting reachable acyclic unused numbered rfl
  obtain ⟨member, taken, first, _, settled⟩ := settled _ _ ended
  exact ⟨env, ⟨reachable, acyclic, unused⟩, numbered, rfl, rfl, final, member, taken, ended, first,
    settled⟩

end ShaderTyping
