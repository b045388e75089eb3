import Mathlib.Tactic.Ring
import ShaderTyping.Proofs.Descent
import ShaderTyping.Proofs.Meet

namespace ShaderTyping

/-!
# The nesting of unification problems

Unification is a recursion with a bound on the nesting of problems.  A problem that
is nested inside another one is smaller in every measure that falls along the bindings
of a later environment.  So a unification that gives no answer leads to an environment
all of whose measures exceed the bound (`Unification.within_settles`), and where
nothing leads back to itself there is no such environment.  A larger bound gives the
same outcome, so the recursion without a bound comes to an end as well.
-/

open Environment (Binds)

namespace Environment

/-- A later environment to which unification can come while it meets listed types only. -/
structure Proceeds (pool : List Ty) (env later : Environment) : Prop where
  grows : env.Grows later
  acyclic : env.Acyclic → later.Acyclic
  confined : later.Confined pool

namespace Proceeds

variable {env middle later : Environment} {pool : List Ty}

theorem refl (confined : env.Confined pool) : env.Proceeds pool env :=
  ⟨.refl env, fun acyclic => acyclic, confined⟩

theorem trans (first : env.Proceeds pool middle) (second : middle.Proceeds pool later) :
    env.Proceeds pool later :=
  ⟨first.grows.trans second.grows, fun acyclic => second.acyclic (first.acyclic acyclic),
    second.confined⟩

/-- A bind proceeds if what it binds was bound before or is listed. -/
theorem of_binds
    (confined : env.Confined pool)
    (step : Binds env later)
    (bindings :
      ∀ {id ty}, later.binding? id = some ty → env.binding? id = some ty ∨ ty ∈ pool) :
    env.Proceeds pool later where
  grows := .of_binds confined.consistent step
  acyclic := step.acyclic confined.consistent
  confined :=
    confined.of_bindings (step.consistent confined.consistent)
      (Grows.of_binds confined.consistent step).declared bindings

/-- Writing down a step proceeds: it binds nothing. -/
theorem note
    (confined : env.Confined pool)
    (event : UnifyEvent)
    (left right : Operand) :
    env.Proceeds pool (env.traceUnify event left right) := by
  refine of_binds confined (.note event left right) fun found => Or.inl ?_
  rwa [binding?, frames_traceUnify] at found

end Proceeds

end Environment

namespace Action

/-- Unless it gives no answer, the second action ends as the first one does. -/
def Extends (second first : Action ε α) : Prop :=
  ∀ env, first env ≠ .exhausted → second env = first env

namespace Extends

theorem refl (action : Action ε α) : Extends action action :=
  fun _ _ => rfl

theorem exhausted (action : Action ε α) : Extends action Action.exhausted :=
  fun _ ended => absurd rfl ended

/-- Two actions in a row extend two others if both do. -/
theorem bind
    {first first' : Action ε α}
    {next next' : α → Action ε β}
    (firstExtends : Extends first' first)
    (nextExtends : ∀ value, Extends (next' value) (next value)) :
    Extends (first' >>= next') (first >>= next) := by
  intro env ended
  change Action.bind first' next' env = Action.bind first next env
  change Action.bind first next env ≠ .exhausted at ended
  unfold Action.bind at ended ⊢
  have answered : first env ≠ .exhausted := by
    intro isExhausted
    rw [isExhausted] at ended
    exact ended rfl
  rw [firstExtends env answered]
  cases outcome : first env with
  | ok value middle =>
      rw [outcome] at ended
      exact nextExtends value middle ended
  | error cause middle => rfl
  | exhausted => rfl

/-- Going through a list extends if each item does. -/
theorem mapM
    {items : List α}
    {action action' : α → Action ε β}
    (each : ∀ item, Extends (action' item) (action item)) :
    Extends (items.mapM action') (items.mapM action) := by
  induction items with
  | nil => exact refl _
  | cons item rest inductionHypothesis =>
      rw [List.mapM_cons, List.mapM_cons]
      exact bind (each item) fun _ => bind inductionHypothesis fun _ => refl _

/-- An attempt extends another one if the action that is attempted does. -/
theorem attempt
    {action action' : Action ε α}
    (isExtended : Extends action' action) :
    Extends (Action.attempt action' : Action ε' (Except ε α)) (Action.attempt action) := by
  intro env ended
  unfold Action.attempt at ended ⊢
  rw [isExtended env fun isExhausted => ended (by rw [isExhausted])]

/-- A transaction extends another one if what happens inside does. -/
theorem transaction
    {action action' : Action ε α}
    (isExtended : Extends action' action) :
    Extends action'.transaction action.transaction := by
  intro env ended
  unfold Action.transaction at ended ⊢
  rw [isExtended env.push fun isExhausted => ended (by rw [isExhausted])]

end Extends

/--
The action meets listed types only; where it gives no answer, a later environment
shows why.
-/
structure Settles
    (pool : List Ty)
    (action : Action ε α)
    (env : Environment)
    (stuck : Environment → Prop) : Prop where
  ends : ∀ {final}, (action env).final? = some final → env.Proceeds pool final
  stops : action env = .exhausted → ∃ later, env.Proceeds pool later ∧ stuck later

namespace Settles

variable {pool : List Ty} {env : Environment} {stuck : Environment → Prop}

theorem pure (confined : env.Confined pool) (value : α) :
    Settles pool (Pure.pure value : Action ε α) env stuck where
  ends ended := by
    cases ended
    exact .refl confined
  stops ended := by cases ended

theorem fail (confined : env.Confined pool) (cause : ε) :
    Settles pool (Action.fail cause : Action ε α) env stuck where
  ends ended := by
    cases ended
    exact .refl confined
  stops ended := by cases ended

/-- An action that gives no answer settles where it starts, if that is stuck. -/
theorem exhausted (confined : env.Confined pool) (isStuck : stuck env) :
    Settles pool (Action.exhausted : Action ε α) env stuck where
  ends ended := by cases ended
  stops _ := ⟨env, .refl confined, isStuck⟩

/-- A change that proceeds settles. -/
theorem update
    {change : Environment → Environment}
    (proceeds : env.Proceeds pool (change env)) :
    Settles pool (Action.update change : Action ε Unit) env stuck where
  ends ended := by
    cases ended
    exact proceeds
  stops ended := by cases ended

/-- Two actions in a row settle if both do, the second where the first one ends. -/
theorem bind
    {first : Action ε α}
    {next : α → Action ε β}
    (firstSettles : Settles pool first env stuck)
    (nextSettles :
      ∀ {value middle},
        first env = .ok value middle →
        env.Proceeds pool middle →
        Settles pool (next value) middle stuck) :
    Settles pool (first >>= next) env stuck := by
  obtain ⟨ends, stops⟩ := firstSettles
  cases outcome : first env with
  | ok value middle =>
      have proceeds := ends (by rw [outcome]; rfl)
      have rest := nextSettles outcome proceeds
      have same : (first >>= next) env = next value middle := by
        change Action.bind first next env = _
        rw [Action.bind, outcome]
      refine ⟨fun ended => ?_, fun ended => ?_⟩
      · rw [same] at ended
        exact proceeds.trans (rest.ends ended)
      · rw [same] at ended
        obtain ⟨later, laterProceeds, isStuck⟩ := rest.stops ended
        exact ⟨later, proceeds.trans laterProceeds, isStuck⟩
  | error cause middle =>
      have same : (first >>= next) env = .error cause middle := by
        change Action.bind first next env = _
        rw [Action.bind, outcome]
      refine ⟨fun ended => ?_, fun ended => ?_⟩
      · rw [same] at ended
        exact ends (by rw [outcome]; exact ended)
      · rw [same] at ended
        contradiction
  | exhausted =>
      have same : (first >>= next) env = .exhausted := by
        change Action.bind first next env = _
        rw [Action.bind, outcome]
      refine ⟨fun ended => ?_, fun _ => stops outcome⟩
      rw [same] at ended
      contradiction

/-- After reading the environment an action goes on with the same environment. -/
theorem bind_environment
    {next : Environment → Action ε α}
    (settles : Settles pool (next env) env stuck) :
    Settles pool (Action.environment >>= next) env stuck :=
  ⟨settles.ends, settles.stops⟩

/-- An alternative settles if both parts do; only the second part can get stuck. -/
theorem orElse
    {first second : Action ε α}
    {firstStuck : Environment → Prop}
    (firstSettles : Settles pool first env firstStuck)
    (secondSettles : Settles pool second env stuck) :
    Settles pool (first.orElse second) env stuck := by
  have ends := @firstSettles.ends
  cases outcome : first env with
  | ok value middle =>
      have same : first.orElse second env = .ok value middle := by
        rw [Action.orElse, outcome]
      rw [outcome] at ends
      refine ⟨fun ended => ends (by rwa [same] at ended), fun ended => ?_⟩
      rw [same] at ended
      contradiction
  | error cause middle =>
      have same : first.orElse second env = .error cause middle := by
        rw [Action.orElse, outcome]
      rw [outcome] at ends
      refine ⟨fun ended => ends (by rwa [same] at ended), fun ended => ?_⟩
      rw [same] at ended
      contradiction
  | exhausted =>
      have same : first.orElse second env = second env := by
        rw [Action.orElse, outcome]
      exact ⟨fun ended => secondSettles.ends (by rwa [same] at ended),
        fun ended => secondSettles.stops (by rwa [same] at ended)⟩

/-- Going through a list settles if each item does wherever unification may have come to. -/
theorem mapM
    {items : List α}
    {action : α → Action ε β}
    (confined : env.Confined pool)
    (each :
      ∀ item ∈ items, ∀ {middle},
        env.Proceeds pool middle → Settles pool (action item) middle stuck) :
    Settles pool (items.mapM action) env stuck := by
  induction items generalizing env with
  | nil =>
      rw [List.mapM_nil]
      exact pure confined _
  | cons item rest inductionHypothesis =>
      rw [List.mapM_cons]
      refine bind (each item List.mem_cons_self (.refl confined)) fun _ first => ?_
      refine bind ?_ fun _ second => pure second.confined _
      refine inductionHypothesis first.confined fun other member middle later => ?_
      exact each other (List.mem_cons_of_mem _ member) (first.trans later)

end Settles

end Action

namespace Unification

open ShaderTyping.Action (Settles Extends)

variable {pool : List Ty} {env : Environment} {stuck : Environment → Prop}

/-! ## The nesting of unification problems -/

/-- The nesting that a measure allows: the sides change places at most before every step. -/
def nesting (measure : Ty → Nat) (left right : Ty) : Nat :=
  2 * (measure left + measure right) +
    if right.isPlaceholder && !left.isPlaceholder then 1 else 0

/-- Every measure that falls along the environment allows at least the given nesting. -/
def Stuck (pool : List Ty) (steps : Nat) (left right : Ty) (env : Environment) : Prop :=
  ∀ measure, env.Descends pool measure → steps ≤ nesting measure left right

/-- A nested problem that measures less is stuck only if the problem around it is. -/
theorem settles_of_smaller
    {action : Action ε α}
    {steps : Nat}
    {left right left' right' : Ty}
    (settles : Settles pool action env (Stuck pool steps left' right'))
    (falls :
      ∀ {measure},
        env.Descends pool measure →
        measure left' + measure right' < measure left + measure right) :
    Settles pool action env (Stuck pool (steps + 1) left right) := by
  refine ⟨settles.ends, fun ended => ?_⟩
  obtain ⟨later, proceeds, isStuck⟩ := settles.stops ended
  refine ⟨later, proceeds, fun measure descends => ?_⟩
  have isLess := falls (descends.of_grows proceeds.grows)
  have enough := isStuck measure descends
  unfold nesting at enough ⊢
  split at enough <;> omega

/-- Changing places costs one level of nesting and is not done twice in a row. -/
theorem settles_of_swapped
    {action : Action ε α}
    {steps : Nat}
    {left : Ty}
    {scope : ScopeId}
    {id : PlaceholderId}
    (settles : Settles pool action env (Stuck pool steps (.placeholder scope id) left))
    (isOther : left.isPlaceholder = false) :
    Settles pool action env (Stuck pool (steps + 1) left (.placeholder scope id)) := by
  refine ⟨settles.ends, fun ended => ?_⟩
  obtain ⟨later, proceeds, isStuck⟩ := settles.stops ended
  refine ⟨later, proceeds, fun measure descends => ?_⟩
  have enough := isStuck measure descends
  have isVar : (Ty.placeholder scope id).isPlaceholder = true := rfl
  simp only [nesting, isOther, isVar, Bool.false_and, Bool.false_eq_true, if_false] at enough
  simp only [nesting, isOther, isVar, Bool.not_false, Bool.and_true, if_true]
  omega

/-- Writing down a step of unification settles. -/
theorem note_settles
    (confined : env.Confined pool)
    (event : UnifyEvent)
    (left right : Ty) :
    Settles pool (note event left right : Action ε Unit) env stuck :=
  .update (.note confined event _ _)

/-- Reporting a mismatch settles. -/
theorem mismatch_settles
    (confined : env.Confined pool)
    (left right : Ty) :
    Settles pool (mismatch left right : Action UnifyError α) env stuck :=
  .bind (note_settles confined _ _ _) fun _ noted =>
    .bind_environment (.fail noted.confined _)

/-- What a reference stands for is a smaller listed type, unless looking it up fails. -/
theorem definition_settles
    (confined : env.Confined pool)
    {scope : ScopeId}
    {name : String}
    (listed : .named scope name ∈ pool)
    (other : Ty)
    {next : Ty → Action UnifyError Ty}
    (nextSettles :
      ∀ {found},
        found ∈ pool →
        (∀ {measure}, env.Descends pool measure → measure found < measure (.named scope name)) →
        Settles pool (next found) env stuck) :
    Settles pool (definition (.named scope name) other >>= next) env stuck := by
  rw [definition, bind_assoc]
  refine .bind_environment ?_
  split
  · split
    · exact .bind (.fail confined _) fun ended => by cases ended
    · exact .bind (mismatch_settles confined _ _) fun ended => by cases ended
  · rename_i notNamed
    refine nextSettles (confined.head listed) fun descends => ?_
    exact (descends.head confined listed).resolve_left (notNamed scope name)

/-- Binding a placeholder to a listed type settles, since the occurs check always ends. -/
theorem bind_settles
    (confined : env.Confined pool)
    {id : PlaceholderId}
    (unbound : env.binding? id = none)
    (scope : ScopeId)
    {other : Ty}
    (listed : other ∈ pool) :
    Settles pool (bind scope id other) env stuck := by
  refine .bind_environment ?_
  dsimp only
  split
  · exact .pure confined _
  · cases notFound : env.occurs id (env.follow other) with
    | true =>
        rw [if_pos rfl]
        exact .bind (note_settles confined _ _ _) fun _ noted => .fail noted.confined _
    | false =>
        rw [if_neg Bool.false_ne_true]
        refine ⟨fun ended => ?_, fun ended => by cases ended⟩
        cases ended
        refine .of_binds confined (.placeholder _ _ _ unbound notFound)
          fun {other bound} found => ?_
        change FrameStack.placeholder? (FrameStack.bindPlaceholder id _ _) other = _ at found
        rw [FrameStack.placeholder?_bindPlaceholder, Environment.frames_traceUnify] at found
        split at found
        · cases found
          exact Or.inr (confined.follow listed)
        · exact Or.inl found

end Unification

open ShaderTyping.Action (Settles Extends)

/-- Unification of lengths settles. -/
theorem unifyLength_settles
    {pool : List Ty}
    {env : Environment}
    {stuck : Environment → Prop}
    (confined : env.Confined pool)
    (left right : Length) :
    Settles pool (unifyLength left right) env stuck := by
  have bound {id : LengthId} {first second : Length} (event : UnifyEvent)
      (noteLeft noteRight : Operand)
      (isVar : env.resolveLength first = .var id)
      (different : env.resolveLength second ≠ .var id) :
      env.Proceeds pool
        ((env.traceUnify event noteLeft noteRight).bindLength id (env.resolveLength second)) := by
    refine .of_binds confined (.length _ _ _ isVar different) fun {other _} found => Or.inl ?_
    rw [Environment.binding?, Environment.bindLength, FrameStack.bindLength,
      FrameStack.placeholder?, FrameStack.read_write_of_eq rfl,
      Environment.frames_traceUnify] at found
    exact found
  refine .bind_environment ?_
  dsimp only
  split
  · exact .pure confined _
  · rename_i different
    split
    · rename_i id isVar
      rw [isVar] at different
      refine ⟨fun ended => ?_, fun ended => by cases ended⟩
      cases ended
      exact bound _ _ _ isVar (Ne.symm different)
    · rename_i id isVar _
      rw [isVar] at different
      refine ⟨fun ended => ?_, fun ended => by cases ended⟩
      cases ended
      exact bound _ _ _ isVar different
    · exact .fail confined _

namespace Unification

variable {pool : List Ty} {env : Environment} {recur : Ty → Ty → Action UnifyError Ty}

/-- Where a problem about listed types gives no answer, it is stuck with the given nesting. -/
def Limited (pool : List Ty) (steps : Nat) (recur : Ty → Ty → Action UnifyError Ty) : Prop :=
  ∀ {env : Environment} {left right : Ty},
    env.Confined pool →
    left ∈ pool →
    right ∈ pool →
    Settles pool (recur left right) env (Stuck pool steps left right)

/-- Parts of two types are a smaller problem than the types. -/
theorem children_settle
    {steps : Nat}
    (limited : Limited pool steps recur)
    (confined : env.Confined pool)
    {left right part part' : Ty}
    (leftListed : left ∈ pool)
    (rightListed : right ∈ pool)
    (inside : part ∈ left.children)
    (inside' : part' ∈ right.children) :
    Settles pool (recur part part') env (Stuck pool (steps + 1) left right) := by
  have settles :=
    limited confined (confined.children leftListed inside) (confined.children rightListed inside')
  refine settles_of_smaller settles fun descends => ?_
  exact Nat.add_lt_add (descends.children leftListed inside)
    (descends.children rightListed inside')

/-- Fields that structs share are smaller than the structs. -/
theorem meet_settles
    {steps : Nat}
    (limited : Limited pool steps recur)
    (confined : env.Confined pool)
    {left right : List (String × Ty)}
    (leftListed : .struct left ∈ pool)
    (rightListed : .struct right ∈ pool) :
    Settles pool (meet recur left right) env
      (Stuck pool (steps + 1) (.struct left) (.struct right)) := by
  unfold meet
  split
  · exact .bind (note_settles confined _ _ _) fun _ noted =>
      .bind_environment (.fail noted.confined _)
  · refine .bind (note_settles confined _ _ _) fun _ noted => ?_
    refine .bind (.mapM noted.confined ?_) fun _ met => .pure met.confined _
    rintro ⟨label, first, second⟩ isShared middle proceeds
    obtain ⟨inLeft, found⟩ := Ty.mem_sharedFields.mp isShared
    have firstInside : first ∈ (Ty.struct left).children := List.mem_map.mpr ⟨_, inLeft, rfl⟩
    have secondInside : second ∈ (Ty.struct right).children :=
      List.mem_map.mpr ⟨_, mem_of_lookup found, rfl⟩
    exact .bind
      (children_settle limited proceeds.confined leftListed rightListed firstInside secondInside)
      fun _ met => .pure met.confined _

/-- One step of unification allows one more level of nesting. -/
theorem step_settles
    {steps : Nat}
    (limited : Limited pool steps recur) :
    Limited pool (steps + 1) (step recur) := by
  intro env left right confined leftListed rightListed
  unfold step
  split
  · exact .bind (note_settles confined _ _ _) fun _ noted => .pure noted.confined _
  split
  case h_1 scope id _ =>
    refine .bind_environment ?_
    split
    · rename_i bound isBound
      have listed := confined.bindings isBound
      refine settles_of_smaller (limited confined listed rightListed) fun descends => ?_
      have falls := descends.standsFor? leftListed
        (show env.standsFor? (.placeholder scope id) = some bound from isBound)
      omega
    · rename_i unbound
      exact bind_settles confined unbound scope rightListed
  case h_2 scope id notPlaceholder _ =>
    refine settles_of_swapped (limited confined rightListed leftListed) ?_
    cases left with
    | placeholder scope id => exact absurd rfl (notPlaceholder scope id)
    | _ => rfl
  case h_3 =>
    refine definition_settles confined leftListed _ fun {found} listed isLess => ?_
    refine .bind (note_settles confined _ _ _) fun _ noted => ?_
    refine settles_of_smaller (limited noted.confined listed rightListed) fun descends => ?_
    exact Nat.add_lt_add_right (isLess (descends.of_grows noted.grows)) _
  case h_4 =>
    refine definition_settles confined rightListed _ fun {found} listed isLess => ?_
    refine .bind (note_settles confined _ _ _) fun _ noted => ?_
    refine settles_of_smaller (limited noted.confined leftListed listed) fun descends => ?_
    exact Nat.add_lt_add_left (isLess (descends.of_grows noted.grows)) _
  case h_5 component length component' length' _ =>
    have inside : component ∈ (Ty.array component length).children := List.mem_singleton_self _
    have inside' : component' ∈ (Ty.array component' length').children :=
      List.mem_singleton_self _
    refine .bind (note_settles confined _ _ _) fun _ noted => ?_
    refine .bind (children_settle limited noted.confined leftListed rightListed inside inside')
      fun _ met => ?_
    exact .bind (unifyLength_settles met.confined _ _) fun _ done => .pure done.confined _
  case h_6 =>
    exact meet_settles limited confined leftListed rightListed
  case h_7 param result param' result' _ =>
    have paramInside : param ∈ (Ty.function param result).children := List.mem_cons_self
    have paramInside' : param' ∈ (Ty.function param' result').children := List.mem_cons_self
    have resultInside : result ∈ (Ty.function param result).children :=
      List.mem_cons_of_mem _ (List.mem_singleton_self _)
    have resultInside' : result' ∈ (Ty.function param' result').children :=
      List.mem_cons_of_mem _ (List.mem_singleton_self _)
    refine .bind (note_settles confined _ _ _) fun _ noted => ?_
    refine .bind
      (children_settle limited noted.confined leftListed rightListed paramInside paramInside')
      fun _ met => ?_
    exact .bind
      (children_settle limited met.confined leftListed rightListed resultInside resultInside')
      fun _ done => .pure done.confined _
  case h_8 =>
    exact .bind (note_settles confined _ _ _) fun _ noted => .pure noted.confined _
  case h_9 =>
    exact .bind (note_settles confined _ _ _) fun _ noted => .pure noted.confined _
  case h_10 =>
    exact mismatch_settles confined _ _

/-- Where unification in some steps gives no answer, it is stuck with that nesting. -/
theorem within_settles (steps : Nat) : Limited pool steps (within steps) := by
  induction steps with
  | zero =>
      intro env left right confined _ _
      exact .exhausted confined fun _ _ => Nat.zero_le _
  | succ steps inductionHypothesis => exact step_settles inductionHypothesis

/-- More steps than all measures allow are not used up. -/
theorem ne_exhausted_of_settles
    {action : Action ε α}
    {left right : Ty}
    {steps : Nat}
    (settles : Settles pool action env (Stuck pool steps left right))
    (leftListed : left ∈ pool)
    (rightListed : right ∈ pool)
    (enough : 4 * Environment.descentBound pool.length + 1 < steps)
    (descent :
      ∀ {later}, env.Proceeds pool later →
        ∃ measure, later.Descends pool measure ∧
          ∀ ty ∈ pool, measure ty ≤ Environment.descentBound pool.length) :
    action env ≠ .exhausted := by
  intro ended
  obtain ⟨later, proceeds, isStuck⟩ := settles.stops ended
  obtain ⟨measure, descends, bounded⟩ := descent proceeds
  have allowed := isStuck measure descends
  have leftBounded := bounded left leftListed
  have rightBounded := bounded right rightListed
  unfold nesting at allowed
  split at allowed <;> omega

/-- The bound on the nesting exceeds the nesting that ranks allow. -/
theorem four_mul_descentBound_lt (count : Nat) :
    4 * Environment.descentBound count + 1 < nestingBound (count + 2) := by
  have expanded :
      (count + 2) * (count + 2) * (count + 2) =
        count * count * count + 6 * (count * count) + 12 * count + 8 := by ring
  rw [nestingBound, Environment.descentBound, expanded, Nat.mul_succ]
  omega

/-- The bound on the nesting grows with the number of bindings. -/
theorem nestingBound_mono {few many : Nat} (notMore : few ≤ many) :
    nestingBound few ≤ nestingBound many := by
  unfold nestingBound
  have squares := Nat.mul_le_mul notMore notMore
  exact Nat.mul_le_mul_left 4 (Nat.mul_le_mul squares notMore)

/-- One step extends another one if unification of the parts does. -/
theorem step_extends
    {recur recur' : Ty → Ty → Action UnifyError Ty}
    (isExtended : ∀ left right, Extends (recur' left right) (recur left right))
    (left right : Ty) :
    Extends (step recur' left right) (step recur left right) := by
  unfold step
  split
  · exact .refl _
  split
  · refine .bind (.refl _) fun env => ?_
    split
    · exact isExtended _ _
    · exact .refl _
  · exact isExtended _ _
  · exact .bind (.refl _) fun _ => .bind (.refl _) fun _ => isExtended _ _
  · exact .bind (.refl _) fun _ => .bind (.refl _) fun _ => isExtended _ _
  · exact .bind (.refl _) fun _ => .bind (isExtended _ _) fun _ => .refl _
  · unfold meet
    split
    · exact .refl _
    · refine .bind (.refl _) fun _ => .bind (.mapM ?_) fun _ => .refl _
      rintro ⟨label, first, second⟩
      exact .bind (isExtended _ _) fun _ => .refl _
  · exact .bind (.refl _) fun _ => .bind (isExtended _ _) fun _ =>
      .bind (isExtended _ _) fun _ => .refl _
  · exact .refl _
  · exact .refl _
  · exact .refl _

/-- A larger bound on the nesting gives the same outcome. -/
theorem within_extends
    {few many : Nat}
    (notMore : few ≤ many)
    (left right : Ty) :
    Extends (within many left right) (within few left right) := by
  induction few generalizing many left right with
  | zero => exact .exhausted _
  | succ few inductionHypothesis =>
      obtain ⟨many, rfl⟩ : ∃ fewer, many = fewer + 1 := ⟨many - 1, by omega⟩
      exact step_extends (inductionHypothesis (by omega)) left right

end Unification

/--
Where a bound is enough, larger ones give the same answer, and so does trying
another bound first.
-/
theorem Action.orElse_eq_of_extends
    (bounded : Nat → Action ε α)
    (isExtended : ∀ {few many}, few ≤ many → Extends (bounded many) (bounded few))
    (usual : Nat)
    (limit : Environment → Nat)
    {env : Environment}
    (answers : bounded (limit env) env ≠ .exhausted)
    {steps : Nat}
    (enough : limit env ≤ steps) :
    (bounded usual).orElse (Action.environment >>= fun env => bounded (limit env)) env =
      bounded steps env := by
  rw [isExtended enough env answers]
  unfold Action.orElse
  cases outcome : bounded usual env with
  | exhausted => rfl
  | ok | error =>
      have usualAnswers : bounded usual env ≠ .exhausted := by
        rw [outcome]
        nofun
      have first := isExtended (Nat.le_max_left usual (limit env)) env usualAnswers
      have second := isExtended (Nat.le_max_right usual (limit env)) env answers
      rw [← second, first, outcome]

section Unify

variable {env : Environment}

/-- Unification settles: without an answer it is stuck with its own limit. -/
theorem unify_settles
    {pool : List Ty}
    (confined : env.Confined pool)
    {left right : Ty}
    (leftListed : left ∈ pool)
    (rightListed : right ∈ pool) :
    Settles pool (unify left right) env
      (Unification.Stuck pool (Unification.limit env left right) left right) :=
  .orElse (Unification.within_settles _ confined leftListed rightListed)
    (.bind_environment (Unification.within_settles _ confined leftListed rightListed))

/-- The steps granted to unification are enough, and more of them give the same answer. -/
theorem unify_eq_within
    (consistent : env.frames.Consistent)
    (acyclic : env.Acyclic)
    (left right : Ty) :
    unify left right env ≠ .exhausted ∧
      ∀ steps, Unification.limit env left right ≤ steps →
        unify left right env = Unification.within steps left right env := by
  have confined := Environment.confined_typesAtHand consistent [left, right]
  have leftListed : left ∈ (env.typesAtHand [left, right]).flatMap Ty.parts :=
    Environment.mem_parts_typesAtHand (by simp)
  have rightListed : right ∈ (env.typesAtHand [left, right]).flatMap Ty.parts :=
    Environment.mem_parts_typesAtHand (by simp)
  have answers :
      Unification.within (Unification.limit env left right) left right env ≠ .exhausted := by
    refine Unification.ne_exhausted_of_settles
      (Unification.within_settles _ confined leftListed rightListed) leftListed rightListed ?_
      fun proceeds => (proceeds.acyclic acyclic).exists_descent proceeds.confined
    have bounded := Unification.four_mul_descentBound_lt
      (Unification.weight env + Ty.sizeOfMembers [left, right])
    rw [Environment.length_parts_typesAtHand]
    simpa [Unification.limit, Ty.sizeOfMembers, Nat.add_assoc] using bounded
  have same (steps : Nat) (enough : Unification.limit env left right ≤ steps) :
      unify left right env = Unification.within steps left right env :=
    Action.orElse_eq_of_extends (fun steps => Unification.within steps left right)
      (fun notMore => Unification.within_extends notMore left right)
      Unification.usualNesting (fun env => Unification.limit env left right) answers enough
  refine ⟨?_, same⟩
  rw [same _ (Nat.le_refl _)]
  exact answers

end Unify

end ShaderTyping
