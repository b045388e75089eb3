import ShaderTyping.Proofs.Meet
import ShaderTyping.Proofs.Nesting
import ShaderTyping.Proofs.UntracedRuns

namespace ShaderTyping

/-!
# Unification of concrete types

A type is concrete if it has no placeholders, length variables and references.  There is nothing
to bind and nothing to look up in two concrete types: whatever the environment is, unifying them
leaves it as it is and comes to what they agree on by `Ty.meet?` (`unify_yields`).
-/

namespace Environment

/-- Environments that differ in their traces at most. -/
def SameUntraced (env final : Environment) : Prop :=
  final.untraced = env.untraced

/-- Differing in the trace at most is reflexive and transitive. -/
instance : IsPreorder Environment SameUntraced where
  refl _ := rfl
  trans _ _ _ before after := Eq.trans after before

namespace SameUntraced

variable {env final : Environment}

/-- The frames are the same. -/
theorem frames (same : SameUntraced env final) : final.frames = env.frames := by
  change final.untraced.frames = env.untraced.frames
  rw [show final.untraced = env.untraced from same]

/-- Placeholders are bound alike. -/
theorem binding? (same : SameUntraced env final) (id : PlaceholderId) :
    final.binding? id = env.binding? id := by
  rw [Environment.binding?, Environment.binding?, same.frames]

/-- Length variables are bound alike. -/
theorem length? (same : SameUntraced env final) (id : LengthId) :
    final.frames.length? id = env.frames.length? id := by
  rw [same.frames]

/-- The counters are the same. -/
theorem fresh (same : SameUntraced env final) : final.fresh = env.fresh := by
  change final.untraced.fresh = env.untraced.fresh
  rw [show final.untraced = env.untraced from same]

/-- The context is the same. -/
theorem context (same : SameUntraced env final) : final.context = env.context := by
  change final.untraced.context = env.untraced.context
  rw [show final.untraced = env.untraced from same]

/-- The depth limit is the same. -/
theorem maxDepth (same : SameUntraced env final) :
    final.options.maxDepth = env.options.maxDepth := by
  change final.untraced.options.maxDepth = env.untraced.options.maxDepth
  rw [show final.untraced = env.untraced from same]

end SameUntraced

end Environment

namespace Action

/--
An action comes to a result that is known: to a value, with an environment that is related to
the given one, or else to a failure.
-/
def Yields
    (relation : Environment → Environment → Prop)
    (action : Action ε α)
    (env : Environment) : Option α → Prop
  | some value => ∃ final, action env = .ok value final ∧ relation env final
  | none => ∃ cause final, action env = .error cause final

namespace Yields

variable {relation relation' relation'' : Environment → Environment → Prop} {env : Environment}

/-- An action that ends well in a related environment yields its value. -/
theorem of_ok
    {action : Action ε α}
    {value : α}
    {final : Environment}
    (ended : action env = .ok value final)
    (related : relation env final) :
    Yields relation action env (some value) :=
  ⟨final, ended, related⟩

theorem fail (cause : ε) : Yields relation (Action.fail cause : Action ε α) env none :=
  ⟨cause, env, rfl⟩

/-- What an action yields depends only on what it does from this environment. -/
theorem congr
    {action other : Action ε α}
    {expected : Option α}
    (same : action env = other env)
    (yields : Yields relation other env expected) :
    Yields relation action env expected := by
  cases expected with
  | some value =>
      obtain ⟨final, ended, related⟩ := yields
      exact ⟨final, same.trans ended, related⟩
  | none =>
      obtain ⟨cause, final, failed⟩ := yields
      exact ⟨cause, final, same.trans failed⟩

/-- The relation to the final environment can be weakened. -/
theorem imp
    {action : Action ε α}
    {expected : Option α}
    (yields : Yields relation action env expected)
    (implies : ∀ final, relation env final → relation' env final) :
    Yields relation' action env expected := by
  cases expected with
  | some value =>
      obtain ⟨final, ended, related⟩ := yields
      exact ⟨final, ended, implies final related⟩
  | none => exact yields

/-- Two actions in a row; what they do together follows from what each of them does. -/
theorem compose
    {first : Action ε α}
    {next : α → Action ε β}
    {expected : Option α}
    {results : α → Option β}
    (firstYields : Yields relation first env expected)
    (nextYields :
      ∀ value middle,
        expected = some value →
        relation env middle →
        Yields relation' (next value) middle (results value))
    (together :
      ∀ {middle final}, relation env middle → relation' middle final → relation'' env final) :
    Yields relation'' (first >>= next) env (expected.bind results) := by
  cases expected with
  | none =>
      obtain ⟨cause, final, failed⟩ := firstYields
      exact ⟨cause, final, bind_eq_error.mpr (.inl failed)⟩
  | some value =>
      obtain ⟨middle, firstEnded, firstRelated⟩ := firstYields
      have continued : (first >>= next) env = next value middle := by
        simp only [Bind.bind, Action.bind, firstEnded]
      have yields := nextYields value middle rfl firstRelated
      rw [Option.bind_some]
      cases result : results value with
      | none =>
          rw [result] at yields
          obtain ⟨cause, final, failed⟩ := yields
          exact ⟨cause, final, continued.trans failed⟩
      | some other =>
          rw [result] at yields
          obtain ⟨final, nextEnded, nextRelated⟩ := yields
          exact ⟨final, continued.trans nextEnded, together firstRelated nextRelated⟩

/-- Where the first of two actions cannot fail, the second one decides the result. -/
theorem compose_value
    {first : Action ε α}
    {next : α → Action ε β}
    {value : α}
    {expected : Option β}
    (firstYields : Yields relation first env (some value))
    (nextYields :
      ∀ middle, relation env middle → Yields relation' (next value) middle expected)
    (together :
      ∀ {middle final}, relation env middle → relation' middle final → relation'' env final) :
    Yields relation'' (first >>= next) env expected := by
  have same : ∀ other middle,
      some value = some other →
      relation env middle →
      Yields relation' (next other) middle expected := by
    rintro _ middle ⟨⟩ related
    exact nextYields middle related
  exact firstYields.compose same together

/-- What follows an action may convert the value without any effect. -/
theorem bind_of_ok
    {action : Action ε α}
    {next : α → Action ε β}
    {expected : Option α}
    {convert : α → β}
    (yields : Yields relation action env expected)
    (converts :
      ∀ value middle,
        expected = some value →
        relation env middle →
        next value middle = .ok (convert value) middle) :
    Yields relation (action >>= next) env (expected.map convert) := by
  have converted (value : α) (middle : Environment) (isValue : expected = some value)
      (related : relation env middle) :
      Yields Eq (next value) middle (some (convert value)) :=
    ⟨middle, converts value middle isValue related, rfl⟩
  rw [Option.map_eq_bind]
  refine yields.compose converted ?_
  rintro middle _ related rfl
  exact related

/-- Converting the value changes nothing else. -/
theorem bind_pure
    {action : Action ε α}
    {expected : Option α}
    (yields : Yields relation action env expected)
    (convert : α → β) :
    Yields relation (action >>= fun value => Pure.pure (convert value)) env
      (expected.map convert) :=
  yields.bind_of_ok fun _ _ _ _ => rfl

/-- An action that reads the environment yields what follows from it. -/
theorem bind_environment
    {next : Environment → Action ε α}
    {expected : Option α}
    (nextYields : Yields relation (next env) env expected) :
    Yields relation (Action.environment >>= next) env expected :=
  .congr (environment_bind next env) nextYields

/-- Restating errors does not change what an action yields. -/
theorem mapError
    {action : Action ε α}
    {expected : Option α}
    (yields : Yields relation action env expected)
    (restate : ε → ε') :
    Yields relation (action.mapError restate) env expected := by
  cases expected with
  | some value =>
      obtain ⟨final, ended, related⟩ := yields
      exact ⟨final, mapError_eq_ok.mpr ended, related⟩
  | none =>
      obtain ⟨cause, final, failed⟩ := yields
      exact ⟨restate cause, final, mapError_eq_error.mpr ⟨cause, failed, rfl⟩⟩

/-- Between two changes an action yields the same. -/
theorem between
    {action : Action ε α}
    {enter leave : Environment → Environment}
    {expected : Option α}
    (yields : Yields relation action (enter env) expected)
    (together : ∀ inner, relation (enter env) inner → relation' env (leave inner)) :
    Yields relation' (action.between enter leave) env expected := by
  cases expected with
  | some value =>
      obtain ⟨inner, ended, related⟩ := yields
      exact ⟨leave inner, between_eq_ok.mpr ⟨inner, ended, rfl⟩, together inner related⟩
  | none =>
      obtain ⟨cause, inner, failed⟩ := yields
      exact ⟨cause, leave inner, between_eq_error.mpr ⟨inner, failed, rfl⟩⟩

/-- A transaction yields what happens inside it. -/
theorem transaction
    {action : Action ε α}
    {expected : Option α}
    (yields : Yields relation action env.push expected)
    (together : ∀ inner, relation env.push inner → relation' env (inner.finish true)) :
    Yields relation' action.transaction env expected := by
  cases expected with
  | some value =>
      obtain ⟨inner, ended, related⟩ := yields
      exact ⟨_, transaction_eq_ok.mpr ⟨inner, ended, rfl⟩, together inner related⟩
  | none =>
      obtain ⟨cause, inner, failed⟩ := yields
      exact ⟨cause, _, transaction_eq_error.mpr ⟨inner, failed, rfl⟩⟩

/-- An action that yields a result does not run out of steps. -/
theorem ne_exhausted
    {action : Action ε α}
    {expected : Option α}
    (yields : Yields relation action env expected) :
    action env ≠ .exhausted := by
  cases expected with
  | some value =>
      obtain ⟨final, ended, _⟩ := yields
      rw [ended]
      nofun
  | none =>
      obtain ⟨cause, final, failed⟩ := yields
      rw [failed]
      nofun

/-- An action ends well with exactly the value that it yields. -/
theorem exists_ok_iff
    {action : Action ε α}
    {expected : Option α}
    (yields : Yields relation action env expected)
    (value : α) :
    (∃ final, action env = .ok value final) ↔ expected = some value := by
  cases expected with
  | some found =>
      obtain ⟨final, ended, _⟩ := yields
      simp [ended]
  | none =>
      obtain ⟨cause, final, failed⟩ := yields
      simp [failed]

section Preorder

variable [IsPreorder Environment relation]

theorem pure (value : α) : Yields relation (Pure.pure value : Action ε α) env (some value) :=
  ⟨env, rfl, refl env⟩

/-- Two actions in a row yield the results one after the other. -/
theorem bind
    {first : Action ε α}
    {next : α → Action ε β}
    {expected : Option α}
    {results : α → Option β}
    (firstYields : Yields relation first env expected)
    (nextYields :
      ∀ value middle,
        expected = some value →
        relation env middle →
        Yields relation (next value) middle (results value)) :
    Yields relation (first >>= next) env (expected.bind results) :=
  firstYields.compose nextYields Trans.trans

/-- After an action that has a value the next one yields the result. -/
theorem after
    {first : Action ε α}
    {next : α → Action ε β}
    {value : α}
    {expected : Option β}
    (firstYields : Yields relation first env (some value))
    (nextYields :
      ∀ middle, relation env middle → Yields relation (next value) middle expected) :
    Yields relation (first >>= next) env expected :=
  firstYields.compose_value nextYields Trans.trans

/-- Going through a list yields the results of its items. -/
theorem mapM
    {visit : α → Action ε β}
    {expected : α → Option β}
    {items : List α}
    (each : ∀ item ∈ items, ∀ env, Yields relation (visit item) env (expected item)) :
    Yields relation (items.mapM visit) env (items.mapM expected) := by
  induction items generalizing env with
  | nil => exact .pure []
  | cons item rest inductionHypothesis =>
      rw [List.mapM_cons, List.mapM_cons]
      refine .bind (each item List.mem_cons_self env) fun _ _ _ _ => ?_
      refine .bind (inductionHypothesis fun other isOther => ?_) fun _ _ _ _ => .pure _
      exact each other (List.mem_cons_of_mem _ isOther)

/-- A fold yields a fold of the results as long as what is folded stays in a domain. -/
theorem foldlM
    {visit : β → α → Action ε β}
    {expected : β → α → Option β}
    {items : List α}
    {inDomain : β → Prop}
    (keeps :
      ∀ item ∈ items, ∀ {start next},
        inDomain start → expected start item = some next → inDomain next)
    (each :
      ∀ item ∈ items, ∀ {start},
        inDomain start → ∀ env, Yields relation (visit start item) env (expected start item))
    {start : β}
    (starts : inDomain start) :
    Yields relation (items.foldlM visit start) env (items.foldlM expected start) := by
  induction items generalizing start env with
  | nil => exact .pure start
  | cons item rest inductionHypothesis =>
      obtain ⟨itemKeeps, restKeeps⟩ := List.forall_mem_cons.mp keeps
      obtain ⟨itemYields, restYields⟩ := List.forall_mem_cons.mp each
      rw [List.foldlM_cons, List.foldlM_cons]
      refine .bind (itemYields starts env) fun next _ isNext _ => ?_
      exact inductionHypothesis restKeeps restYields (itemKeeps starts isNext)

end Preorder

end Yields

end Action

namespace Ty

/-- A type without placeholders, length variables and references. -/
inductive Concrete : Ty → Prop where
  | primitive (kind : Primitive) : Concrete (.primitive kind)
  | array {component : Ty} (count : Nat) :
      Concrete component → Concrete (.array component (.known count))
  | struct {fields : List (String × Ty)} :
      (∀ field ∈ fields, Concrete field.2) → Concrete (.struct fields)
  | function {param result : Ty} :
      Concrete param → Concrete result → Concrete (.function param result)
  | union {members : List Ty} :
      (∀ member ∈ members, Concrete member) → Concrete (.union members)
  | parametric (scope : ScopeId) (label : LabelId) : Concrete (.parametric scope label)

namespace Concrete

/-- The component of a concrete array is concrete. -/
theorem component
    {component : Ty}
    {length : Length}
    (concrete : (Ty.array component length).Concrete) :
    component.Concrete := by
  cases concrete
  assumption

/-- The length of a concrete array is known. -/
theorem known
    {component : Ty}
    {length : Length}
    (concrete : (Ty.array component length).Concrete) :
    ∃ count, length = .known count := by
  cases concrete
  exact ⟨_, rfl⟩

/-- The fields of a concrete struct are concrete. -/
theorem field
    {fields : List (String × Ty)}
    (concrete : (Ty.struct fields).Concrete) :
    ∀ field ∈ fields, field.2.Concrete := by
  cases concrete
  assumption

/-- The parameter of a concrete function is concrete. -/
theorem param
    {param result : Ty}
    (concrete : (Ty.function param result).Concrete) :
    param.Concrete := by
  cases concrete
  assumption

/-- The result of a concrete function is concrete. -/
theorem result
    {param result : Ty}
    (concrete : (Ty.function param result).Concrete) :
    result.Concrete := by
  cases concrete
  assumption

end Concrete

/-- The shared fields of structs are met one after the other. -/
theorem meetFields_eq_mapM (left right : List (String × Ty)) :
    meetFields left right =
      (sharedFields left right).mapM fun shared =>
        (shared.2.1.meet? shared.2.2).map fun met => (shared.1, met) := by
  induction left with
  | nil => rfl
  | cons field rest inductionHypothesis =>
      cases found : right.lookup field.1 with
      | none =>
          have fewer : sharedFields (field :: rest) right = sharedFields rest right := by
            simp [sharedFields, found]
          rw [meetFields, found, fewer]
          exact inductionHypothesis
      | some other =>
          have shared :
              sharedFields (field :: rest) right =
                (field.1, field.2, other) :: sharedFields rest right := by
            simp [sharedFields, found]
          rw [meetFields, found, shared, List.mapM_cons]
          simp only [inductionHypothesis]
          cases field.2.meet? other with
          | none => rfl
          | some met => simp [Option.map_eq_bind]

/-- Different structs agree on the fields that both have, if there are any. -/
theorem meet?_struct_of_ne
    {fields fields' : List (String × Ty)}
    (different : Ty.struct fields ≠ .struct fields') :
    (Ty.struct fields).meet? (.struct fields') =
      if sharedFields fields fields' = [] then
        none
      else
        (meetFields fields fields').map .struct := by
  rw [meet?, if_neg different, meetFields_eq_mapM]
  cases shared : sharedFields fields fields' with
  | nil => rfl
  | cons first rest =>
      rw [if_neg (List.cons_ne_nil _ _), List.mapM_cons]
      cases first.2.1.meet? first.2.2 with
      | none => rfl
      | some met =>
          cases rest.mapM fun shared =>
            (shared.2.1.meet? shared.2.2).map fun met => (shared.1, met)
          · rfl
          · rfl

/-- The ways in which two types can agree on a third one. -/
inductive AgreeOn : Ty → Ty → Ty → Prop where
  | same (ty : Ty) : AgreeOn ty ty ty
  | int_float : AgreeOn int float float
  | float_int : AgreeOn float int float
  | array {component component' met : Ty} (length : Length) :
      component.meet? component' = some met →
      AgreeOn (.array component length) (.array component' length) (.array met length)
  | struct {fields fields' met : List (String × Ty)} :
      meetFields fields fields' = some met →
      met ≠ [] →
      AgreeOn (.struct fields) (.struct fields') (.struct met)
  | function {param param' metParam result result' metResult : Ty} :
      param.meet? param' = some metParam →
      result.meet? result' = some metResult →
      AgreeOn (.function param result) (.function param' result') (.function metParam metResult)

/-- What two types agree on by `Ty.meet?` they agree on by the rules. -/
theorem agreeOn_of_meet?
    {left right met : Ty}
    (agreed : left.meet? right = some met) :
    AgreeOn left right met := by
  unfold meet? at agreed
  split at agreed
  case isTrue same =>
    cases same
    cases agreed
    exact .same left
  case isFalse _ =>
  split at agreed
  case h_1 =>
    cases agreed
    exact .int_float
  case h_2 =>
    cases agreed
    exact .float_int
  case h_3 component length component' length' _ =>
    by_cases sameLength : length = length'
    · cases sameLength
      rw [if_pos rfl] at agreed
      obtain ⟨met, componentAgreed, rfl⟩ := Option.map_eq_some_iff.mp agreed
      exact .array length componentAgreed
    · rw [if_neg sameLength] at agreed
      contradiction
  case h_4 =>
    split at agreed
    · rename_i fieldsAgreed
      cases agreed
      exact .struct fieldsAgreed (List.cons_ne_nil _ _)
    · contradiction
  case h_5 =>
    obtain ⟨metParam, paramAgreed, both⟩ := Option.bind_eq_some_iff.mp agreed
    obtain ⟨metResult, resultAgreed, rfl⟩ := Option.map_eq_some_iff.mp both
    exact .function paramAgreed resultAgreed
  case h_6 => contradiction

end Ty

namespace Unification

open Environment (SameUntraced)
open ShaderTyping.Action (Yields)

variable {env : Environment} {recur : Ty → Ty → Action UnifyError Ty}

/-- Writing down a step of unification yields nothing else. -/
theorem note_yields (event : UnifyEvent) (left right : Ty) :
    Yields SameUntraced (note event left right : Action ε Unit) env (some ()) :=
  .of_ok rfl (env.untraced_traceUnify event _ _)

/-- Reporting a mismatch yields no value. -/
theorem mismatch_yields (left right : Ty) :
    Yields SameUntraced (mismatch left right : Action UnifyError α) env none :=
  .after (note_yields .mismatch left right) fun _ _ => .bind_environment (.fail _)

/-- Known lengths agree exactly if they are equal. -/
theorem unifyLength_yields (count count' : Nat) :
    Yields SameUntraced (unifyLength (.known count) (.known count')) env
      (if count = count' then some (.known count) else none) := by
  refine .bind_environment ?_
  dsimp only [Environment.resolveLength]
  by_cases same : count = count'
  · rw [if_pos (congrArg Length.known same), if_pos same]
    exact .pure _
  · rw [if_neg fun sameLength => same (Length.known.inj sameLength), if_neg same]
    exact .fail _

/-- Unification of structs yields what the fields agree on that both have. -/
theorem meet_yields
    {left right : List (String × Ty)}
    (each :
      ∀ shared ∈ Ty.sharedFields left right, ∀ env,
        Yields SameUntraced (recur shared.2.1 shared.2.2) env (shared.2.1.meet? shared.2.2)) :
    Yields SameUntraced (meet recur left right) env
      (if Ty.sharedFields left right = [] then
        none
      else
        (Ty.meetFields left right).map .struct) := by
  rw [Ty.meetFields_eq_mapM]
  unfold meet
  split
  · rename_i isNil
    rw [if_pos isNil]
    exact .after (note_yields _ _ _) fun _ _ => .bind_environment (.fail _)
  · rename_i notNil
    rw [if_neg notNil]
    refine .after (note_yields _ _ _) fun _ _ => ?_
    refine .bind_pure (.mapM fun shared isShared middle => ?_) _
    exact (each shared isShared middle).bind_pure _

/-- One step yields what concrete types agree on if their parts are unified right. -/
theorem step_yields
    {left right : Ty}
    (leftConcrete : left.Concrete)
    (rightConcrete : right.Concrete)
    (parts :
      ∀ part other : Ty,
        part.Concrete →
        other.Concrete →
        part.size < left.size →
        ∀ env, Yields SameUntraced (recur part other) env (part.meet? other)) :
    Yields SameUntraced (step recur left right) env (left.meet? right) := by
  unfold step
  split
  case isTrue same =>
    cases same
    rw [Ty.meet?_self]
    exact .after (note_yields _ _ _) fun _ _ => .pure _
  case isFalse different =>
  split
  case h_1 => cases leftConcrete
  case h_2 => cases rightConcrete
  case h_3 => cases leftConcrete
  case h_4 => cases rightConcrete
  case h_5 component length component' length' =>
    obtain ⟨count, rfl⟩ := leftConcrete.known
    obtain ⟨count', rfl⟩ := rightConcrete.known
    have componentYields := parts component component' leftConcrete.component
      rightConcrete.component (Ty.size_lt_of_mem_children (List.mem_singleton_self _))
    have bothAgree :
        (Ty.array component (.known count)).meet? (.array component' (.known count')) =
          (component.meet? component').bind fun met =>
            (if count = count' then some (Length.known count) else none).bind fun length =>
              some (.array met length) := by
      rw [Ty.meet?, if_neg different]
      by_cases same : count = count'
      · simp [same, Option.map_eq_bind]
      · simp [same]
    rw [bothAgree]
    refine .after (note_yields _ _ _) fun noted _ => ?_
    refine .bind (componentYields noted) fun _ _ _ _ => ?_
    exact .bind (unifyLength_yields count count') fun _ _ _ _ => .pure _
  case h_6 fields fields' =>
    rw [Ty.meet?_struct_of_ne different]
    refine meet_yields ?_
    rintro ⟨label, first, second⟩ isShared
    obtain ⟨inFields, found⟩ := Ty.mem_sharedFields.mp isShared
    have firstSmaller : first.size < (Ty.struct fields).size :=
      Ty.size_lt_of_mem_children (List.mem_map.mpr ⟨_, inFields, rfl⟩)
    exact parts first second (leftConcrete.field _ inFields)
      (rightConcrete.field _ (mem_of_lookup found)) firstSmaller
  case h_7 param result param' result' =>
    have paramYields := parts param param' leftConcrete.param rightConcrete.param
      (Ty.size_lt_of_mem_children List.mem_cons_self)
    have resultYields := parts result result' leftConcrete.result rightConcrete.result
      (Ty.size_lt_of_mem_children (List.mem_cons_of_mem _ (List.mem_singleton_self _)))
    rw [Ty.meet?, if_neg different]
    refine .after (note_yields _ _ _) fun noted _ => ?_
    exact .bind (paramYields noted) fun _ middle _ _ => (resultYields middle).bind_pure _
  case h_8 => exact .after (note_yields _ _ _) fun _ _ => .pure _
  case h_9 => exact .after (note_yields _ _ _) fun _ _ => .pure _
  case h_10 noArrays noStructs noFunctions noWidening noWidening' =>
    convert mismatch_yields left right using 1
    unfold Ty.meet?
    rw [if_neg different]
    split
    · exact absurd rfl (noWidening rfl)
    · exact absurd rfl (noWidening' rfl)
    · exact absurd rfl (noArrays _ _ _ _ rfl)
    · exact absurd rfl (noStructs _ _ rfl)
    · exact absurd rfl (noFunctions _ _ _ _ rfl)
    · rfl

/-- Problems about concrete types are nested no deeper than one of them has parts. -/
theorem within_yields
    {left right : Ty}
    (leftConcrete : left.Concrete)
    (rightConcrete : right.Concrete)
    {steps : Nat}
    (enough : left.size ≤ steps)
    (env : Environment) :
    Yields SameUntraced (within steps left right) env (left.meet? right) := by
  induction steps generalizing left right env with
  | zero =>
      have hasParts := left.size_eq
      omega
  | succ steps inductionHypothesis =>
      refine step_yields leftConcrete rightConcrete fun _ _ partConcrete otherConcrete smaller => ?_
      exact inductionHypothesis partConcrete otherConcrete (by omega)

/-- The steps of unification are more than the size of the first type. -/
theorem size_le_limit (env : Environment) (left right : Ty) :
    left.size ≤ limit env left right := by
  have cubed (parts : Nat) : parts ≤ nestingBound parts := by
    unfold nestingBound
    have power : parts ≤ parts ^ 3 := Nat.le_self_pow (by decide) parts
    rw [Nat.pow_succ, Nat.pow_two] at power
    omega
  have counted := cubed (weight env + left.size + right.size + 2)
  unfold limit
  omega

end Unification

/-- Unifying concrete types comes to what they agree on and leaves the environment. -/
theorem unify_yields
    {left right : Ty}
    (leftConcrete : left.Concrete)
    (rightConcrete : right.Concrete)
    (env : Environment) :
    Action.Yields Environment.SameUntraced (unify left right) env (left.meet? right) := by
  have enough := Unification.size_le_limit env left right
  have yields := Unification.within_yields leftConcrete rightConcrete enough env
  refine .congr ?_ yields
  exact Action.orElse_eq_of_extends (fun steps => Unification.within steps left right)
    (fun notMore => Unification.within_extends notMore left right) _
    (fun env => Unification.limit env left right) yields.ne_exhausted le_rfl

end ShaderTyping
