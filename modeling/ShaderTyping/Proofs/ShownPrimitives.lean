import ShaderTyping.Proofs.DeclarationTypes
import ShaderTyping.Proofs.Descent

namespace ShaderTyping

/-!
# What types show

A type shows a primitive if it comes to the primitive along bindings, definitions and members of
overload sets.  A type that is expanded to a primitive shows it, also where references lead around
in a cycle, and resolving or instantiating a type hides nothing that it shows.  After a type was
unified with a primitive it shows only primitives that agree with that one, whatever is bound later
(`agreesWith_of_unify`), and what two types were unified to shows nothing that they do not
(`showsLike_of_unify`).
-/

/-- Two primitives that unify: equal ones, and `int` and `float`. -/
inductive Primitive.AgreesWith : Primitive → Primitive → Prop where
  | same (kind : Primitive) : AgreesWith kind kind
  | widened : AgreesWith .int .float
  | widening : AgreesWith .float .int

theorem Primitive.AgreesWith.trans
    {first second third : Primitive}
    (agrees : first.AgreesWith second)
    (agreesNext : second.AgreesWith third) :
    first.AgreesWith third := by
  cases agrees with
  | same => exact agreesNext
  | widened =>
      cases agreesNext with
      | same => exact .widened
      | widening => exact .same .int
  | widening =>
      cases agreesNext with
      | same => exact .widening
      | widened => exact .same .float

namespace Environment

/-- A primitive is met at the head of a type, along bindings, definitions and members. -/
inductive ShowsKind (env : Environment) (kind : Primitive) : Ty → Prop where
  | primitive : ShowsKind env kind (.primitive kind)
  | member {members : List Ty} {member : Ty} :
      member ∈ members →
      ShowsKind env kind member →
      ShowsKind env kind (.union members)
  | standsFor {leaf next : Ty} :
      env.standsFor? leaf = some next →
      ShowsKind env kind next →
      ShowsKind env kind leaf

/-- A primitive is shown that agrees with the given one. -/
def ShowsLike (env : Environment) (shown : Primitive) (ty : Ty) : Prop :=
  ∃ kind, env.ShowsKind kind ty ∧ kind.AgreesWith shown

variable {env later final : Environment} {kind shown : Primitive} {ty : Ty}

namespace ShowsKind

/-- A primitive shows only itself. -/
theorem eq_of_primitive (shows : env.ShowsKind shown (.primitive kind)) : shown = kind := by
  cases shows with
  | primitive => rfl
  | standsFor stands => cases stands

/-- A leaf shows what it stands for. -/
theorem next
    {leaf next : Ty}
    (shows : env.ShowsKind kind leaf)
    (stands : env.standsFor? leaf = some next) :
    env.ShowsKind kind next := by
  cases shows with
  | primitive => cases stands
  | member => cases stands
  | standsFor found nextShows =>
      cases found.symm.trans stands
      exact nextShows

/-- A type shows what one of its alternatives shows. -/
theorem iff_alternatives :
    env.ShowsKind kind ty ↔ ∃ alternative ∈ ty.alternatives, env.ShowsKind kind alternative := by
  constructor
  · intro shows
    cases ty with
    | union members =>
        cases shows with
        | member isMember memberShows => exact ⟨_, isMember, memberShows⟩
        | standsFor stands => cases stands
    | _ => exact ⟨_, List.mem_singleton_self _, shows⟩
  · rintro ⟨alternative, offered, shows⟩
    cases ty with
    | union members => exact .member offered shows
    | _ =>
        cases List.mem_singleton.mp offered
        exact shows

/-- An overload set shows what the types show that form it. -/
theorem ofMembers_iff {types : List Ty} :
    env.ShowsKind kind ((Ty.ofMembers types).getD (.union [])) ↔
      ∃ ty ∈ types, env.ShowsKind kind ty := by
  have offers :
      (∃ ty ∈ types, env.ShowsKind kind ty) ↔
        ∃ alternative ∈ Ty.canonicalMembers types, env.ShowsKind kind alternative := by
    constructor
    · rintro ⟨ty, isType, shows⟩
      obtain ⟨alternative, offered, alternativeShows⟩ := iff_alternatives.mp shows
      exact ⟨alternative, Ty.mem_canonicalMembers.mpr ⟨ty, isType, offered⟩, alternativeShows⟩
    · rintro ⟨alternative, isMember, shows⟩
      obtain ⟨ty, isType, offered⟩ := Ty.mem_canonicalMembers.mp isMember
      exact ⟨ty, isType, iff_alternatives.mpr ⟨alternative, offered, shows⟩⟩
  rw [offers, Ty.ofMembers]
  split
  · rename_i isEmpty
    have showsNothing : ¬ env.ShowsKind kind (.union []) := by
      rw [iff_alternatives]
      simp [Ty.alternatives]
    simp [isEmpty, showsNothing]
  · rename_i only isOnly
    simp [isOnly]
  · rw [Option.getD_some, iff_alternatives]
    rfl

/-- What is shown after leaves were replaced was shown before, if it is so for the leaves. -/
theorem of_subst
    {substitution : Substitution}
    (leaves :
      ∀ leaf ∈ ty.leaves, env.ShowsKind kind (leaf.subst substitution) → env.ShowsKind kind leaf)
    (shows : env.ShowsKind kind (ty.subst substitution)) :
    env.ShowsKind kind ty := by
  induction ty using Ty.induction with
  | union members inductionHypothesis =>
      rw [Ty.subst_union, ofMembers_iff] at shows
      obtain ⟨_, isRebuilt, memberShows⟩ := shows
      obtain ⟨member, isMember, rfl⟩ := List.mem_map.mp isRebuilt
      refine .member isMember (inductionHypothesis member isMember (fun leaf isLeaf => ?_) memberShows)
      exact leaves leaf (by simpa using ⟨member, isMember, isLeaf⟩)
  | primitive other => exact shows
  | array component length => cases shows with | standsFor stands => cases stands
  | struct fields =>
      rw [Ty.subst_struct] at shows
      cases shows with | standsFor stands => cases stands
  | function param result => cases shows with | standsFor stands => cases stands
  | named scope name => exact leaves _ (by simp) shows
  | placeholder scope id => exact leaves _ (by simp) shows
  | parametric scope label => exact leaves _ (by simp) shows

/-- What was shown is shown after leaves were replaced, if it is so for the leaves. -/
theorem subst
    {substitution : Substitution}
    (leaves :
      ∀ leaf ∈ ty.leaves, env.ShowsKind kind leaf → env.ShowsKind kind (leaf.subst substitution))
    (shows : env.ShowsKind kind ty) :
    env.ShowsKind kind (ty.subst substitution) := by
  induction shows with
  | primitive => exact .primitive
  | @member members member isMember _ inductionHypothesis =>
      rw [Ty.subst_union, ofMembers_iff]
      refine ⟨_, List.mem_map_of_mem isMember, inductionHypothesis fun leaf isLeaf => ?_⟩
      exact leaves leaf (by simpa using ⟨member, isMember, isLeaf⟩)
  | @standsFor leaf next stands nextShows _ =>
      cases leaf with
      | placeholder scope id => exact leaves _ (by simp) (.standsFor stands nextShows)
      | named scope name => exact leaves _ (by simp) (.standsFor stands nextShows)
      | _ => cases stands

/-- A type shows what it is expanded to. -/
theorem of_expand (shows : env.ShowsKind kind (env.expand ty)) : env.ShowsKind kind ty := by
  have within (steps : Nat) (expanding : List AliasKey) (ty : Ty)
      (shows : env.ShowsKind kind (env.expandWithin steps expanding ty)) :
      env.ShowsKind kind ty := by
    induction steps generalizing expanding ty with
    | zero => exact shows
    | succ steps inductionHypothesis =>
        refine of_subst (fun leaf isLeaf leafShows => ?_) shows
        cases Ty.isLeaf_of_mem_leaves isLeaf with
        | placeholder scope id =>
            simp only [Ty.subst_placeholder] at leafShows
            cases found : env.binding? id with
            | none =>
                rw [found] at leafShows
                exact leafShows
            | some bound =>
                rw [found] at leafShows
                exact .standsFor found (inductionHypothesis _ _ leafShows)
        | named scope name =>
            simp only [Ty.subst_named] at leafShows
            cases found : env.definition? scope name with
            | none =>
                rw [found] at leafShows
                exact leafShows
            | some entry =>
                have stands : env.standsFor? (.named scope name) = some entry.2 := by
                  simp [standsFor?, found]
                rw [found] at leafShows
                dsimp only at leafShows
                split at leafShows
                · exact leafShows
                · exact .standsFor stands (inductionHypothesis _ _ leafShows)
        | _ => exact leafShows
  exact within _ _ ty shows

/-- What is shown at the end of bindings is shown by what is bound. -/
theorem of_follow
    (grows : env.Grows later)
    (shows : later.ShowsKind kind (env.follow ty)) :
    later.ShowsKind kind ty := by
  refine follow_induction (motive := fun other => later.ShowsKind kind other → later.ShowsKind kind ty)
    ?_ id shows
  intro scope id bound back found boundShows
  have stands : later.standsFor? (.placeholder scope id) = some bound := grows.bindings found
  exact back (.standsFor stands boundShows)

/-- What the head of a type shows the type shows. -/
theorem of_head
    (grows : env.Grows later)
    (shows : later.ShowsKind kind (env.head ty)) :
    later.ShowsKind kind ty := by
  refine head_induction (motive := fun other => later.ShowsKind kind other → later.ShowsKind kind ty)
    ?_ id shows
  exact fun back stands nextShows => back (.standsFor (grows.standsFor? stands) nextShows)

/-- The head of a type shows what the type shows. -/
theorem head
    (shows : later.ShowsKind kind ty)
    (grows : env.Grows later) :
    later.ShowsKind kind (env.head ty) := by
  refine head_induction (motive := later.ShowsKind kind) ?_ shows
  exact fun leafShows stands => leafShows.next (grows.standsFor? stands)

/-- Resolving a type hides nothing that it shows later. -/
theorem resolve
    (shows : later.ShowsKind kind ty)
    (grows : env.Grows later) :
    later.ShowsKind kind (env.resolve ty) := by
  have within (steps : Nat) (ty : Ty) (shows : later.ShowsKind kind ty) :
      later.ShowsKind kind (env.resolveWithin steps ty) := by
    induction steps generalizing ty with
    | zero => exact shows
    | succ steps inductionHypothesis =>
        refine shows.subst fun leaf isLeaf leafShows => ?_
        cases Ty.isLeaf_of_mem_leaves isLeaf with
        | placeholder scope id =>
            simp only [Ty.subst_placeholder]
            cases found : env.binding? id with
            | none => exact leafShows
            | some bound =>
                have stands : later.standsFor? (.placeholder scope id) = some bound :=
                  grows.bindings found
                exact inductionHypothesis bound (leafShows.next stands)
        | _ => exact leafShows
  exact within _ ty shows

/-- What the resolved type shows the type shows. -/
theorem of_resolve
    (grows : env.Grows later)
    (shows : later.ShowsKind kind (env.resolve ty)) :
    later.ShowsKind kind ty := by
  have within (steps : Nat) (ty : Ty) (shows : later.ShowsKind kind (env.resolveWithin steps ty)) :
      later.ShowsKind kind ty := by
    induction steps generalizing ty with
    | zero => exact shows
    | succ steps inductionHypothesis =>
        refine of_subst (fun leaf isLeaf leafShows => ?_) shows
        cases Ty.isLeaf_of_mem_leaves isLeaf with
        | placeholder scope id =>
            simp only [Ty.subst_placeholder] at leafShows
            cases found : env.binding? id with
            | none =>
                rw [found] at leafShows
                exact leafShows
            | some bound =>
                rw [found] at leafShows
                have stands : later.standsFor? (.placeholder scope id) = some bound :=
                  grows.bindings found
                exact .standsFor stands (inductionHypothesis bound leafShows)
        | _ => exact leafShows
  exact within _ ty shows

/-- Instantiating a type hides nothing that it shows later. -/
theorem instantiate
    (shows : later.ShowsKind kind ty)
    (consistent : env.frames.Consistent)
    (grows : env.Grows later) :
    later.ShowsKind kind (instantiate ty env).1 := by
  obtain ⟨_, _, isValue⟩ :=
    instantiate_instantiated (canonical_resolve consistent ty) (resolve_resolve consistent ty)
  rw [← instantiate_resolve consistent, isValue]
  refine (shows.resolve grows).subst fun leaf isLeaf leafShows => ?_
  cases Ty.isLeaf_of_mem_leaves isLeaf with
  | parametric scope label => cases leafShows with | standsFor stands => cases stands
  | _ => exact leafShows

end ShowsKind

/-- Binding an unbound placeholder forgets nothing. -/
theorem Grows.bindPlaceholder
    {id : PlaceholderId}
    (unbound : env.binding? id = none)
    (ty : Ty) :
    env.Grows (env.bindPlaceholder id ty) where
  declared := rfl
  bindings {other bound} found := by
    have different : other ≠ id := by
      rintro rfl
      cases unbound.symm.trans found
    exact (FrameStack.placeholder?_bindPlaceholder id ty env.frames other).trans
      ((if_neg different).trans found)
  lengths found := (FrameStack.read_write_of_eq rfl).trans found

/-- A type that can show but some primitives later is no unbound placeholder. -/
theorem isUnbound_eq_false_of_shows
    (consistent : env.frames.Consistent)
    {excluded : Primitive}
    (shows : ∀ later, env.Grows later → ¬ later.ShowsKind excluded ty) :
    env.isUnbound ty = false := by
  cases followed : env.follow ty with
  | placeholder scope id =>
      -- otherwise it could still be bound to the excluded primitive
      have unbound := binding?_of_follow_eq consistent followed
      have grows := Grows.bindPlaceholder unbound (.primitive excluded)
      have stands :
          (env.bindPlaceholder id (.primitive excluded)).standsFor? (.placeholder scope id) =
            some (.primitive excluded) :=
        binding?_bindPlaceholder env id _
      exact (shows _ grows (.of_follow grows (followed ▸ .standsFor stands .primitive))).elim
  | _ => simp [isUnbound, followed, Ty.isPlaceholder]

end Environment

/-! ## Unification with a primitive -/

namespace Unification

open ShaderTyping.Action (Ensures)

variable {env later final : Environment} {kind shown : Primitive} {ty result : Ty}

/-- A type that is unified with a primitive, on either side. -/
inductive Sides (kind : Primitive) (ty : Ty) : Ty → Ty → Prop where
  | left : Sides kind ty (.primitive kind) ty
  | right : Sides kind ty ty (.primitive kind)

/-- Successful unification forgets nothing. -/
theorem grows_of_within
    {steps : Nat}
    {left right : Ty}
    (consistent : env.frames.Consistent)
    (ended : within steps left right env = .ok result final) :
    env.Grows final :=
  (Environment.Run.of_binds ((within_binds steps left right env).of_eq_ok ended)).grows consistent

/-- A step of unification keeps bindings consistent. -/
theorem consistent_of_note
    {event : UnifyEvent}
    {left right : Ty}
    (consistent : env.frames.Consistent)
    (noted : (note event left right : Action UnifyError Unit) env = .ok () final) :
    final.frames.Consistent :=
  (Environment.Run.of_binds ((note_binds event left right).of_eq_ok noted)).consistent consistent

/-- A type that was unified with a primitive shows only primitives that agree with it. -/
theorem agreesWith_of_within
    {steps : Nat}
    {left right : Ty}
    (consistent : env.frames.Consistent)
    (sides : Sides kind ty left right)
    (ended : within steps left right env = .ok result final)
    (grows : final.Grows later)
    (shows : later.ShowsKind shown ty) :
    kind.AgreesWith shown := by
  induction steps generalizing env ty left right with
  | zero => cases ended
  | succ steps inductionHypothesis =>
      have allGrows := (grows_of_within consistent ended).trans grows
      change step (within steps) left right env = _ at ended
      unfold step at ended
      split at ended
      · rename_i same
        have isPrimitive : ty = .primitive kind := by
          cases sides with
          | left => exact same.symm
          | right => exact same
        rw [isPrimitive] at shows
        exact shows.eq_of_primitive ▸ .same kind
      · split at ended
        · rename_i scope id _
          cases sides
          rw [Action.environment_bind] at ended
          cases found : env.binding? id with
          | some bound =>
              rw [found] at ended
              have stands : later.standsFor? (.placeholder scope id) = some bound :=
                allGrows.bindings found
              exact inductionHypothesis consistent .right ended (shows.next stands)
          | none =>
              rw [found] at ended
              have isBound : final.binding? id = some (env.follow (.primitive kind)) :=
                binding?_of_bind rfl ended
              have stands : later.standsFor? (.placeholder scope id) = some (.primitive kind) :=
                grows.bindings isBound
              exact (shows.next stands).eq_of_primitive ▸ .same kind
        · cases sides
          exact inductionHypothesis consistent .right ended shows
        · cases sides
          obtain ⟨_, _, isFound, remaining⟩ := Action.bind_eq_ok.mp ended
          obtain ⟨rfl, rfl⟩ := definition_ensures _ _ _ _ isFound
          obtain ⟨_, _, noted, unified⟩ := Action.bind_eq_ok.mp remaining
          exact inductionHypothesis (consistent_of_note consistent noted) .right unified
            (shows.head allGrows)
        · cases sides
          obtain ⟨_, _, isFound, remaining⟩ := Action.bind_eq_ok.mp ended
          obtain ⟨rfl, rfl⟩ := definition_ensures _ _ _ _ isFound
          obtain ⟨_, _, noted, unified⟩ := Action.bind_eq_ok.mp remaining
          exact inductionHypothesis (consistent_of_note consistent noted) .left unified
            (shows.head allGrows)
        · cases sides
        · cases sides
        · cases sides
        · cases sides with
          | left => exact shows.eq_of_primitive ▸ .widened
          | right => exact shows.eq_of_primitive ▸ .widening
        · cases sides with
          | left => exact shows.eq_of_primitive ▸ .widening
          | right => exact shows.eq_of_primitive ▸ .widened
        · exact (mismatch_ensures _ _ (fun _ _ => False) _ _ ended).elim

/-- What a placeholder was bound to shows nothing but what it was bound for. -/
theorem shows_of_bind
    {scope : ScopeId}
    {id : PlaceholderId}
    (ended : bind scope id ty env = .ok result final)
    (allGrows : env.Grows later)
    (grows : final.Grows later)
    (shows : later.ShowsKind kind result) :
    later.ShowsKind kind (.placeholder scope id) ∧ later.ShowsKind kind ty := by
  rw [Unification.bind, Action.environment_bind] at ended
  split at ended
  · rename_i isSame
    cases ended
    exact ⟨isSame ▸ shows, .of_follow allGrows shows⟩
  · split at ended
    · obtain ⟨_, _, _, failing⟩ := Action.bind_eq_ok.mp ended
      cases failing
    · obtain ⟨_, noted, _, updating⟩ := Action.bind_eq_ok.mp ended
      obtain ⟨_, _, isBound, isValue⟩ := Action.bind_eq_ok.mp updating
      cases isBound
      cases isValue
      have stands : later.standsFor? (.placeholder scope id) = some (env.follow ty) :=
        grows.bindings (Environment.binding?_bindPlaceholder noted id _)
      exact ⟨.standsFor stands shows, .of_follow allGrows shows⟩

/-- The common fields of two structs make a struct. -/
theorem exists_fields_of_meet
    {recur : Ty → Ty → Action UnifyError Ty}
    {left right : List (String × Ty)}
    (ended : meet recur left right env = .ok result final) :
    ∃ fields, result = .struct fields := by
  unfold meet at ended
  cases isShared : Ty.sharedFields left right with
  | nil =>
      rw [isShared] at ended
      obtain ⟨_, _, _, remaining⟩ := Action.bind_eq_ok.mp ended
      cases remaining
  | cons shared rest =>
      rw [isShared] at ended
      obtain ⟨_, _, _, remaining⟩ := Action.bind_eq_ok.mp ended
      obtain ⟨fields, _, _, returned⟩ := Action.bind_eq_ok.mp remaining
      cases returned
      exact ⟨fields, rfl⟩

/-- What two types are unified to shows only primitives that agree with what both of them show. -/
theorem showsLike_of_within
    {steps : Nat}
    {left right : Ty}
    (consistent : env.frames.Consistent)
    (ended : within steps left right env = .ok result final)
    (grows : final.Grows later)
    (shows : later.ShowsKind shown result) :
    later.ShowsLike shown left ∧ later.ShowsLike shown right := by
  induction steps generalizing env left right with
  | zero => cases ended
  | succ steps inductionHypothesis =>
      have allGrows := (grows_of_within consistent ended).trans grows
      change step (within steps) left right env = _ at ended
      unfold step at ended
      split at ended
      · rename_i same
        obtain ⟨_, _, _, returned⟩ := Action.bind_eq_ok.mp ended
        cases returned
        exact ⟨⟨shown, shows, .same shown⟩, ⟨shown, same ▸ shows, .same shown⟩⟩
      · split at ended
        · rename_i scope id _
          rw [Action.environment_bind] at ended
          cases found : env.binding? id with
          | some bound =>
              rw [found] at ended
              have stands : later.standsFor? (.placeholder scope id) = some bound :=
                allGrows.bindings found
              obtain ⟨⟨kind, boundShows, agrees⟩, rightShows⟩ := inductionHypothesis consistent ended
              exact ⟨⟨kind, .standsFor stands boundShows, agrees⟩, rightShows⟩
          | none =>
              rw [found] at ended
              obtain ⟨leftShows, rightShows⟩ := shows_of_bind ended allGrows grows shows
              exact ⟨⟨shown, leftShows, .same shown⟩, ⟨shown, rightShows, .same shown⟩⟩
        · exact (inductionHypothesis consistent ended).symm
        · obtain ⟨_, _, isFound, remaining⟩ := Action.bind_eq_ok.mp ended
          obtain ⟨rfl, rfl⟩ := definition_ensures _ _ _ _ isFound
          obtain ⟨_, _, noted, unified⟩ := Action.bind_eq_ok.mp remaining
          obtain ⟨⟨kind, headShows, agrees⟩, rightShows⟩ :=
            inductionHypothesis (consistent_of_note consistent noted) unified
          exact ⟨⟨kind, .of_head allGrows headShows, agrees⟩, rightShows⟩
        · obtain ⟨_, _, isFound, remaining⟩ := Action.bind_eq_ok.mp ended
          obtain ⟨rfl, rfl⟩ := definition_ensures _ _ _ _ isFound
          obtain ⟨_, _, noted, unified⟩ := Action.bind_eq_ok.mp remaining
          obtain ⟨leftShows, ⟨kind, headShows, agrees⟩⟩ :=
            inductionHypothesis (consistent_of_note consistent noted) unified
          exact ⟨leftShows, ⟨kind, .of_head allGrows headShows, agrees⟩⟩
        · obtain ⟨_, _, _, remaining⟩ := Action.bind_eq_ok.mp ended
          obtain ⟨_, _, _, others⟩ := Action.bind_eq_ok.mp remaining
          obtain ⟨_, _, _, returned⟩ := Action.bind_eq_ok.mp others
          cases returned
          cases shows with | standsFor stands => cases stands
        · obtain ⟨fields, rfl⟩ := exists_fields_of_meet ended
          cases shows with | standsFor stands => cases stands
        · obtain ⟨_, _, _, remaining⟩ := Action.bind_eq_ok.mp ended
          obtain ⟨_, _, _, others⟩ := Action.bind_eq_ok.mp remaining
          obtain ⟨_, _, _, returned⟩ := Action.bind_eq_ok.mp others
          cases returned
          cases shows with | standsFor stands => cases stands
        · obtain ⟨_, _, _, returned⟩ := Action.bind_eq_ok.mp ended
          cases returned
          cases shows.eq_of_primitive
          exact ⟨⟨_, .primitive, .widened⟩, ⟨_, .primitive, .same .float⟩⟩
        · obtain ⟨_, _, _, returned⟩ := Action.bind_eq_ok.mp ended
          cases returned
          cases shows.eq_of_primitive
          exact ⟨⟨_, .primitive, .same .float⟩, ⟨_, .primitive, .widened⟩⟩
        · exact (mismatch_ensures _ _ (fun _ _ => False) _ _ ended).elim

end Unification

/-- What two types were unified to shows only primitives that agree with what the first shows. -/
theorem showsLike_of_unify
    {env later final : Environment}
    {shown : Primitive}
    {left right result : Ty}
    (consistent : env.frames.Consistent)
    (ended : unify left right env = .ok result final)
    (grows : final.Grows later)
    (shows : later.ShowsKind shown result) :
    later.ShowsLike shown left := by
  unfold unify Action.orElse at ended
  split at ended
  · rename_i isOk
    cases ended
    exact (Unification.showsLike_of_within consistent isOk grows shows).1
  · cases ended
  · exact (Unification.showsLike_of_within consistent ended grows shows).1

/-- A type that was unified with a primitive shows only primitives that agree with it. -/
theorem agreesWith_of_unify
    {env later final : Environment}
    {kind shown : Primitive}
    {ty result : Ty}
    (consistent : env.frames.Consistent)
    (ended : unify (.primitive kind) ty env = .ok result final)
    (grows : final.Grows later)
    (shows : later.ShowsKind shown ty) :
    kind.AgreesWith shown := by
  unfold unify Action.orElse at ended
  split at ended
  · rename_i isOk
    cases ended
    exact Unification.agreesWith_of_within consistent .left isOk grows shows
  · cases ended
  · exact Unification.agreesWith_of_within consistent .left ended grows shows

/-- A type that was unified with one of two primitives shows only primitives that agree with one. -/
theorem agreesWith_of_unifyEither
    {env later final : Environment}
    {first second shown : Primitive}
    {ty result : Ty}
    (consistent : env.frames.Consistent)
    (ended :
      Inference.unifyEither (.primitive first) (.primitive second) ty env = .ok result final)
    (grows : final.Grows later)
    (shows : later.ShowsKind shown ty) :
    first.AgreesWith shown ∨ second.AgreesWith shown := by
  have agrees {kind : Primitive} {env : Environment} (consistent : env.frames.Consistent)
      (ended : (unify (.primitive kind) ty).transaction env = .ok result final) :
      kind.AgreesWith shown := by
    obtain ⟨inner, unified, rfl⟩ := Action.transaction_eq_ok.mp ended
    exact agreesWith_of_unify consistent.push unified ((Environment.Grows.commit inner).trans grows)
      shows
  obtain ⟨tried, middle, isTried, remaining⟩ := Action.bind_eq_ok.mp ended
  unfold Action.attempt at isTried
  cases first : (unify (.primitive first) ty).transaction env with
  | ok agreed left =>
      rw [first] at isTried
      cases isTried
      cases remaining
      exact Or.inl (agrees consistent first)
  | error cause left =>
      rw [first] at isTried
      cases isTried
      obtain ⟨inner, failed, rfl⟩ := Action.transaction_eq_error.mp first
      have innerConsistent := ((unify_run _ _ _).of_eq_error failed).consistent consistent.push
      exact Or.inr (agrees (Environment.consistent_finish innerConsistent false)
        (Action.mapError_eq_ok.mp remaining))
  | exhausted =>
      rw [first] at isTried
      cases isTried

end ShaderTyping
