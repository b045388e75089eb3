import ShaderTyping.Proofs.InferencePreservation

namespace ShaderTyping

/-!
# Well-formed types stay well-formed

A type is well-formed if its overload sets are canonical and have at least two members, its
known array lengths are positive and its structs have fields.  That is a `Ty.Invariant`: the
traversals that replace leaves rebuild overload sets in canonical form, and structs never lose
their last field.  So operations on well-formed types store and return only well-formed types.

Lengths come from types, from array literals and from `unifyLength`, which binds a length
variable to whatever it is given.  So the known lengths passed to it have to be positive too: a
variable bound to zero makes a well-formed array type resolve to an array without elements.
-/

/-- A length that an array can have. -/
def Length.Positive : Length → Prop
  | .known count => 0 < count
  | .var _ => True

namespace Ty

/--
A type whose overload sets have at least two members, none of them an overload set, in strictly
ascending order, whose known array lengths are positive and whose structs have fields.
-/
inductive WellFormed : Ty → Prop where
  | primitive (kind : Primitive) : WellFormed (.primitive kind)
  | array {component : Ty} {length : Length} :
      WellFormed component → length.Positive → WellFormed (.array component length)
  | struct {fields : List (String × Ty)} :
      fields ≠ [] →
      (∀ field ∈ fields, WellFormed field.2) →
      WellFormed (.struct fields)
  | function {param result : Ty} :
      WellFormed param → WellFormed result → WellFormed (.function param result)
  | union {members : List Ty} :
      2 ≤ members.length →
      (∀ member ∈ members, member.isUnion = false) →
      Ascending members →
      (∀ member ∈ members, WellFormed member) →
      WellFormed (.union members)
  | named (scope : ScopeId) (name : String) : WellFormed (.named scope name)
  | placeholder (scope : ScopeId) (id : PlaceholderId) : WellFormed (.placeholder scope id)
  | parametric (scope : ScopeId) (label : LabelId) : WellFormed (.parametric scope label)

namespace WellFormed

/-- The alternatives of a well-formed type are well-formed and no overload sets. -/
theorem alternatives
    {ty alternative : Ty}
    (wellFormed : WellFormed ty)
    (offered : alternative ∈ ty.alternatives) :
    WellFormed alternative ∧ alternative.isUnion = false := by
  cases form : ty.isUnion with
  | false =>
      rw [alternatives_of_not_union form] at offered
      cases List.mem_singleton.mp offered
      exact ⟨wellFormed, form⟩
  | true =>
      cases wellFormed with
      | union _ single _ each => exact ⟨each _ offered, single _ offered⟩
      | _ => contradiction

/-- The overload set of well-formed types is well-formed. -/
theorem ofMembers
    {types : List Ty}
    {ty : Ty}
    (each : ∀ member ∈ types, WellFormed member)
    (isUnion : Ty.ofMembers types = some ty) :
    WellFormed ty := by
  have members :
      ∀ member ∈ canonicalMembers types, WellFormed member ∧ member.isUnion = false := by
    intro member inList
    obtain ⟨ty, isType, offered⟩ := mem_canonicalMembers.mp inList
    exact (each ty isType).alternatives offered
  have ascending := canonicalMembers_ascending types
  unfold Ty.ofMembers at isUnion
  split at isUnion
  · contradiction
  · rename_i only isOnly
    have same : only = ty := Option.some.inj isUnion
    exact (members ty (by simp [isOnly, same])).1
  · rename_i notNone notSingle
    cases isUnion
    refine .union ?_ (fun member inList => (members member inList).2) ascending
      fun member inList => (members member inList).1
    match canonicalMembers types, notNone, notSingle with
    | [], notNone, _ => exact absurd rfl notNone
    | [only], _, notSingle => exact absurd rfl (notSingle only)
    | _ :: _ :: _, _, _ => simp

end WellFormed

/-- There is an overload set of some types, unless there are none. -/
theorem ofMembers_ne_none
    {types : List Ty}
    (notEmpty : ∃ ty ∈ types, ty.alternatives ≠ []) :
    ofMembers types ≠ none := by
  obtain ⟨ty, isType, offers⟩ := notEmpty
  obtain ⟨alternative, offered⟩ := List.exists_mem_of_ne_nil _ offers
  have isMember := mem_canonicalMembers.mpr ⟨ty, isType, offered⟩
  unfold ofMembers
  split
  · rename_i isNone
    rw [isNone] at isMember
    contradiction
  · exact Option.some_ne_none _
  · exact Option.some_ne_none _

/-- A well-formed type offers at least one alternative. -/
theorem WellFormed.alternatives_ne_nil {ty : Ty} (wellFormed : WellFormed ty) :
    ty.alternatives ≠ [] := by
  cases wellFormed with
  | union many _ _ _ =>
      rintro rfl
      simp at many
  | _ => simp [Ty.alternatives]

/-- After a field was added there are fields. -/
theorem insertField_ne_nil
    (label : String)
    (value : α)
    (fields : List (String × α)) :
    insertField label value fields ≠ [] := by
  cases fields with
  | nil => exact List.cons_ne_nil _ _
  | cons field rest =>
      rw [insertField]
      split
      · exact List.cons_ne_nil _ _
      · split
        · exact List.cons_ne_nil _ _
        · exact List.cons_ne_nil _ _

/-- Sorting fields loses none of them. -/
theorem sortFields_ne_nil
    {fields : List (String × α)}
    (notEmpty : fields ≠ []) :
    sortFields fields ≠ [] := by
  rcases List.eq_nil_or_concat fields with rfl | ⟨earlier, last, rfl⟩
  · exact absurd rfl notEmpty
  · rw [List.concat_eq_append, sortFields, List.foldl_append, List.foldl_cons, List.foldl_nil]
    exact insertField_ne_nil _ _ _

/-- That types are well-formed. -/
def Invariant.wellFormed : Invariant where
  holds := WellFormed
  holdsLength := Length.Positive
  primitive := .primitive
  placeholder := .placeholder
  parametric := .parametric
  array := by
    intro component length
    constructor
    · rintro (_ | ⟨wellFormed, positive⟩)
      exact ⟨wellFormed, positive⟩
    · exact fun parts => .array parts.1 parts.2
  function := by
    intro param result
    constructor
    · rintro (_ | _ | _ | ⟨paramFormed, resultFormed⟩)
      exact ⟨paramFormed, resultFormed⟩
    · exact fun parts => .function parts.1 parts.2
  field wellFormed := by
    cases wellFormed with
    | struct _ each => exact each
  struct wellFormed _ empties each := by
    cases wellFormed with
    | struct notEmpty _ => exact .struct (fun isEmpty => notEmpty (empties isEmpty)) each
  ofFields {fields} notEmpty each := by
    refine .struct (sortFields_ne_nil notEmpty) fun field member => ?_
    exact each field (mem_of_mem_sortFields field member)
  member wellFormed := by
    cases wellFormed with
    | union _ _ _ each => exact each
  rebuilt {members rebuilt} wellFormed sameLength each := by
    cases wellFormed with
    | union many _ _ _ =>
        cases isUnion : Ty.ofMembers rebuilt with
        | some ty => exact .ofMembers each isUnion
        | none =>
            obtain ⟨first, isFirst⟩ := List.exists_mem_of_length_pos (l := rebuilt) (by omega)
            exact absurd isUnion
              (ofMembers_ne_none ⟨first, isFirst, (each first isFirst).alternatives_ne_nil⟩)
  ofMembers each isUnion := .ofMembers each isUnion
  known positive := positive
  var _ := trivial

end Ty

namespace Environment

variable {env : Environment}

/--
If all types that are declared, written in expressions and passed in are well-formed and all
known lengths passed to `unifyLength` are positive, then all types that an environment stores
and all types that its operations return are well-formed.
-/
theorem reachable_types_wellFormed (reachable : env.ReachableWith .wellFormed) :
    (∀ frame ∈ env.frames.frames,
      Frame.Every Ty.WellFormed frame.placeholders ∧
        Frame.Every Length.Positive frame.lengths ∧
        Frame.Every Ty.WellFormed frame.inferred ∧
        Frame.Every Ty.WellFormed frame.parameters) ∧
    (∀ ty : Ty, ty.WellFormed →
      ((env.resolve ty).WellFormed ∧ (env.expand ty).WellFormed) ∧
        (generalize ty env).1.WellFormed ∧
        (close ty env).1.WellFormed ∧
        (instantiate ty env).1.WellFormed) ∧
    (∀ left right : Ty, left.WellFormed → right.WellFormed →
      ∀ ty final, unify left right env = .ok ty final → ty.WellFormed) ∧
    (∀ (callee : Ty) (args : List Ty),
      callee.WellFormed → (∀ arg ∈ args, arg.WellFormed) →
      ∀ ty final, call callee args env = .ok ty final → ty.WellFormed) ∧
    (∀ expr : Expr, Ty.Invariant.wellFormed.holdsExpr expr →
      ∀ ty final, infer expr env = .ok ty final → ty.WellFormed) ∧
    (∀ scope name ty final,
      inferDeclaration scope name env = .ok (some ty) final → ty.WellFormed) ∧
    (∀ program final, inferProgram env = .ok program final ∨ checkProgram env = .ok program final →
      ∀ declaration ∈ program.declarations, declaration.ty.WellFormed) := by
  have satisfied := reachable.satisfies
  refine ⟨?_, ?_, ?_, ?_, ?_, ?_, ?_⟩
  · intro frame isFrame
    have ⟨placeholders, lengths, inferred, parameters⟩ := satisfied.frames frame isFrame
    exact ⟨placeholders, lengths, inferred, parameters⟩
  · intro ty wellFormed
    refine ⟨⟨satisfied.resolve wellFormed, satisfied.expand wellFormed⟩, ?_, ?_, ?_⟩
    · exact (generalize_keeps wellFormed env satisfied).2
    · exact (close_keeps wellFormed env satisfied).2
    · exact (instantiate_keeps wellFormed env satisfied).2
  · intro left right leftFormed rightFormed ty final ended
    exact (unify_keeps leftFormed rightFormed).of_eq_ok satisfied ended
  · intro callee args calleeFormed argsFormed ty final ended
    exact (call_keeps calleeFormed argsFormed).of_eq_ok satisfied ended
  · intro expr exprFormed ty final ended
    exact (infer_keeps exprFormed).of_eq_ok satisfied ended
  · intro scope name ty final ended
    exact (inferDeclaration_keeps scope name).of_eq_ok satisfied ended ty rfl
  · rintro program final (ended | ended)
    · exact inferProgram_keeps.of_eq_ok satisfied ended
    · exact checkProgram_keeps.of_eq_ok satisfied ended

namespace Overloads

/-- An overload set with a member that has not been inferred yet. -/
def unfinished : Ty :=
  .union [Ty.float, Ty.int, .placeholder .native ⟨0⟩]

/-- The overload set is well-formed as it is. -/
theorem wellFormed : unfinished.WellFormed := by
  refine .union (by decide) (by simp [Ty.isUnion, Ty.float, Ty.int]) ?_ ?_
  · exact .cons_cons rfl (.cons_cons rfl (.singleton _))
  · simp only [List.mem_cons, List.not_mem_nil, or_false]
    rintro member (rfl | rfl | rfl)
    · exact .primitive _
    · exact .primitive _
    · exact .placeholder _ _

end Overloads

/-- Two members of an overload set become one, and the rest is in order. -/
theorem reachable_types_wellFormed_overloads :
    ∃ env : Environment,
      (env.ReachableWith .wellFormed ∧ env.binding? ⟨0⟩ = some Ty.int) ∧
        Overloads.unfinished.WellFormed ∧
        env.resolve Overloads.unfinished = .union [Ty.float, Ty.int] ∧
        (env.resolve Overloads.unfinished).WellFormed := by
  have computed :
      (Operation.performAll [.freshPlaceholder .native, .unify (.placeholder .native ⟨0⟩) Ty.int]
        (empty Options.standard)).map
          (fun env => (env.binding? ⟨0⟩, env.resolve Overloads.unfinished)) =
        some (some Ty.int, .union [Ty.float, Ty.int]) := by
    decide +kernel
  obtain ⟨env, performed, shown⟩ := Option.map_eq_some_iff.mp computed
  simp only [Prod.mk.injEq] at shown
  have reachable : env.ReachableWith .wellFormed := by
    refine ⟨_, _, ?_, performed⟩
    exact ⟨trivial, ⟨.placeholder _ _, .primitive _⟩, trivial⟩
  have ⟨_, ofTypes, _⟩ := reachable_types_wellFormed reachable
  exact ⟨env, ⟨reachable, shown.1⟩, Overloads.wellFormed, shown.2,
    (ofTypes _ Overloads.wellFormed).1.1⟩

/--
The lengths passed to `unifyLength` matter: no type is declared, written or passed in here, but
a length variable is bound to zero, and a well-formed array type resolves to one without
elements.
-/
theorem reachable_types_not_wellFormed_of_zero_length :
    ∃ env : Environment,
      Operation.performAll [.freshLength, .unifyLength (.var ⟨0⟩) (.known 0)]
          (empty Options.standard) = some env ∧
        (Ty.array Ty.int (.var ⟨0⟩)).WellFormed ∧
        env.resolve (.array Ty.int (.var ⟨0⟩)) = .array Ty.int (.known 0) ∧
        ¬ (env.resolve (.array Ty.int (.var ⟨0⟩))).WellFormed := by
  have computed :
      (Operation.performAll [.freshLength, .unifyLength (.var ⟨0⟩) (.known 0)]
        (empty Options.standard)).map (fun env => env.resolve (.array Ty.int (.var ⟨0⟩))) =
        some (.array Ty.int (.known 0)) := by
    decide +kernel
  obtain ⟨env, performed, shown⟩ := Option.map_eq_some_iff.mp computed
  refine ⟨env, performed, .array (.primitive _) trivial, shown, ?_⟩
  rw [shown]
  rintro (_ | ⟨_, positive⟩)
  exact Nat.lt_irrefl 0 positive

end Environment

end ShaderTyping
