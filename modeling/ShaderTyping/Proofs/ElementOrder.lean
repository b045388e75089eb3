import ShaderTyping.Proofs.ConcreteTypes

namespace ShaderTyping

/-!
# The order of array elements

Without structs, what two concrete types agree on is the least type that both widen to: `int`
widens to `float`, arrays and functions widen in their parts, and all other types only to
themselves.  The elements of an array therefore agree on the least type that all of them widen
to (`Ty.foldlM_meet?_eq_some_iff`), which does not depend on their order.  Structs are met by
dropping fields, and with a field less the elements before and after may agree or not.
-/

namespace Ty

/-- A concrete type in which there is no struct. -/
inductive Structless : Ty → Prop where
  | primitive (kind : Primitive) : Structless (.primitive kind)
  | array {component : Ty} (count : Nat) :
      Structless component → Structless (.array component (.known count))
  | function {param result : Ty} :
      Structless param → Structless result → Structless (.function param result)
  | union {members : List Ty} :
      (∀ member ∈ members, Structless member) → Structless (.union members)
  | parametric (scope : ScopeId) (label : LabelId) : Structless (.parametric scope label)

/-- Types without structs are concrete here: they have neither variables nor references. -/
theorem Structless.concrete {ty : Ty} (structless : ty.Structless) : ty.Concrete := by
  induction structless with
  | primitive kind => exact .primitive kind
  | array count _ component => exact .array count component
  | function _ _ param result => exact .function param result
  | union _ members => exact .union members
  | parametric scope label => exact .parametric scope label

/-- A type can be made into another one by replacing `int` with `float` in some places. -/
inductive Widens : Ty → Ty → Prop where
  | refl (ty : Ty) : Widens ty ty
  | int_float : Widens int float
  | array {component wider : Ty} (length : Length) :
      Widens component wider → Widens (.array component length) (.array wider length)
  | function {param widerParam result widerResult : Ty} :
      Widens param widerParam →
      Widens result widerResult →
      Widens (.function param result) (.function widerParam widerResult)

namespace Widens

/-- An array widens to arrays of the same length only. -/
theorem of_array
    {component wide : Ty}
    {length : Length}
    (widens : Widens (.array component length) wide) :
    ∃ wider, wide = .array wider length ∧ Widens component wider := by
  cases widens with
  | refl => exact ⟨component, rfl, .refl component⟩
  | array _ inner => exact ⟨_, rfl, inner⟩

/-- Only arrays of the same length widen to an array. -/
theorem to_array
    {narrow wider : Ty}
    {length : Length}
    (widens : Widens narrow (.array wider length)) :
    ∃ component, narrow = .array component length ∧ Widens component wider := by
  cases widens with
  | refl => exact ⟨wider, rfl, .refl wider⟩
  | array _ inner => exact ⟨_, rfl, inner⟩

/-- A function widens to functions only. -/
theorem of_function
    {param result wide : Ty}
    (widens : Widens (.function param result) wide) :
    ∃ widerParam widerResult,
      wide = .function widerParam widerResult ∧
        Widens param widerParam ∧
        Widens result widerResult := by
  cases widens with
  | refl => exact ⟨param, result, rfl, .refl param, .refl result⟩
  | function ofParam ofResult => exact ⟨_, _, rfl, ofParam, ofResult⟩

/-- Only functions widen to a function. -/
theorem to_function
    {narrow widerParam widerResult : Ty}
    (widens : Widens narrow (.function widerParam widerResult)) :
    ∃ param result,
      narrow = .function param result ∧
        Widens param widerParam ∧
        Widens result widerResult := by
  cases widens with
  | refl => exact ⟨widerParam, widerResult, rfl, .refl widerParam, .refl widerResult⟩
  | function ofParam ofResult => exact ⟨_, _, rfl, ofParam, ofResult⟩

theorem trans
    {first second third : Ty}
    (before : Widens first second)
    (after : Widens second third) :
    Widens first third := by
  induction before generalizing third with
  | refl => exact after
  | int_float =>
      cases after with
      | refl => exact .int_float
  | array length _ inductionHypothesis =>
      obtain ⟨wider, rfl, inner⟩ := after.of_array
      exact .array length (inductionHypothesis inner)
  | function _ _ paramHypothesis resultHypothesis =>
      obtain ⟨widerParam, widerResult, rfl, ofParam, ofResult⟩ := after.of_function
      exact .function (paramHypothesis ofParam) (resultHypothesis ofResult)

/-- Types that widen to each other are the same. -/
theorem antisymm
    {first second : Ty}
    (before : Widens first second)
    (after : Widens second first) :
    first = second := by
  induction before with
  | refl => rfl
  | int_float => cases after
  | array length _ inductionHypothesis =>
      obtain ⟨_, ⟨⟩, inner⟩ := after.of_array
      rw [inductionHypothesis inner]
  | function _ _ paramHypothesis resultHypothesis =>
      obtain ⟨_, _, ⟨⟩, ofParam, ofResult⟩ := after.of_function
      rw [paramHypothesis ofParam, resultHypothesis ofResult]

/-- A structless type widens to structless types. -/
theorem structless
    {narrow wide : Ty}
    (widens : Widens narrow wide)
    (structless : narrow.Structless) :
    wide.Structless := by
  induction widens with
  | refl => exact structless
  | int_float => exact .primitive .float
  | array length _ inductionHypothesis =>
      cases structless with
      | array count component => exact .array count (inductionHypothesis component)
  | function _ _ paramHypothesis resultHypothesis =>
      cases structless with
      | function param result =>
          exact .function (paramHypothesis param) (resultHypothesis result)

end Widens

/-! ## What two types agree on is the least type that both widen to -/

/-- Two types widen to what they agree on. -/
theorem widens_of_meet?_eq_some
    {left right met : Ty}
    (structless : left.Structless)
    (agreed : left.meet? right = some met) :
    left.Widens met ∧ right.Widens met := by
  have agree := agreeOn_of_meet? agreed
  induction structless generalizing right met with
  | primitive kind =>
      cases agree with
      | same => exact ⟨.refl _, .refl _⟩
      | int_float => exact ⟨.int_float, .refl float⟩
      | float_int => exact ⟨.refl float, .int_float⟩
  | array count _ inductionHypothesis =>
      cases agree with
      | same => exact ⟨.refl _, .refl _⟩
      | array _ componentAgreed =>
          have inner := inductionHypothesis componentAgreed (agreeOn_of_meet? componentAgreed)
          exact ⟨.array _ inner.1, .array _ inner.2⟩
  | function _ _ paramHypothesis resultHypothesis =>
      cases agree with
      | same => exact ⟨.refl _, .refl _⟩
      | function paramAgreed resultAgreed =>
          have ofParam := paramHypothesis paramAgreed (agreeOn_of_meet? paramAgreed)
          have ofResult := resultHypothesis resultAgreed (agreeOn_of_meet? resultAgreed)
          exact ⟨.function ofParam.1 ofResult.1, .function ofParam.2 ofResult.2⟩
  | union _ _ =>
      cases agree with
      | same => exact ⟨.refl _, .refl _⟩
  | parametric scope label =>
      cases agree with
      | same => exact ⟨.refl _, .refl _⟩

/-- A type and one that widens to it agree on the former. -/
theorem meet?_of_widens
    {narrow wide : Ty}
    (widens : narrow.Widens wide) :
    wide.meet? narrow = some wide := by
  induction widens with
  | refl => exact meet?_self _
  | int_float => rfl
  | array length _ inductionHypothesis => exact meet?_array inductionHypothesis length
  | function _ _ paramHypothesis resultHypothesis =>
      exact meet?_function paramHypothesis resultHypothesis

/-- Two types that widen to a third one agree on a type that does. -/
theorem exists_meet?_of_widens
    {left right wide : Ty}
    (leftWidens : left.Widens wide)
    (rightWidens : right.Widens wide) :
    ∃ met, left.meet? right = some met ∧ met.Widens wide := by
  induction leftWidens generalizing right with
  | refl ty => exact ⟨ty, meet?_of_widens rightWidens, .refl ty⟩
  | int_float =>
      cases rightWidens with
      | refl => exact ⟨float, rfl, .refl float⟩
      | int_float => exact ⟨int, rfl, .int_float⟩
  | array length _ inductionHypothesis =>
      obtain ⟨component, rfl, inner⟩ := rightWidens.to_array
      obtain ⟨met, agreed, widens⟩ := inductionHypothesis inner
      exact ⟨_, meet?_array agreed length, .array length widens⟩
  | function _ _ paramHypothesis resultHypothesis =>
      obtain ⟨param, result, rfl, ofParam, ofResult⟩ := rightWidens.to_function
      obtain ⟨metParam, paramAgreed, paramWidens⟩ := paramHypothesis ofParam
      obtain ⟨metResult, resultAgreed, resultWidens⟩ := resultHypothesis ofResult
      exact ⟨_, meet?_function paramAgreed resultAgreed, .function paramWidens resultWidens⟩

/-- What two types agree on widens to all that both of them widen to. -/
theorem widens_iff_of_meet?_eq_some
    {left right met wide : Ty}
    (structless : left.Structless)
    (agreed : left.meet? right = some met) :
    met.Widens wide ↔ left.Widens wide ∧ right.Widens wide := by
  have ⟨leftWidens, rightWidens⟩ := widens_of_meet?_eq_some structless agreed
  constructor
  · exact fun widens => ⟨leftWidens.trans widens, rightWidens.trans widens⟩
  · rintro ⟨ofLeft, ofRight⟩
    obtain ⟨other, alsoAgreed, widens⟩ := exists_meet?_of_widens ofLeft ofRight
    cases agreed.symm.trans alsoAgreed
    exact widens

/-- The least type that all of some types widen to. -/
structure LeastWider (types : List Ty) (wide : Ty) : Prop where
  wider : ∀ ty ∈ types, ty.Widens wide
  least : ∀ other : Ty, (∀ ty ∈ types, ty.Widens other) → wide.Widens other

namespace LeastWider

/-- A type alone is the least one that it widens to. -/
theorem of_only (ty : Ty) : LeastWider [ty] ty where
  wider _ member := List.mem_singleton.mp member ▸ .refl ty
  least _ wider := wider ty (List.mem_singleton_self ty)

/-- There is one least type at most. -/
theorem unique
    {types : List Ty}
    {wide other : Ty}
    (first : LeastWider types wide)
    (second : LeastWider types other) :
    wide = other :=
  (first.least other second.wider).antisymm (second.least wide first.wider)

/-- Only what the types can widen to matters. -/
theorem congr
    {types others : List Ty}
    (same :
      ∀ wide : Ty, (∀ ty ∈ types, ty.Widens wide) ↔ ∀ ty ∈ others, ty.Widens wide)
    {wide : Ty} :
    LeastWider types wide ↔ LeastWider others wide := by
  constructor
  · rintro ⟨wider, least⟩
    exact ⟨(same wide).mp wider, fun other bounds => least other ((same other).mpr bounds)⟩
  · rintro ⟨wider, least⟩
    exact ⟨(same wide).mpr wider, fun other bounds => least other ((same other).mp bounds)⟩

end LeastWider

/-- Types are met one after the other in the least type that they all widen to. -/
theorem foldlM_meet?_eq_some_iff
    {first wide : Ty}
    {rest : List Ty}
    (structless : ∀ ty ∈ first :: rest, ty.Structless) :
    rest.foldlM meet? first = some wide ↔ LeastWider (first :: rest) wide := by
  induction rest generalizing first with
  | nil =>
      rw [List.foldlM_nil]
      constructor
      · rintro ⟨⟩
        exact .of_only wide
      · intro isLeast
        rw [isLeast.unique (.of_only first)]
        rfl
  | cons second rest inductionHypothesis =>
      obtain ⟨firstStructless, secondStructless, restStructless⟩ :
          first.Structless ∧ second.Structless ∧ ∀ ty ∈ rest, ty.Structless := by
        simpa only [List.forall_mem_cons] using structless
      -- The first two types can be replaced with what they agree on.
      have ofMet
          {met : Ty}
          (agreed : first.meet? second = some met) :
          rest.foldlM meet? met = some wide ↔ LeastWider (first :: second :: rest) wide := by
        have firstWidens := (widens_of_meet?_eq_some firstStructless agreed).1
        have metStructless := firstWidens.structless firstStructless
        rw [inductionHypothesis (List.forall_mem_cons.mpr ⟨metStructless, restStructless⟩)]
        refine LeastWider.congr fun other => ?_
        simp only [List.forall_mem_cons, widens_iff_of_meet?_eq_some firstStructless agreed,
          and_assoc]
      rw [List.foldlM_cons, Option.bind_eq_bind, Option.bind_eq_some_iff]
      constructor
      · rintro ⟨met, agreed, folded⟩
        exact (ofMet agreed).mp folded
      · intro isLeast
        obtain ⟨met, agreed, _⟩ :=
          exists_meet?_of_widens (isLeast.wider first (by simp)) (isLeast.wider second (by simp))
        exact ⟨met, agreed, (ofMet agreed).mpr isLeast⟩

end Ty

/-! ## Unifying elements one after the other -/

/-- Unifying elements one after the other yields what they agree on. -/
theorem foldlM_unify_yields
    {first : Ty}
    {rest : List Ty}
    (structless : ∀ ty ∈ first :: rest, ty.Structless)
    (env : Environment) :
    Action.Yields Environment.SameUntraced (rest.foldlM unify first) env
      (rest.foldlM Ty.meet? first) := by
  obtain ⟨firstStructless, restStructless⟩ := List.forall_mem_cons.mp structless
  refine .foldlM ?_ ?_ firstStructless
  · intro element isElement component met componentStructless agreed
    exact (Ty.widens_of_meet?_eq_some componentStructless agreed).1.structless componentStructless
  · intro element isElement component componentStructless
    exact unify_yields componentStructless.concrete (restStructless element isElement).concrete

/--
Concrete types without structs can be unified one after the other in any order: the result is
the least type that all of them widen to, and there is none if they widen to no common type.
-/
theorem elements_agree_in_any_order
    {first first' : Ty}
    {rest rest' : List Ty}
    (structless : ∀ ty ∈ first :: rest, ty.Structless)
    (permuted : (first :: rest).Perm (first' :: rest'))
    (env : Environment) :
    (∀ ty,
      (∃ final, rest.foldlM unify first env = .ok ty final) ↔
        ∃ final, rest'.foldlM unify first' env = .ok ty final) ∧
    (∀ ty,
      (∃ final, rest.foldlM unify first env = .ok ty final) ↔
        Ty.LeastWider (first :: rest) ty) ∧
    rest.foldlM unify first env ≠ .exhausted ∧
    rest'.foldlM unify first' env ≠ .exhausted := by
  have structless' : ∀ ty ∈ first' :: rest', ty.Structless :=
    fun ty member => structless ty (permuted.mem_iff.mpr member)
  have yields := foldlM_unify_yields structless env
  have yields' := foldlM_unify_yields structless' env
  have isLeast (ty : Ty) :
      (∃ final, rest.foldlM unify first env = .ok ty final) ↔
        Ty.LeastWider (first :: rest) ty :=
    (yields.exists_ok_iff ty).trans (Ty.foldlM_meet?_eq_some_iff structless)
  have isLeast' (ty : Ty) :
      (∃ final, rest'.foldlM unify first' env = .ok ty final) ↔
        Ty.LeastWider (first' :: rest') ty :=
    (yields'.exists_ok_iff ty).trans (Ty.foldlM_meet?_eq_some_iff structless')
  have sameLeast (ty : Ty) :
      Ty.LeastWider (first :: rest) ty ↔ Ty.LeastWider (first' :: rest') ty :=
    Ty.LeastWider.congr fun wide => by simp only [permuted.mem_iff]
  exact ⟨fun ty => (isLeast ty).trans ((sameLeast ty).trans (isLeast' ty).symm), isLeast,
    yields.ne_exhausted, yields'.ne_exhausted⟩

/-- Three functions that widen to one from `float` to `float`. -/
theorem elements_agree_in_any_order_functions :
    ∃ elements permutation : List Ty,
      (∀ ty ∈ Ty.function Ty.int Ty.float :: elements, ty.Structless) ∧
        (Ty.function Ty.int Ty.float :: elements).Perm
          (Ty.function Ty.int Ty.int :: permutation) ∧
        (∃ final, elements.foldlM unify (.function Ty.int Ty.float)
          (Environment.empty Options.standard) = .ok (.function Ty.float Ty.float) final) ∧
        ∃ final, permutation.foldlM unify (.function Ty.int Ty.int)
          (Environment.empty Options.standard) = .ok (.function Ty.float Ty.float) final := by
  let elements := [Ty.function Ty.float Ty.int, .function Ty.int Ty.int]
  let permutation := [Ty.function Ty.int Ty.float, .function Ty.float Ty.int]
  have structless : ∀ ty ∈ Ty.function Ty.int Ty.float :: elements, ty.Structless := by
    simp only [elements, List.mem_cons, List.not_mem_nil, or_false]
    rintro ty (rfl | rfl | rfl) <;> exact .function (.primitive _) (.primitive _)
  have permuted :
      (Ty.function Ty.int Ty.float :: elements).Perm
        (Ty.function Ty.int Ty.int :: permutation) := by
    decide
  have yields := foldlM_unify_yields structless (Environment.empty Options.standard)
  have folded := (yields.exists_ok_iff (.function Ty.float Ty.float)).mpr (by decide)
  have sameTypes :=
    (elements_agree_in_any_order structless permuted (Environment.empty Options.standard)).1
  exact ⟨elements, permutation, structless, permuted, folded, (sameTypes _).mp folded⟩

/-- With structs the order matters: a struct with fewer fields hides one on which others differ. -/
example :
    let first := Ty.struct [("a", Ty.int), ("b", Ty.int)]
    let fewer := Ty.struct [("b", Ty.int)]
    let other := Ty.struct [("a", Ty.bool), ("b", Ty.int)]
    [fewer, other].foldlM Ty.meet? first = some fewer ∧
      [other, fewer].foldlM Ty.meet? first = none := by
  decide

end ShaderTyping
