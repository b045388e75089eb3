import ShaderTyping.Proofs.KnownTypes
import ShaderTyping.Proofs.Meet

namespace ShaderTyping

/-!
# References to constants

A type is constant if it has neither variables nor references.  A reference that stands
for a constant may be written out: nothing that inference finds later bears on it.  For
other references this fails, because inference does not look for the variables behind
them.

`Environment.unfold` writes out the references to constants and follows lengths, and two
types are alike if that makes them equal.  Overload sets are kept in an order that
writing out could change, so types with other than constant overload sets are left out
here.
-/

namespace Ty

/-- A type without variables and references, in canonical form. -/
inductive Constant : Ty → Prop where
  | primitive (kind : Primitive) : Constant (.primitive kind)
  | array {component : Ty} (count : Nat) :
      Constant component → Constant (.array component (.known count))
  | struct {fields : List (String × Ty)} :
      Sorted fields → (∀ field ∈ fields, Constant field.2) → Constant (.struct fields)
  | function {param result : Ty} :
      Constant param → Constant result → Constant (.function param result)
  | union {members : List Ty} :
      (Ty.union members).Canonical →
      (∀ member ∈ members, Constant member) →
      Constant (.union members)

/-- A type whose structs list their fields in label order and whose overload sets are constant. -/
inductive Steady : Ty → Prop where
  | primitive (kind : Primitive) : Steady (.primitive kind)
  | array {component : Ty} (length : Length) :
      Steady component → Steady (.array component length)
  | struct {fields : List (String × Ty)} :
      Sorted fields → (∀ field ∈ fields, Steady field.2) → Steady (.struct fields)
  | function {param result : Ty} :
      Steady param → Steady result → Steady (.function param result)
  | union {members : List Ty} : (Ty.union members).Constant → Steady (.union members)
  | named (scope : ScopeId) (name : String) : Steady (.named scope name)
  | placeholder (scope : ScopeId) (id : PlaceholderId) : Steady (.placeholder scope id)
  | parametric (scope : ScopeId) (label : LabelId) : Steady (.parametric scope label)

namespace Constant

variable {ty : Ty}

/-- A constant is steady. -/
theorem steady (constant : ty.Constant) : ty.Steady := by
  induction constant with
  | primitive kind => exact .primitive kind
  | array count _ inductionHypothesis => exact .array _ inductionHypothesis
  | struct sorted _ inductionHypothesis => exact .struct sorted inductionHypothesis
  | function _ _ paramHypothesis resultHypothesis =>
      exact .function paramHypothesis resultHypothesis
  | union canonical each => exact .union (.union canonical each)

/-- A constant is in canonical form. -/
theorem canonical (constant : ty.Constant) : ty.Canonical := by
  induction constant with
  | primitive kind => exact .primitive kind
  | array count _ inductionHypothesis => exact .array _ inductionHypothesis
  | struct _ _ inductionHypothesis => exact .struct inductionHypothesis
  | function _ _ paramHypothesis resultHypothesis =>
      exact .function paramHypothesis resultHypothesis
  | union canonical _ => exact canonical

/-- A constant has no variables. -/
theorem vars_eq_nil (constant : ty.Constant) : ty.vars = [] := by
  induction constant with
  | primitive kind => simp [vars, leafVars]
  | array count _ inductionHypothesis => simpa [vars, lengthVars] using inductionHypothesis
  | struct _ _ inductionHypothesis =>
      simpa [vars] using fun label ty => inductionHypothesis (label, ty)
  | function _ _ paramHypothesis resultHypothesis =>
      simpa [vars] using ⟨paramHypothesis, resultHypothesis⟩
  | union _ _ inductionHypothesis => simpa [vars] using inductionHypothesis

/-- A traversal finds nothing to replace in a constant. -/
theorem traverse
    {m : Type → Type}
    [Monad m]
    [LawfulMonad m]
    {visitor : Visitor m}
    (known : ∀ count, visitor.length (.known count) = pure (.known count))
    (constant : ty.Constant) :
    ty.traverse visitor = pure ty := by
  induction constant with
  | primitive kind => rfl
  | array count _ inductionHypothesis => simp [Ty.traverse, inductionHypothesis, known]
  | struct _ _ inductionHypothesis =>
      simp [Ty.traverse, traverseFields_eq_pure inductionHypothesis]
  | function _ _ paramHypothesis resultHypothesis =>
      simp [Ty.traverse, paramHypothesis, resultHypothesis]
  | union canonical _ inductionHypothesis =>
      simp [Ty.traverse, traverseMembers_eq_pure inductionHypothesis, canonical.ofMembers_eq]

/-- A substitution that keeps known lengths keeps a constant. -/
theorem subst
    {substitution : Substitution}
    (known : ∀ count, substitution.length (.known count) = .known count)
    (constant : ty.Constant) :
    ty.subst substitution = ty :=
  constant.traverse known

end Constant

/-- Leaves are steady. -/
theorem IsLeaf.steady {leaf : Ty} (isLeaf : leaf.IsLeaf) : leaf.Steady := by
  cases isLeaf <;> constructor

/-- A steady type is in canonical form. -/
theorem Steady.canonical {ty : Ty} (steady : ty.Steady) : ty.Canonical := by
  induction steady with
  | primitive kind => exact .primitive kind
  | array length _ inductionHypothesis => exact .array length inductionHypothesis
  | struct _ _ inductionHypothesis => exact .struct inductionHypothesis
  | function _ _ paramHypothesis resultHypothesis =>
      exact .function paramHypothesis resultHypothesis
  | union constant => exact constant.canonical
  | named scope name => exact .named scope name
  | placeholder scope id => exact .placeholder scope id
  | parametric scope label => exact .parametric scope label

/-- Putting steady types for the leaves of a steady type gives a steady type. -/
theorem Steady.subst
    {substitution : Substitution}
    (known : ∀ count, substitution.length (.known count) = .known count)
    {ty : Ty}
    (steady : ty.Steady)
    (leaves : ∀ leaf ∈ ty.leaves, (leaf.subst substitution).Steady) :
    (ty.subst substitution).Steady := by
  induction steady with
  | primitive | named | placeholder | parametric => exact leaves _ (by simp)
  | array length _ inductionHypothesis =>
      rw [leaves_array] at leaves
      rw [subst_array]
      exact .array _ (inductionHypothesis leaves)
  | struct sorted _ inductionHypothesis =>
      rw [leaves_struct, List.forall_mem_flatMap] at leaves
      rw [subst_struct]
      refine .struct (sorted.map _) (List.forall_mem_map.mpr fun field isField => ?_)
      exact inductionHypothesis field isField (leaves field isField)
  | function _ _ paramHypothesis resultHypothesis =>
      rw [leaves_function, List.forall_mem_append] at leaves
      rw [subst_function]
      exact .function (paramHypothesis leaves.1) (resultHypothesis leaves.2)
  | union constant =>
      rw [constant.subst known]
      exact .union constant

end Ty

/-- Where the second substitution puts canonical types, both together do. -/
theorem Substitution.IsCanonical.andThen
    {second : Substitution}
    (canonical : second.IsCanonical)
    (first : Substitution) :
    (first.andThen second).IsCanonical := by
  intro leaf _
  rw [← Ty.subst_subst canonical]
  exact canonical.subst _

/-! ## What references mean -/

namespace Environment

/-- An environment of declarations alone. -/
def ofDeclarations (declared : Declarations) : Environment :=
  { Environment.empty Options.standard with declared := declared }

end Environment

/-- What a reference stands for by the declarations alone. -/
def Declarations.meaning (declared : Declarations) (scope : ScopeId) (name : String) : Ty :=
  (Environment.ofDeclarations declared).expand (.named scope name)

namespace Environment

variable {env later : Environment}

/-- Whatever is known of the declarations alone is known of the environment. -/
theorem ofDeclarations_grows (env : Environment) : (ofDeclarations env.declared).Grows env where
  declared := rfl
  bindings found := by
    cases (FrameStack.placeholder?_empty _).symm.trans found
  lengths found := by
    cases (FrameStack.length?_empty _).symm.trans found

/-- The declarations alone bind no length. -/
theorem resolveLength_ofDeclarations (declared : Declarations) (length : Length) :
    (ofDeclarations declared).resolveLength length = length := by
  cases length <;> rfl

/-- Where the later of two environments has no cyclic types, the earlier one has none. -/
theorem Grows.acyclic (grows : env.Grows later) (acyclic : later.Acyclic) : env.Acyclic :=
  Table.Acyclic.of_le acyclic grows.standsFor?

/-- Lengths that are resolved alike stay so. -/
theorem Grows.resolveLength_congr
    (grows : env.Grows later)
    (consistent : later.frames.Consistent)
    {length length' : Length}
    (same : env.resolveLength length = env.resolveLength length') :
    later.resolveLength length = later.resolveLength length' := by
  rw [← grows.resolveLength_resolveLength consistent, same,
    grows.resolveLength_resolveLength consistent]

/-- A constant is expanded to itself. -/
theorem expand_constant (acyclic : env.Acyclic) {ty : Ty} (constant : ty.Constant) :
    env.expand ty = ty := by
  rw [expand_eq_subst acyclic]
  exact constant.subst fun _ => rfl

/-- What a reference to a constant stands for stays the same. -/
theorem expand_named_of_constant
    (consistent : env.frames.Consistent)
    (acyclic : env.Acyclic)
    {scope : ScopeId}
    {name : String}
    (constant : (env.declared.meaning scope name).Constant) :
    env.expand (.named scope name) = env.declared.meaning scope name := by
  have same :=
    (ofDeclarations_grows env).expand_expand .empty consistent acyclic (.named scope name)
  rw [← same]
  exact expand_constant acyclic constant

/-- Environments that declare and bind the same types expand types to the same. -/
theorem expand_congr
    {other : Environment}
    (acyclic : env.Acyclic)
    (otherAcyclic : other.Acyclic)
    (definitions : ∀ scope name, other.definition? scope name = env.definition? scope name)
    (bindings : ∀ id, other.binding? id = env.binding? id)
    (lengths : ∀ length, other.resolveLength length = env.resolveLength length)
    (ty : Ty) :
    other.expand ty = env.expand ty := by
  obtain ⟨rank, _, ranks⟩ := exists_expansionRank acyclic
  induction ty using (measure rank).wf.induction with
  | h ty inductionHypothesis =>
      rw [expand_eq_subst acyclic, expand_eq_subst otherAcyclic]
      refine Ty.subst_congr lengths fun leaf isLeaf => ?_
      cases Ty.isLeaf_of_mem_leaves isLeaf with
      | placeholder scope id =>
          simp only [Ty.subst_placeholder, expansion, bindings]
          cases found : env.binding? id with
          | none => rfl
          | some bound => exact inductionHypothesis bound (ranks.binding isLeaf found)
      | named scope name =>
          simp only [Ty.subst_named, expansion, definitions]
          cases found : env.definition? scope name with
          | none => rfl
          | some entry => exact inductionHypothesis entry.2 (ranks.definition isLeaf found)
      | primitive | parametric => simp only [Ty.subst_primitive, Ty.subst_parametric, expansion]

/-! ## Unfolding -/

open Classical in
/-- What unfolding puts for the leaves and lengths of a type. -/
noncomputable def unfolding (env : Environment) : Substitution where
  named scope name :=
    if (env.declared.meaning scope name).Constant then
      env.declared.meaning scope name
    else
      .named scope name
  placeholder := .placeholder
  parametric := .parametric
  length := env.resolveLength

/-- Write out the references to constants in a type and follow its lengths. -/
noncomputable def unfold (env : Environment) (ty : Ty) : Ty :=
  ty.subst env.unfolding

/-- A reference to a constant is written out. -/
theorem unfold_named_of_constant
    {scope : ScopeId}
    {name : String}
    (constant : (env.declared.meaning scope name).Constant) :
    env.unfold (.named scope name) = env.declared.meaning scope name :=
  if_pos constant

/-- A reference to something else is kept. -/
theorem unfold_named_of_not_constant
    {scope : ScopeId}
    {name : String}
    (notConstant : ¬ (env.declared.meaning scope name).Constant) :
    env.unfold (.named scope name) = .named scope name :=
  if_neg notConstant

/-- Writing out keeps a constant. -/
theorem unfold_constant {ty : Ty} (constant : ty.Constant) : env.unfold ty = ty :=
  constant.subst fun _ => rfl

/-- A leaf unfolds to itself, unless it is a reference to a constant. -/
theorem unfold_leaf
    {leaf : Ty}
    (isLeaf : leaf.IsLeaf) :
    env.unfold leaf = leaf ∨
      ∃ scope name,
        leaf = .named scope name ∧
          (env.declared.meaning scope name).Constant ∧
            env.unfold leaf = env.declared.meaning scope name := by
  cases isLeaf with
  | named scope name =>
      by_cases constant : (env.declared.meaning scope name).Constant
      · exact Or.inr ⟨scope, name, rfl, constant, unfold_named_of_constant constant⟩
      · exact Or.inl (unfold_named_of_not_constant constant)
  | primitive | placeholder | parametric => exact Or.inl rfl

/-- Writing out references to constants puts in types in canonical form. -/
theorem unfolding_isCanonical (env : Environment) : env.unfolding.IsCanonical := by
  intro leaf isLeaf
  change (env.unfold leaf).Canonical
  rcases unfold_leaf isLeaf with isSame | ⟨_, _, _, constant, isMeaning⟩
  · rw [isSame]
    exact isLeaf.canonical
  · rw [isMeaning]
    exact constant.canonical

/-- Writing out references keeps a type steady. -/
theorem steady_unfold {ty : Ty} (steady : ty.Steady) : (env.unfold ty).Steady := by
  refine steady.subst (fun _ => rfl) fun leaf inLeaves => ?_
  have isLeaf := Ty.isLeaf_of_mem_leaves inLeaves
  change (env.unfold leaf).Steady
  rcases unfold_leaf isLeaf with isSame | ⟨_, _, _, constant, isMeaning⟩
  · rw [isSame]
    exact isLeaf.steady
  · rw [isMeaning]
    exact constant.steady

/--
A substitution does the same to an unfolded type, if it does the same to the unfolded
leaves and lengths.
-/
theorem subst_unfold
    {substitution : Substitution}
    (canonical : substitution.IsCanonical)
    {ty : Ty}
    (lengths :
      ∀ length ∈ ty.lengths,
        substitution.length (env.resolveLength length) = substitution.length length)
    (references :
      ∀ {scope name},
        .named scope name ∈ ty.leaves →
        (env.declared.meaning scope name).Constant →
        (env.declared.meaning scope name).subst substitution =
          substitution.named scope name) :
    (env.unfold ty).subst substitution = ty.subst substitution := by
  rw [unfold, Ty.subst_subst canonical]
  refine Ty.subst_congr_of_mem lengths fun leaf inLeaves => ?_
  have isLeaf := Ty.isLeaf_of_mem_leaves inLeaves
  have composed :
      leaf.subst (env.unfolding.andThen substitution) = (env.unfold leaf).subst substitution :=
    (Ty.subst_subst canonical leaf).symm
  rw [composed]
  rcases unfold_leaf isLeaf with isSame | ⟨scope, name, rfl, constant, isMeaning⟩
  · rw [isSame]
  · rw [isMeaning, references inLeaves constant]
    rfl

/-- What an earlier environment unfolds of a type unfolds to the same. -/
theorem Grows.unfold_unfold
    (grows : env.Grows later)
    (consistent : later.frames.Consistent)
    (ty : Ty) :
    later.unfold (env.unfold ty) = later.unfold ty := by
  refine subst_unfold later.unfolding_isCanonical
    (fun length _ => grows.resolveLength_resolveLength consistent length) ?_
  intro scope name _ constant
  rw [← grows.declared] at constant ⊢
  exact (unfold_constant constant).trans (unfold_named_of_constant constant).symm

/-- Unfolding a type changes nothing about what it expands to. -/
theorem expand_unfold
    (consistent : env.frames.Consistent)
    (acyclic : env.Acyclic)
    (ty : Ty) :
    env.expand (env.unfold ty) = env.expand ty := by
  refine expand_subst consistent acyclic (resolveLength_resolveLength consistent) ?_
  intro leaf inLeaves
  change env.expand (env.unfold leaf) = env.expand leaf
  rcases unfold_leaf (Ty.isLeaf_of_mem_leaves inLeaves) with
    isSame | ⟨scope, name, rfl, constant, isMeaning⟩
  · rw [isSame]
  · rw [isMeaning, expand_constant acyclic constant,
      expand_named_of_constant consistent acyclic constant]

/-- A steady type that expands to a constant unfolds to it. -/
theorem unfold_of_expand_constant
    (acyclic : (ofDeclarations env.declared).Acyclic)
    {ty : Ty}
    (steady : ty.Steady)
    (constant : ((ofDeclarations env.declared).expand ty).Constant) :
    env.unfold ty = (ofDeclarations env.declared).expand ty := by
  induction steady with
  | primitive kind => rw [expand_primitive acyclic]; rfl
  | named scope name => exact unfold_named_of_constant constant
  | placeholder scope id =>
      have unbound : (ofDeclarations env.declared).binding? id = none :=
        FrameStack.placeholder?_empty id
      rw [expand_eq_subst acyclic] at constant
      simp only [Ty.subst_placeholder, expansion, unbound] at constant
      cases constant
  | parametric scope label =>
      rw [expand_eq_subst acyclic] at constant
      cases constant
  | @array component length _ inductionHypothesis =>
      rw [expand_array acyclic, resolveLength_ofDeclarations] at constant ⊢
      cases constant with
      | array count constant =>
          rw [← inductionHypothesis constant]
          exact Ty.subst_array ..
  | @struct fields _ _ inductionHypothesis =>
      rw [expand_struct acyclic] at constant ⊢
      cases constant with
      | struct _ each =>
          rw [unfold, Ty.subst_struct]
          refine congrArg Ty.struct (List.map_congr_left fun field isField => ?_)
          have isConstant := List.forall_mem_map.mp each field isField
          exact congrArg (field.1, ·) (inductionHypothesis field isField isConstant)
  | function _ _ paramHypothesis resultHypothesis =>
      rw [expand_function acyclic] at constant ⊢
      cases constant with
      | function param result =>
          rw [← paramHypothesis param, ← resultHypothesis result]
          exact Ty.subst_function ..
  | union isConstant => rw [expand_constant acyclic isConstant, unfold_constant isConstant]

/-- Steady types that unfold to the same type. -/
structure Matches (env : Environment) (ty ty' : Ty) : Prop where
  steady : ty.Steady
  steady' : ty'.Steady
  same : env.unfold ty = env.unfold ty'

/-- The fields of two structs, one by one. -/
def FieldsMatch (env : Environment) : List (String × Ty) → List (String × Ty) → Prop :=
  List.Forall₂ fun field field' => field'.1 = field.1 ∧ env.Matches field.2 field'.2

/-- A reference that can be written out. -/
def RefersToConstant (env : Environment) (ty : Ty) : Prop :=
  ∃ scope name, ty = .named scope name ∧ (env.declared.meaning scope name).Constant

/-- Types with the same constructor and parts that are alike. -/
inductive SameShape (env : Environment) : Ty → Ty → Prop where
  | primitive (kind : Primitive) : SameShape env (.primitive kind) (.primitive kind)
  | array {component component' : Ty} {length length' : Length} :
      env.Matches component component' →
      env.resolveLength length = env.resolveLength length' →
      SameShape env (.array component length) (.array component' length')
  | struct {fields fields' : List (String × Ty)} :
      Ty.Sorted fields →
      env.FieldsMatch fields fields' →
      SameShape env (.struct fields) (.struct fields')
  | function {param param' result result' : Ty} :
      env.Matches param param' →
      env.Matches result result' →
      SameShape env (.function param result) (.function param' result')
  | union {members : List Ty} :
      (Ty.union members).Constant → SameShape env (.union members) (.union members)
  | named (scope : ScopeId) (name : String) :
      SameShape env (.named scope name) (.named scope name)
  | placeholder (scope : ScopeId) (id : PlaceholderId) :
      SameShape env (.placeholder scope id) (.placeholder scope id)
  | parametric (scope : ScopeId) (label : LabelId) :
      SameShape env (.parametric scope label) (.parametric scope label)

/-- A type that is no reference refers to no constant. -/
theorem not_refersToConstant
    {ty : Ty}
    (notNamed : ∀ scope name, ty ≠ .named scope name) :
    ¬ env.RefersToConstant ty := by
  rintro ⟨scope, name, isNamed, _⟩
  exact notNamed scope name isNamed

/-- A reference to a constant is written out as a constant. -/
theorem RefersToConstant.constant_unfold
    {ty : Ty}
    (reference : env.RefersToConstant ty) :
    (env.unfold ty).Constant := by
  obtain ⟨scope, name, rfl, constant⟩ := reference
  rwa [unfold_named_of_constant constant]

/-- If a reference is written out as a constant, it stands for one. -/
theorem constant_of_unfold_named
    {scope : ScopeId}
    {name : String}
    (constant : (env.unfold (.named scope name)).Constant) :
    (env.declared.meaning scope name).Constant := by
  by_contra notConstant
  rw [unfold_named_of_not_constant notConstant] at constant
  cases constant

/-- A reference that is not to a constant is kept. -/
theorem unfold_named_of_not_reference
    {scope : ScopeId}
    {name : String}
    (noReference : ¬ env.RefersToConstant (.named scope name)) :
    env.unfold (.named scope name) = .named scope name :=
  unfold_named_of_not_constant fun constant => noReference ⟨scope, name, rfl, constant⟩

/-- Unfolding keeps the constructor of a type that is no reference to a constant. -/
theorem rank_unfold
    {ty : Ty}
    (steady : ty.Steady)
    (noReference : ¬ env.RefersToConstant ty) :
    (env.unfold ty).rank = ty.rank := by
  cases steady with
  | named scope name => rw [unfold_named_of_not_reference noReference]
  | union constant => rw [unfold_constant constant]
  | _ => rfl

namespace Matches

variable {ty ty' ty'' : Ty}

theorem refl (steady : ty.Steady) : env.Matches ty ty :=
  ⟨steady, steady, rfl⟩

theorem symm (alike : env.Matches ty ty') : env.Matches ty' ty :=
  ⟨alike.steady', alike.steady, alike.same.symm⟩

theorem trans (first : env.Matches ty ty') (second : env.Matches ty' ty'') : env.Matches ty ty'' :=
  ⟨first.steady, second.steady', first.same.trans second.same⟩

/-- Types that are alike stay so. -/
theorem mono
    (alike : env.Matches ty ty')
    (grows : env.Grows later)
    (consistent : later.frames.Consistent) :
    later.Matches ty ty' where
  steady := alike.steady
  steady' := alike.steady'
  same := by
    rw [← grows.unfold_unfold consistent, alike.same, grows.unfold_unfold consistent]

/-- Types that are alike have the same constructor, references to constants aside. -/
theorem sameShape
    (alike : env.Matches ty ty')
    (noReference : ¬ env.RefersToConstant ty)
    (noReference' : ¬ env.RefersToConstant ty') :
    env.SameShape ty ty' := by
  obtain ⟨steady, steady', same⟩ := alike
  have sameRank : ty.rank = ty'.rank := by
    rw [← rank_unfold steady noReference, same, rank_unfold steady' noReference']
  cases steady with
  | primitive kind =>
      cases steady' with
      | primitive kind' =>
          cases same
          exact .primitive kind
      | _ => cases sameRank
  | @array component length steady =>
      cases steady' with
      | array length' steady' =>
          simp only [unfold, Ty.subst_array, Ty.array.injEq] at same
          exact .array ⟨steady, steady', same.1⟩ same.2
      | _ => cases sameRank
  | @struct fields sorted each =>
      cases steady' with
      | @struct fields' _ each' =>
          simp only [unfold, Ty.subst_struct, Ty.struct.injEq] at same
          rw [← List.forall₂_eq_eq_eq, List.forall₂_map_left_iff, List.forall₂_map_right_iff]
            at same
          refine .struct sorted (List.forall₂_iff_zip.mpr ⟨same.length_eq, ?_⟩)
          intro field field' member
          obtain ⟨isField, isField'⟩ := List.of_mem_zip member
          obtain ⟨sameLabel, sameType⟩ := Prod.mk.inj (List.forall₂_zip same member)
          exact ⟨sameLabel.symm, each field isField, each' field' isField', sameType⟩
      | _ => cases sameRank
  | function param result =>
      cases steady' with
      | function param' result' =>
          simp only [unfold, Ty.subst_function, Ty.function.injEq] at same
          exact .function ⟨param, param', same.1⟩ ⟨result, result', same.2⟩
      | _ => cases sameRank
  | union constant =>
      cases steady' with
      | union constant' =>
          rw [unfold_constant constant, unfold_constant constant'] at same
          exact same ▸ .union constant
      | _ => cases sameRank
  | named scope name =>
      cases steady' with
      | named scope' name' =>
          rw [unfold_named_of_not_reference noReference,
            unfold_named_of_not_reference noReference'] at same
          exact same ▸ .named scope name
      | _ => cases sameRank
  | placeholder scope id =>
      cases steady' with
      | placeholder scope' id' =>
          cases same
          exact .placeholder scope id
      | _ => cases sameRank
  | parametric scope label =>
      cases steady' with
      | parametric scope' label' =>
          cases same
          exact .parametric scope label
      | _ => cases sameRank

/-- Types that are alike and no constants have the same shape. -/
theorem sameShape_of_not_constant
    (alike : env.Matches ty ty')
    (notConstant : ¬ (env.unfold ty).Constant) :
    env.SameShape ty ty' := by
  refine alike.sameShape (fun reference => ?_) fun reference => ?_
  · exact notConstant reference.constant_unfold
  · exact notConstant (alike.same ▸ reference.constant_unfold)

/-- Only a placeholder itself is like it. -/
theorem eq_placeholder
    {scope : ScopeId}
    {id : PlaceholderId}
    (alike : env.Matches (.placeholder scope id) ty') :
    ty' = .placeholder scope id := by
  cases alike.sameShape_of_not_constant (fun constant => by cases constant)
  rfl

/-- Types that are alike are both placeholders or neither. -/
theorem isPlaceholder_eq (alike : env.Matches ty ty') : ty'.isPlaceholder = ty.isPlaceholder := by
  cases ty with
  | placeholder scope id => rw [alike.eq_placeholder]
  | _ =>
      cases ty' with
      | placeholder scope id => cases alike.symm.eq_placeholder
      | _ => rfl

/-- Only a quantified type itself is like it. -/
theorem eq_parametric
    {scope : ScopeId}
    {label : LabelId}
    (alike : env.Matches (.parametric scope label) ty') :
    ty' = .parametric scope label := by
  cases alike.sameShape_of_not_constant (fun constant => by cases constant)
  rfl

/-- A reference to anything else than a constant is alike to itself alone. -/
theorem eq_named
    {scope : ScopeId}
    {name : String}
    (alike : env.Matches (.named scope name) ty')
    (noReference : ¬ env.RefersToConstant (.named scope name)) :
    ty' = .named scope name := by
  have notConstant : ¬ (env.unfold (.named scope name)).Constant := fun constant =>
    noReference ⟨scope, name, rfl, constant_of_unfold_named constant⟩
  cases alike.sameShape_of_not_constant notConstant
  rfl

/-- Arrays that are alike have components that are alike and the same length. -/
theorem of_array
    {component component' : Ty}
    {length length' : Length}
    (alike : env.Matches (.array component length) (.array component' length')) :
    env.Matches component component' ∧ env.resolveLength length = env.resolveLength length' := by
  cases alike.sameShape (not_refersToConstant (by simp)) (not_refersToConstant (by simp)) with
  | array alike sameLength => exact ⟨alike, sameLength⟩

/-- Structs that are alike have the same labels in order and fields that are alike. -/
theorem of_struct
    {fields fields' : List (String × Ty)}
    (alike : env.Matches (.struct fields) (.struct fields')) :
    Ty.Sorted fields ∧ env.FieldsMatch fields fields' := by
  cases alike.sameShape (not_refersToConstant (by simp)) (not_refersToConstant (by simp)) with
  | struct sorted alike => exact ⟨sorted, alike⟩

/-- Functions that are alike have parameters and results that are alike. -/
theorem of_function
    {param param' result result' : Ty}
    (alike : env.Matches (.function param result) (.function param' result')) :
    env.Matches param param' ∧ env.Matches result result' := by
  cases alike.sameShape (not_refersToConstant (by simp)) (not_refersToConstant (by simp)) with
  | function alikeParam alikeResult => exact ⟨alikeParam, alikeResult⟩

/-- Arrays of types that are alike, with the same length, are alike. -/
theorem array
    {component component' : Ty}
    {length length' : Length}
    (alike : env.Matches component component')
    (sameLength : env.resolveLength length = env.resolveLength length') :
    env.Matches (.array component length) (.array component' length') where
  steady := .array _ alike.steady
  steady' := .array _ alike.steady'
  same := congrArg₂ Ty.array alike.same sameLength

/-- Functions between types that are alike are alike. -/
theorem function
    {param param' result result' : Ty}
    (param_alike : env.Matches param param')
    (result_alike : env.Matches result result') :
    env.Matches (.function param result) (.function param' result') where
  steady := .function param_alike.steady result_alike.steady
  steady' := .function param_alike.steady' result_alike.steady'
  same := congrArg₂ Ty.function param_alike.same result_alike.same

/-- Structs in label order with fields that are alike are alike. -/
theorem struct
    {fields fields' : List (String × Ty)}
    (sorted : Ty.Sorted fields)
    (alike : env.FieldsMatch fields fields') :
    env.Matches (.struct fields) (.struct fields') := by
  have labels : fields'.map Prod.fst = fields.map Prod.fst :=
    Ty.map_fst_of_forall₂ (alike.imp fun _ _ related => related.1)
  have steady : ∀ field ∈ fields, field.2.Steady :=
    ((List.forall₂_and_left _ _).mp
      (alike.imp fun _ _ related => ⟨related.2.steady, related⟩)).1
  have steady' : ∀ field ∈ fields', field.2.Steady :=
    ((List.forall₂_and_left _ _).mp
      (alike.flip.imp fun _ _ related => ⟨related.2.steady', related⟩)).1
  refine ⟨.struct sorted steady, .struct (sorted.of_labels (by rw [labels])) steady', ?_⟩
  rw [unfold, unfold, Ty.subst_struct, Ty.subst_struct, Ty.struct.injEq,
    ← List.forall₂_eq_eq_eq, List.forall₂_map_left_iff, List.forall₂_map_right_iff]
  exact alike.imp fun _ _ related => Prod.ext related.1.symm related.2.same

end Matches

/-! ## Sound environments -/

/-- Nothing leads back to itself, and what is declared is steady. -/
structure Sound (env : Environment) : Prop where
  consistent : env.frames.Consistent
  acyclic : env.Acyclic
  definitions :
    ∀ {scope name key definition},
      env.definition? scope name = some (key, definition) → definition.Steady

namespace Sound

/-- The head of a type is no reference to a constant: that would have been followed. -/
theorem not_refersToConstant_head (sound : env.Sound) (ty : Ty) :
    ¬ env.RefersToConstant (env.head ty) := by
  rintro ⟨scope, name, isNamed, constant⟩
  have blankAcyclic := (ofDeclarations_grows env).acyclic sound.acyclic
  have undeclared : (ofDeclarations env.declared).definition? scope name = none :=
    definition?_of_head_eq sound.acyclic isNamed
  rw [Declarations.meaning, expand_eq_subst blankAcyclic] at constant
  simp only [Ty.subst_named, expansion, undeclared] at constant
  cases constant

/-- A reference to a constant is followed to a type that is alike. -/
theorem head_of_reference
    (sound : env.Sound)
    {ty : Ty}
    (reference : env.RefersToConstant ty) :
    env.Matches ty (env.head ty) ∧ ∀ scope name, env.head ty ≠ .named scope name := by
  have blankAcyclic := (ofDeclarations_grows env).acyclic sound.acyclic
  have isConstant := reference.constant_unfold
  have followed : env.Matches ty (env.head ty) := by
    have steady : ty.Steady := by
      obtain ⟨scope, name, rfl, _⟩ := reference
      exact .named scope name
    refine head_induction (motive := env.Matches ty) ?_ (.refl steady)
    intro leaf next alike stands
    rw [alike.same] at isConstant
    cases leaf with
    | placeholder scope id => cases isConstant
    | named scope name =>
        have constant := constant_of_unfold_named isConstant
        obtain ⟨⟨key, definition⟩, isDefined, rfl⟩ := Option.map_eq_some_iff.mp stands
        have expands :
            env.declared.meaning scope name =
              (ofDeclarations env.declared).expand definition :=
          expand_of_standsFor? blankAcyclic stands
        have steadyDefinition := sound.definitions isDefined
        refine ⟨steady, steadyDefinition, ?_⟩
        rw [alike.same, unfold_named_of_constant constant, expands,
          unfold_of_expand_constant blankAcyclic steadyDefinition (expands ▸ constant)]
    | _ => cases stands
  refine ⟨followed, fun scope name isNamed => sound.not_refersToConstant_head ty ?_⟩
  rw [followed.same, isNamed] at isConstant
  exact ⟨scope, name, isNamed, constant_of_unfold_named isConstant⟩

end Sound

end Environment

end ShaderTyping
