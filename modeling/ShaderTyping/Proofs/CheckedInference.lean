import ShaderTyping.Proofs.CheckedUnification

namespace ShaderTyping

/-!
# Inference of checked programs

Inference of a checked program reaches only expressions inside declared variables
and only types that the declarations cover.  So it finds every variable and every
type it asks for, and what it would do about a reference that stands for no type
does not matter.  The type of an expression is recorded after the types of its
parts.
-/

open Environment (Run QuietRun)
open ShaderTyping.Action (Accords Obeys)

/-! ## Changes of the context -/

namespace Environment

/-- Another context keeps an environment checked if the provisional types in it are covered. -/
theorem Checked.withContext
    {declared : Declarations}
    {known : List ExprId}
    {env : Environment}
    (checked : env.Checked declared known)
    {context : Context}
    (covered : ∀ entry ∈ context.inProgress, declared.Covers entry.2) :
    ({ env with context := context } : Environment).Checked declared known := by
  refine checked.of_same rfl ?_ checked.consistent ?_ fun _ => rfl
  · exact ⟨checked.satisfied.declared, checked.satisfied.frames, covered⟩
  · exact checked.acyclic.congr (standsFor?_congr rfl fun _ => rfl)

end Environment

/-! ## Rules -/

namespace Inference

/--
Two ways to infer the types of declared expressions do the same in checked
environments, and they record the type.
-/
def InferAccords (declared : Declarations) (first second : Infer) : Prop :=
  ∀ {expr known env}, expr ∈ declared.nodes →
    Accords declared InferError.Resolved known (first expr) (second expr) (expr.id :: known)
      declared.Covers env

variable {declared : Declarations} {known : List ExprId} {env : Environment}
  {dangling : Dangling} {infer infer' : Infer}

/-- Blaming an expression for an error keeps that actions accord. -/
theorem blame_accords
    {first second : Action UnifyError α}
    {made : List ExprId}
    {post : α → Prop}
    (expr : Expr)
    (accords : Accords declared UnifyError.Resolved known first second made post env) :
    Accords declared InferError.Resolved known (blame expr first) (blame expr second) made post
      env := by
  refine accords.mapError fun {cause} resolved => ⟨nofun, fun name isCause => ?_⟩
  exact resolved name (InferCause.unify.inj isCause)

/-- Trying two covered types accords. -/
theorem unifyEither_accords
    {first second ty : Ty}
    (firstCovers : declared.Covers first)
    (secondCovers : declared.Covers second)
    (covers : declared.Covers ty) :
    Accords declared UnifyError.Resolved known (@unifyEither dangling first second ty)
      (@unifyEither .refused first second ty) known declared.Covers env := by
  refine .bind (.attempt_transaction (unify_accords firstCovers covers) (unify_run _ _ _))
    fun {result _} tried => ?_
  cases result with
  | ok agreed => exact .pure (tried.1 agreed rfl)
  | error cause =>
      exact .mapError (.transaction (unify_accords secondCovers covers) (unify_run _ _ _))
        fun _ => tried.2 cause rfl

/-- A length expression is refused only for a length that is not positive. -/
theorem shownLength_resolved
    {expr : Expr}
    {cause : InferCause}
    (refused : shownLength expr = .error cause) :
    (InferError.ofExpr expr cause).Resolved := by
  unfold shownLength at refused
  split at refused
  · split at refused
    · cases refused
      exact ⟨nofun, nofun⟩
    · cases refused
  · split at refused
    · cases refused
      exact ⟨nofun, nofun⟩
    · cases refused
  · cases refused

section Rules

variable (inferAccords : InferAccords declared infer infer')
include inferAccords

/-- A fresh instance of an inferred type accords. -/
theorem inferInstance_accords
    {expr : Expr}
    (member : expr ∈ declared.nodes) :
    Accords declared InferError.Resolved known (inferInstance infer expr)
      (inferInstance infer' expr) (expr.id :: known) declared.Covers env :=
  .bind (inferAccords member) fun covers =>
    Environment.instantiate_accords covers

/-- Fresh instances of the types of several expressions accord and record them all. -/
theorem mapM_inferInstance_accords
    {exprs : List Expr}
    (members : ∀ expr ∈ exprs, expr ∈ declared.nodes) :
    Accords declared InferError.Resolved known (exprs.mapM (inferInstance infer))
      (exprs.mapM (inferInstance infer')) (exprs.map Expr.id ++ known)
      (fun types => ∀ ty ∈ types, declared.Covers ty) env := by
  rw [List.map_eq_flatMap]
  refine (Accords.mapM _ (fun _ ty => declared.Covers ty) fun expr isExpr => ?_).imp
    fun related ty isType => ?_
  · exact inferInstance_accords inferAccords (members expr isExpr)
  · obtain ⟨_, _, covers⟩ := exists_of_forall₂ related isType
    exact covers

/-- The rule of arrays accords; the elements are recorded. -/
theorem inferArray_accords
    (expr : Expr)
    {elements : List Expr}
    (members : ∀ element ∈ elements, element ∈ declared.nodes) :
    Accords declared InferError.Resolved known (@inferArray dangling infer expr elements)
      (@inferArray .refused infer' expr elements) (elements.map Expr.id ++ known) declared.Covers
      env := by
  cases elements with
  | nil => exact .fail ⟨nofun, nofun⟩
  | cons first rest =>
      obtain ⟨firstMember, restMembers⟩ := List.forall_mem_cons.mp members
      rw [List.map_eq_flatMap]
      refine .bind (inferInstance_accords inferAccords firstMember) fun componentCovers => ?_
      refine .bind (.foldlM (fun element => [element.id]) componentCovers
        fun element isElement _ _ _ componentCovers => ?_) fun componentCovers => ?_
      · refine .bind (inferInstance_accords inferAccords (restMembers element isElement))
          fun elementCovers => ?_
        exact blame_accords _ (unify_accords componentCovers elementCovers)
      · refine .bind (Environment.generalize_accords componentCovers) fun generalCovers => ?_
        refine .mono (.pure ?_) (by simp)
        exact (Ty.Invariant.covered declared).array.mpr ⟨generalCovers, trivial⟩

/-- The rule of accesses accords; the array and the position are recorded. -/
theorem inferIndex_accords
    (expr : Expr)
    {base position : Expr}
    (baseMember : base ∈ declared.nodes)
    (positionMember : position ∈ declared.nodes) :
    Accords declared InferError.Resolved known (@inferIndex dangling infer expr base position)
      (@inferIndex .refused infer' expr base position) (base.id :: position.id :: known)
      declared.Covers env := by
  let rule := Ty.Invariant.covered declared
  refine .bind (inferInstance_accords inferAccords positionMember) fun positionCovers => ?_
  refine .bind (blame_accords _ (unify_accords (rule.primitive .int) positionCovers)) fun _ => ?_
  refine .bind (inferInstance_accords inferAccords baseMember) fun baseCovers => ?_
  refine .bind (Environment.freshPlaceholder_accords _)
    fun {component _} componentCovers => ?_
  refine .bind Environment.freshLength_accords fun {length _} _ => ?_
  have arrayCovers : declared.Covers (.array component length) :=
    rule.array.mpr ⟨componentCovers, trivial⟩
  refine .bind (blame_accords _ (unify_accords baseCovers arrayCovers)) fun _ => ?_
  exact Environment.generalize_accords componentCovers

/-- The rule of structs accords; the values of the fields are recorded. -/
theorem inferStruct_accords
    (expr : Expr)
    {fields : List (String × Expr)}
    (members : ∀ value ∈ fields.map Prod.snd, value ∈ declared.nodes) :
    Accords declared InferError.Resolved known (inferStruct infer expr fields)
      (inferStruct infer' expr fields) ((fields.map Prod.snd).map Expr.id ++ known)
      declared.Covers env := by
  unfold inferStruct
  split
  · exact .fail ⟨nofun, nofun⟩
  · rename_i notEmpty
    split
    · exact .fail ⟨nofun, nofun⟩
    · have fieldAccords :
          ∀ field ∈ fields, ∀ {known env},
            Accords declared InferError.Resolved known
              (do
                let ty ← inferInstance infer field.2
                let ty ← Environment.generalize ty
                pure (field.1, ty) : Action InferError (String × Ty))
              (do
                let ty ← inferInstance infer' field.2
                let ty ← Environment.generalize ty
                pure (field.1, ty) : Action InferError (String × Ty))
              ([field.2.id] ++ known) (fun typed => declared.Covers typed.2) env := by
        intro field isField known env
        have valueMember := members field.2 (List.mem_map_of_mem isField)
        refine .bind (inferInstance_accords inferAccords valueMember) fun covers => ?_
        refine .bind (Environment.generalize_accords covers) fun generalCovers => ?_
        exact .pure generalCovers
      rw [List.map_map, List.map_eq_flatMap]
      refine .bind (.mapM _ _ fieldAccords) fun {typed _} related => ?_
      refine .pure ((Ty.Invariant.covered declared).ofFields ?_ fun field isField => ?_)
      · rintro rfl
        exact notEmpty (List.isEmpty_iff.mpr (List.forall₂_nil_right_iff.mp related))
      · obtain ⟨_, _, covers⟩ := exists_of_forall₂ related isField
        exact covers

/-- The rule of field accesses accords; the struct is recorded. -/
theorem inferField_accords
    (expr : Expr)
    {base : Expr}
    (member : base ∈ declared.nodes)
    (label : String) :
    Accords declared InferError.Resolved known (@inferField dangling infer expr base label)
      (@inferField .refused infer' expr base label) (base.id :: known) declared.Covers env := by
  let rule := Ty.Invariant.covered declared
  refine .bind (inferInstance_accords inferAccords member) fun baseCovers => ?_
  refine .bind (Environment.freshPlaceholder_accords _) fun {slot _} slotCovers => ?_
  have structCovers : declared.Covers (.struct [(label, slot)]) :=
    rule.ofFields (List.cons_ne_nil (label, slot) []) (List.forall_mem_singleton.mpr slotCovers)
  refine .bind (blame_accords _ (unify_accords baseCovers structCovers)) fun _ => ?_
  exact Environment.generalize_accords slotCovers

/-- The rule of functions accords; the body is recorded. -/
theorem inferFunction_accords
    (expr : Expr)
    {params : List Parameter}
    {body : Expr}
    (paramsCover : ∀ param ∈ params, ∀ ty ∈ param.ascription, declared.Covers ty)
    (member : body ∈ declared.nodes) :
    Accords declared InferError.Resolved known (inferFunction infer expr params body)
      (inferFunction infer' expr params body) (body.id :: known) declared.Covers env := by
  refine .bind (.ofState (openParameters_keeps _ _ _ paramsCover) (openParameters_run _ _ _ _ _))
    fun {types env} typesCover => ?_
  have inside :
      Accords declared InferError.Resolved known
        (withActiveParams types (inferInstance infer body))
        (withActiveParams types (inferInstance infer' body)) (body.id :: known) declared.Covers
        env :=
    .between (inferInstance_accords inferAccords member)
      (fun checked => checked.withContext checked.satisfied.inProgress)
      (fun checked => checked.withContext checked.satisfied.inProgress)
  refine .bind inside fun resultCovers => .bind_environment (.of_checked fun checked => ?_)
  refine .pure ((Ty.Invariant.covered declared).curried (fun param isParam => ?_) resultCovers)
  obtain ⟨ty, isType, rfl⟩ := List.mem_map.mp isParam
  exact checked.satisfied.resolve (typesCover ty isType)

/-- The rule of calls accords; the function and the arguments are recorded. -/
theorem inferCall_accords
    (expr : Expr)
    {callee : Expr}
    {args : List Expr}
    (calleeMember : callee ∈ declared.nodes)
    (argMembers : ∀ arg ∈ args, arg ∈ declared.nodes) :
    Accords declared InferError.Resolved known (@inferCall dangling infer expr callee args)
      (@inferCall .refused infer' expr callee args) (args.map Expr.id ++ callee.id :: known)
      declared.Covers env := by
  refine .bind (inferInstance_accords inferAccords calleeMember) fun calleeCovers => ?_
  refine .bind (mapM_inferInstance_accords inferAccords argMembers) fun argsCover => ?_
  exact blame_accords _ (call_accords calleeCovers argsCover)

/-- The rule of conditionals accords; all three parts are recorded. -/
theorem inferConditional_accords
    {condition whenTrue whenFalse : Expr}
    (conditionMember : condition ∈ declared.nodes)
    (trueMember : whenTrue ∈ declared.nodes)
    (falseMember : whenFalse ∈ declared.nodes) :
    Accords declared InferError.Resolved known
      (@inferConditional dangling infer condition whenTrue whenFalse)
      (@inferConditional .refused infer' condition whenTrue whenFalse)
      (whenFalse.id :: whenTrue.id :: condition.id :: known) declared.Covers env := by
  have boolCovers := (Ty.Invariant.covered declared).primitive .bool
  refine .bind (inferInstance_accords inferAccords conditionMember) fun conditionCovers => ?_
  refine .bind (blame_accords _ (unify_accords boolCovers conditionCovers)) fun _ => ?_
  refine .bind (inferInstance_accords inferAccords trueMember) fun trueCovers => ?_
  refine .bind (inferInstance_accords inferAccords falseMember) fun falseCovers => ?_
  refine .bind (blame_accords _ (unify_accords trueCovers falseCovers)) fun covers => ?_
  exact Environment.generalize_accords covers

/--
The rule of parameters accords: a recorded type is covered, and the function is in the program.
-/
theorem inferParameter_accords (expr : Expr) (function : ExprId) (position : Nat) :
    Accords declared InferError.Resolved known (inferParameter infer expr function position)
      (inferParameter infer' expr function position) known declared.Covers env := by
  refine .bind_environment (.of_checked fun checked => ?_)
  split
  · rename_i ty isRecorded
    exact .pure (checked.satisfied.parameter? isRecorded)
  · split
    · exact .fail ⟨nofun, nofun⟩
    · rename_i owner isOwner
      -- The owner is inside some declared variable, perhaps not the one being inferred.
      rw [checked.sameDeclared] at isOwner
      have ownerMember := checked.program.functions _ (mem_of_lookup isOwner)
      refine .bind (inferAccords ownerMember) fun {ownerType env} ownerCovers => ?_
      refine .bind_environment (.of_checked fun checked => ?_)
      have final {ty : Ty} (covers : declared.Covers ty) :
          Accords declared InferError.Resolved (owner.id :: known)
            (pure ty : Action InferError Ty) (pure ty) known declared.Covers env :=
        .mono (.pure covers) (List.subset_cons_self _ _)
      split
      · rename_i ty isRecorded
        exact final (checked.satisfied.parameter? isRecorded)
      · split
        · rename_i ty isFound
          exact final (parameterAt?_holds checked.satisfied ownerCovers isFound)
        · exact .fail ⟨nofun, nofun⟩

/-- The rule of dynamic arrays accords; the length and the generator are recorded. -/
theorem inferDynamicArray_accords
    (expr : Expr)
    {length generator : Expr}
    (lengthMember : length ∈ declared.nodes)
    (generatorMember : generator ∈ declared.nodes) :
    Accords declared InferError.Resolved known
      (@inferDynamicArray dangling infer expr length generator)
      (@inferDynamicArray .refused infer' expr length generator)
      (generator.id :: length.id :: known) declared.Covers env := by
  let rule := Ty.Invariant.covered declared
  have intCovers := rule.primitive .int
  have uintCovers := rule.primitive .uint
  refine .bind (inferInstance_accords inferAccords lengthMember) fun lengthCovers => ?_
  refine .bind (blame_accords _ (unifyEither_accords intCovers uintCovers lengthCovers))
    fun _ => ?_
  split
  · rename_i cause isShown
    exact .fail (shownLength_resolved isShown)
  · refine .bind (inferInstance_accords inferAccords generatorMember) fun generatorCovers => ?_
    refine .bind (Environment.freshPlaceholder_accords _) fun elementCovers => ?_
    have fromInt := rule.function.mpr ⟨intCovers, elementCovers⟩
    have fromUint := rule.function.mpr ⟨uintCovers, elementCovers⟩
    refine .bind (blame_accords _ (unifyEither_accords fromInt fromUint generatorCovers))
      fun _ => ?_
    split
    · exact .pure (rule.array.mpr ⟨elementCovers, trivial⟩)
    · refine .bind Environment.freshLength_accords fun _ => ?_
      exact .pure (rule.array.mpr ⟨elementCovers, trivial⟩)

/-- The rule of unions accords; the options are recorded. -/
theorem inferUnion_accords
    (expr : Expr)
    {options : List Expr}
    (members : ∀ option ∈ options, option ∈ declared.nodes) :
    Accords declared InferError.Resolved known (inferUnion infer expr options)
      (inferUnion infer' expr options) (options.map Expr.id ++ known) declared.Covers env := by
  refine .bind (mapM_inferInstance_accords inferAccords members) fun membersCover => ?_
  split
  · rename_i ty isUnion
    exact .pure ((Ty.Invariant.covered declared).ofMembers membersCover isUnion)
  · exact .fail ⟨nofun, nofun⟩

/-- A declaration that is not in progress is inferred, and its type is recorded. -/
theorem inferDeclared_records
    (declaredIn : ScopeId)
    (name : String)
    {expr : Expr}
    (member : expr ∈ declared.nodes)
    (notInProgress : env.context.inProgress.lookup (declaredIn, name) = none) :
    Accords declared InferError.Resolved known
      (@inferDeclared dangling infer declaredIn name expr)
      (@inferDeclared .refused infer' declaredIn name expr) (expr.id :: known) declared.Covers
      env := by
  refine .bind_environment ?_
  rw [notInProgress]
  refine .bind (Environment.freshPlaceholder_accords declaredIn)
    fun {provisional env} provisionalCovers => ?_
  have inside :
      Accords declared InferError.Resolved known
        (withProvisional (declaredIn, name) provisional do
          let ty ← infer expr
          blame expr (@unify dangling provisional ty))
        (withProvisional (declaredIn, name) provisional do
          let ty ← infer' expr
          blame expr (@unify .refused provisional ty))
        (expr.id :: known) declared.Covers env := by
    refine .between ?_ (fun checked => checked.withContext ?_)
      fun checked => checked.withContext fun entry isEntry => ?_
    · refine .bind (inferAccords member) fun covers => ?_
      exact blame_accords _ (unify_accords provisionalCovers covers)
    · exact List.forall_mem_cons.mpr ⟨provisionalCovers, checked.satisfied.inProgress⟩
    · exact checked.satisfied.inProgress entry (List.mem_filter.mp isEntry).1
  refine .bind inside fun covers => ?_
  exact Environment.generalize_accords covers

/-- Inference of a declaration of the program accords. -/
theorem inferDeclared_accords
    (declaredIn : ScopeId)
    (name : String)
    {expr : Expr}
    (member : expr ∈ declared.nodes) :
    Accords declared InferError.Resolved known
      (@inferDeclared dangling infer declaredIn name expr)
      (@inferDeclared .refused infer' declaredIn name expr) known declared.Covers env := by
  cases isProvisional : env.context.inProgress.lookup (declaredIn, name) with
  | none =>
      exact .mono (inferDeclared_records inferAccords declaredIn name member isProvisional)
        (List.subset_cons_self _ _)
  | some provisional =>
      refine .bind_environment (.of_checked fun checked => ?_)
      rw [isProvisional]
      exact .pure (checked.satisfied.inProgress _ (mem_of_lookup isProvisional))

/-- In a checked program a reference to a variable finds its declaration. -/
theorem inferReference_accords
    {expr : Expr}
    (member : expr ∈ declared.nodes)
    {name : String}
    (isReference : expr.form = .reference name) :
    Accords declared InferError.Resolved known (@inferReference dangling infer expr name)
      (@inferReference .refused infer' expr name) known declared.Covers env := by
  refine .bind_environment (.of_checked fun checked => ?_)
  obtain ⟨⟨declaredIn, value⟩, isFound⟩ :=
    Option.isSome_iff_exists.mp (checked.program.references expr member isReference)
  rw [checked.sameDeclared, isFound]
  obtain ⟨declaration, isDeclared, rfl⟩ := DeclarationTable.exists_of_lookup? isFound
  have valueMember := Declarations.value_mem_nodes isDeclared
  refine .bind (inferDeclared_accords inferAccords _ _ valueMember) fun covers => ?_
  exact Environment.instantiate_accords covers

/-- A rule records the types of the parts of an expression. -/
theorem inferForm_accords
    {expr : Expr}
    (member : expr ∈ declared.nodes) :
    Accords declared InferError.Resolved known (@inferForm dangling infer expr)
      (@inferForm .refused infer' expr) (expr.form.children.map Expr.id ++ known)
      (fun typed => declared.Covers typed.2) env := by
  let rule := Ty.Invariant.covered declared
  refine .of_checked fun checked => ?_
  have written := rule.form (checked.program.holdsExpr member)
  have parts : ∀ child ∈ expr.form.children, child ∈ declared.nodes := fun child isChild =>
    Declarations.child_mem_nodes member isChild
  unfold inferForm
  cases isForm : expr.form with
  | literal value =>
      refine .pure ?_
      cases value <;> exact rule.primitive _
  | array elements =>
      rw [isForm] at parts
      exact .map (inferArray_accords inferAccords expr parts)
  | index base position =>
      rw [isForm] at parts
      obtain ⟨baseMember, others⟩ := List.forall_mem_cons.mp parts
      have positionMember := List.forall_mem_singleton.mp others
      exact .map (inferIndex_accords inferAccords expr baseMember positionMember)
  | struct fields =>
      rw [isForm] at parts
      exact .map (inferStruct_accords inferAccords expr parts)
  | field base label =>
      rw [isForm] at parts
      have baseMember := List.forall_mem_singleton.mp parts
      exact .map (inferField_accords inferAccords expr baseMember label)
  | function params body =>
      rw [isForm] at written parts
      have bodyMember := List.forall_mem_singleton.mp parts
      exact .map (inferFunction_accords inferAccords expr written bodyMember)
  | call callee args =>
      rw [isForm] at parts
      obtain ⟨calleeMember, argMembers⟩ := List.forall_mem_cons.mp parts
      refine .map (.mono (inferCall_accords inferAccords expr calleeMember argMembers) ?_)
      simp [Form.children]
  | conditional condition whenTrue whenFalse =>
      rw [isForm] at parts
      obtain ⟨conditionMember, branchMembers⟩ := List.forall_mem_cons.mp parts
      obtain ⟨trueMember, others⟩ := List.forall_mem_cons.mp branchMembers
      have falseMember := List.forall_mem_singleton.mp others
      refine .map (.mono (inferConditional_accords inferAccords conditionMember trueMember
        falseMember) ?_)
      grind [Form.children]
  | reference name => exact .map (inferReference_accords inferAccords member isForm)
  | external kind name ascription =>
      rw [isForm] at written
      exact .map (.ofState (inferExternal_keeps expr written) (inferExternal_run _ _))
  | parameter function position =>
      exact .map (inferParameter_accords inferAccords expr function position)
  | dynamicArray length generator =>
      rw [isForm] at parts
      obtain ⟨lengthMember, others⟩ := List.forall_mem_cons.mp parts
      have generatorMember := List.forall_mem_singleton.mp others
      refine .map (.mono (inferDynamicArray_accords inferAccords expr lengthMember
        generatorMember) ?_)
      simp [Form.children]
  | union options =>
      rw [isForm] at parts
      exact .map (inferUnion_accords inferAccords expr parts)
  | native ty =>
      rw [isForm] at written
      exact .pure written

end Rules

/-! ## Inference -/

/--
Two rules do the same for declared expressions in checked environments, and they
record the types of the parts.
-/
def RuleAccords
    (declared : Declarations)
    (first second : Expr → Action InferError (InferRule × Ty)) : Prop :=
  ∀ {expr known env}, expr ∈ declared.nodes →
    Accords declared InferError.Resolved known (first expr) (second expr)
      (expr.form.children.map Expr.id ++ known) (fun typed => declared.Covers typed.2) env

variable {apply apply' : Expr → Action InferError (InferRule × Ty)}

/-- Linking an inferred type with the one recorded before accords. -/
theorem linked_accords
    (applyAccords : RuleAccords declared apply apply')
    {expr : Expr}
    (member : expr ∈ declared.nodes)
    {previous : Option Ty}
    (previousCovers : ∀ ty ∈ previous, declared.Covers ty) :
    Accords declared InferError.Resolved known (@linked dangling apply expr previous)
      (@linked .refused apply' expr previous) (expr.form.children.map Expr.id ++ known)
      (fun typed => declared.Covers typed.2) env := by
  refine .bind (applyAccords member) fun covers => ?_
  cases previous with
  | some previous =>
      refine .bind (blame_accords _ (unify_accords (previousCovers previous rfl) covers))
        fun covers => ?_
      exact .pure covers
  | none => exact .pure covers

/-- An expression gets its type in one transaction with its parts. -/
theorem transacted_accords
    (applyAccords : RuleAccords declared apply apply')
    {expr : Expr}
    (member : expr ∈ declared.nodes)
    {previous : Option Ty}
    (previousCovers : ∀ ty ∈ previous, declared.Covers ty) :
    Accords declared InferError.Resolved known
      (do
        let (name, ty) ← deeper (@linked dangling apply expr previous)
        Action.update (Environment.recordInferred expr.id ty)
        pure (name, ty))
      (do
        let (name, ty) ← deeper (@linked .refused apply' expr previous)
        Action.update (Environment.recordInferred expr.id ty)
        pure (name, ty))
      (expr.id :: known) (fun typed => declared.Covers typed.2) env := by
  have inside :
      Accords declared InferError.Resolved known (deeper (@linked dangling apply expr previous))
        (deeper (@linked .refused apply' expr previous)) (expr.form.children.map Expr.id ++ known)
        (fun typed => declared.Covers typed.2) env :=
    .between (linked_accords applyAccords member previousCovers)
      (fun checked => checked.withContext checked.satisfied.inProgress)
      (fun checked => checked.withContext checked.satisfied.inProgress)
  -- The rule has recorded the parts, so the expression itself may be recorded now.
  refine .bind inside fun covers => .bind (.update fun checked => ?_) fun _ => .pure covers
  have parts :
      ∀ child ∈ expr.form.children, child.id ∈ expr.form.children.map Expr.id ++ known :=
    fun child isChild => List.mem_append_left _ (List.mem_map_of_mem isChild)
  exact (checked.recordInferred member parts covers).mono (by simp)

/-- An attempt accords and records its expression. -/
theorem attempted_accords
    (applyAccords : RuleAccords declared apply apply')
    (applyRuns : ∀ expr env, Obeys Run (apply' expr) env)
    {expr : Expr}
    (member : expr ∈ declared.nodes)
    {previous : Option Ty}
    (previousCovers : ∀ ty ∈ previous, declared.Covers ty) :
    Accords declared InferError.Resolved known (@attempted dangling apply expr previous)
      (@attempted .refused apply' expr previous) (expr.id :: known) declared.Covers env := by
  refine .bind (.transaction (transacted_accords applyAccords member previousCovers)
    (transacted_run applyRuns _ _)) fun covers => ?_
  refine .bind (.update fun checked => ?_) fun _ => .pure covers
  exact checked.of_quietRun (.traceInfer _ _ _) (checked.satisfied.traceInfer _ _ _)

/-- A recorded type is covered, and an attempt accords. -/
theorem memoized_accords
    (applyAccords : RuleAccords declared apply apply')
    (applyRuns : ∀ expr env, Obeys Run (apply' expr) env)
    {expr : Expr}
    (member : expr ∈ declared.nodes) :
    Accords declared InferError.Resolved known (@memoized dangling apply expr)
      (@memoized .refused apply' expr) (expr.id :: known) declared.Covers env := by
  refine .bind_environment (.of_checked fun checked => ?_)
  split
  · rename_i ty isRecorded
    have isFound := Option.eq_some_of_filter_eq_some isRecorded
    have isKnown : env.Knows expr.id := Option.isSome_of_eq_some isFound
    exact .knowing isKnown (.pure (checked.satisfied.inferred? isFound))
  · split
    · exact .fail ⟨nofun, nofun⟩
    · exact attempted_accords applyAccords applyRuns member fun ty isRecorded =>
        checked.satisfied.inferred? isRecorded

/-- Inference in any number of levels accords. -/
theorem within_accords (levels : Nat) :
    InferAccords declared (@within dangling levels) (@within .refused levels) := by
  induction levels with
  | zero =>
      intro expr known env member
      exact memoized_accords (fun _ => .exhausted) (fun _ _ => .exhausted) member
  | succ levels inductionHypothesis =>
      intro expr known env member
      refine memoized_accords ?_ (fun expr env => inferForm_run (within_run levels) expr) member
      exact fun member => inferForm_accords inductionHypothesis member

end Inference

variable {declared : Declarations} {known : List ExprId} {env : Environment}

/-- Inference of an expression of a checked program accords. -/
theorem infer_accords {dangling : Dangling} :
    Inference.InferAccords declared (@infer dangling) (@infer .refused) :=
  fun member => .bind_environment (Inference.within_accords _ member)

/-- Inference of a declaration of a checked program accords. -/
theorem inferDeclaration_accords
    (dangling : Dangling)
    (scope : ScopeId)
    (name : String) :
    Accords declared InferError.Resolved known (@inferDeclaration dangling scope name)
      (@inferDeclaration .refused scope name) known
      (fun found => ∀ ty ∈ found, declared.Covers ty) env := by
  refine .bind_environment (.of_checked fun checked => ?_)
  cases isDeclared : env.declared.values.local? scope name with
  | none => exact .pure (by simp)
  | some expr =>
      rw [checked.sameDeclared] at isDeclared
      obtain ⟨declaration, isFound, rfl⟩ := Option.map_eq_some_iff.mp isDeclared
      have member := Declarations.value_mem_nodes (List.mem_of_find?_eq_some isFound)
      refine .map (.imp (Inference.inferDeclared_accords infer_accords _ _ member) ?_)
      intro ty covers found isFound
      cases Option.mem_some.mp isFound
      exact covers

/-! ## Calls on a checked program -/

/-- Inference of a declaration leaves a checked environment, and a covered type if it succeeds. -/
theorem inferDeclaration_stays
    (checked : env.Checked declared known)
    (scope : ScopeId)
    (name : String) :
    (inferDeclaration scope name env).Stays declared InferError.Resolved known
      fun found => ∀ ty ∈ found, declared.Covers ty :=
  (inferDeclaration_accords .refused scope name checked).2

/-- Inferring declarations keeps a program checked. -/
theorem Environment.Checked.inferDeclarations
    {calls : List (ScopeId × String)}
    {final : Environment}
    (checked : env.Checked declared [])
    (performed :
      Operation.performAll (calls.map fun call => .inferDeclaration call.1 call.2) env =
        some final) :
    final.Checked declared [] := by
  induction calls generalizing env with
  | nil =>
      cases performed
      exact checked
  | cons call rest inductionHypothesis =>
      rw [List.map_cons, Operation.performAll, Option.bind_eq_some_iff] at performed
      obtain ⟨middle, first, others⟩ := performed
      refine inductionHypothesis ?_ others
      have stays := inferDeclaration_stays checked call.1 call.2
      change (inferDeclaration call.1 call.2 env).final? = some middle at first
      cases outcome : inferDeclaration call.1 call.2 env with
      | ok found left =>
          rw [outcome] at first stays
          cases first
          exact stays.1
      | error cause left =>
          rw [outcome] at first stays
          cases first
          exact stays.1
      | exhausted =>
          rw [outcome] at first
          contradiction

/--
The checks for types and variables decide what inference can reach.

If both pass, then however often and in whatever order declarations are inferred,
no call fails for a name without a declaration.  Moreover the outcome does not
depend on what unification does about a reference that stands for no type, whether
its chain ends at an undeclared name or never ends: no call gets that far.
-/
theorem inferDeclaration_resolves_names
    {options : Options}
    {operations : List Operation}
    (declares : ∀ operation ∈ operations, operation.isDeclaration = true)
    {env : Environment}
    (performed : Operation.performAll operations (.empty options) = some env)
    (natives : ∀ ty ∈ env.declared.nativeTypes, ty.references = [])
    (aliasesPass :
      (Checker.cyclicAliases.problems env : Outcome Report (List Diagnostic)) = .ok [] env)
    (variablesPass :
      (Checker.unresolvedVariables.problems env : Outcome Report (List Diagnostic)) = .ok [] env)
    {calls : List (ScopeId × String)}
    {before : Environment}
    (called :
      Operation.performAll (calls.map fun call => .inferDeclaration call.1 call.2) env =
        some before)
    (scope : ScopeId)
    (name : String) :
    (∀ error final, inferDeclaration scope name before = .error error final →
      (∀ missing, error.cause ≠ .undefinedVariable missing) ∧
        ∀ missing, error.cause ≠ .unify (.undeclaredAlias missing)) ∧
    ∀ dangling : Dangling,
      @inferDeclaration dangling scope name before =
        @inferDeclaration .refused scope name before := by
  have noAliasProblems : env.aliasProblems = [] :=
    List.map_eq_nil_iff.mp (Outcome.ok.inj aliasesPass).1
  have noUndefined : env.undefinedVariables = [] := (Outcome.ok.inj variablesPass).1
  have declared := Environment.declared_of_operations declares performed
  have atFirst := declared.checked natives noAliasProblems noUndefined
  have checked := atFirst.inferDeclarations called
  refine ⟨fun error final failed => ?_, fun dangling => ?_⟩
  · have stays := inferDeclaration_stays checked scope name
    rw [failed] at stays
    exact stays.2
  · exact (inferDeclaration_accords dangling scope name checked).1

namespace Counting

open MutualCalls (node)

/--
A type `Count` for `int`, a built-in `next`, the function
`after = fn n : Count -> next(n)` and two calls of it, `one` and `wrong`.
-/
def operations : List Operation :=
  [.declareVariable .native "next" (node 0 0 (.native (.function Ty.int Ty.int))),
    .newScope .native, .declareType ⟨1⟩ "Count" Ty.int,
    .newScope ⟨1⟩, .declareVariable ⟨2⟩ "n" (node 1 2 (.parameter ⟨2⟩ 0)),
    .declareVariable ⟨1⟩ "after"
      (node 2 1 (.function [⟨"n", some (.named ⟨1⟩ "Count")⟩]
        (node 3 2 (.call (node 4 2 (.reference "next")) [node 5 2 (.reference "n")])))),
    .declareVariable ⟨1⟩ "one"
      (node 6 1 (.call (node 7 1 (.reference "after")) [node 8 1 (.literal (.int 0))])),
    .declareVariable ⟨1⟩ "wrong"
      (node 9 1 (.call (node 10 1 (.reference "after")) [node 11 1 (.literal (.bool true))]))]

/-- The program passes the checks; `one` has a type, and `wrong` has none. -/
theorem computed :
    (Operation.performAll operations (.empty Options.standard)).map
        (fun env =>
          (decide ((∀ ty ∈ env.declared.nativeTypes, ty.references = []) ∧
              env.aliasProblems = [] ∧ env.undefinedVariables.isEmpty = true),
            (inferDeclaration ⟨1⟩ "one" env).value?.isSome,
            (Operation.performAll [.inferDeclaration ⟨1⟩ "one"] env).map fun before =>
              ((inferDeclaration ⟨1⟩ "wrong" before).value?.isSome,
                (inferDeclaration ⟨1⟩ "wrong" before).final?.isSome))) =
      some (true, true, some (false, true)) := by
  decide +kernel

end Counting

/-- A call with a wrong argument fails, but not for a missing name. -/
theorem inferDeclaration_resolves_names_counting :
    ∃ env before error final,
      Operation.performAll Counting.operations (.empty Options.standard) = some env ∧
        Operation.performAll [.inferDeclaration ⟨1⟩ "one"] env = some before ∧
        inferDeclaration ⟨1⟩ "wrong" before = .error error final ∧
        (∀ missing, error.cause ≠ .undefinedVariable missing) ∧
        (∀ missing, error.cause ≠ .unify (.undeclaredAlias missing)) ∧
        ∀ dangling : Dangling,
          @inferDeclaration dangling ⟨1⟩ "wrong" before = .error error final := by
  obtain ⟨env, performed, shown⟩ := Option.map_eq_some_iff.mp Counting.computed
  simp only [Prod.mk.injEq, decide_eq_true_eq, List.isEmpty_iff] at shown
  obtain ⟨⟨natives, noAliasProblems, noUndefined⟩, _, after⟩ := shown
  obtain ⟨before, called, ended⟩ := Option.map_eq_some_iff.mp after
  have aliasesPass :
      (Checker.cyclicAliases.problems env : Outcome Report (List Diagnostic)) = .ok [] env := by
    change Outcome.ok (env.aliasProblems.map AliasProblem.toDiagnostic) env = _
    rw [noAliasProblems, List.map_nil]
  have variablesPass :
      (Checker.unresolvedVariables.problems env : Outcome Report (List Diagnostic)) =
        .ok [] env := by
    change Outcome.ok env.undefinedVariables env = _
    rw [noUndefined]
  obtain ⟨resolved, independent⟩ :=
    @inferDeclaration_resolves_names _ _ (by decide) env performed natives aliasesPass
      variablesPass [(⟨1⟩, "one")] before called ⟨1⟩ "wrong"
  cases outcome : inferDeclaration ⟨1⟩ "wrong" before with
  | error error final =>
      refine ⟨env, before, error, final, performed, called, outcome,
        (resolved error final outcome).1, (resolved error final outcome).2, fun dangling => ?_⟩
      exact (independent dangling).trans outcome
  | ok found final =>
      rw [outcome] at ended
      cases ended
  | exhausted =>
      rw [outcome] at ended
      cases ended

end ShaderTyping
