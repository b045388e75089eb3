import ShaderTyping.Proofs.CalmRuns

namespace ShaderTyping

/-!
# Rules that follow one another

A rule of inference is the same for every way to infer other expressions.  So if one
way does what another one does wherever it gives an answer (`Action.Follows`), the
rules that use them do the same.  What happens to the environment along the way is
described by a relation that permits what inference does besides recording types
(`Environment.Permits`): calm runs, and what is undone at the end.
-/

open ShaderTyping.Action (Obeys)

/-! ## Relations that permit what inference does -/

/--
A relation between environments that contains all that inference does except the
recording of types, and that keeps environments valid.
-/
class Environment.Permits
    (valid : Environment → Prop)
    (relation : Environment → Environment → Prop) : Prop
    extends IsPreorder Environment relation where
  keeps : ∀ {env final}, relation env final → valid env → valid final
  withContext :
    ∀ {env : Environment} (context : Context), valid env → valid { env with context := context }
  push : ∀ {env : Environment}, valid env → valid env.push
  calm : ∀ {env final}, CalmRun env final → relation env final
  insideFunction :
    ∀ {env inner : Environment} {types : List Ty},
      relation { env with context.activeParams := types :: env.context.activeParams } inner →
      relation env { inner with context.activeParams := inner.context.activeParams.tail }
  insideDeclaration :
    ∀ {env inner : Environment} {key : ScopeId × String} {provisional : Ty},
      env.context.inProgress.lookup key = none →
      relation { env with
        context.inProgress := (key, provisional) :: env.context.inProgress } inner →
      relation env { inner with
        context.inProgress := inner.context.inProgress.filter fun entry => entry.1 != key }
  deeper :
    ∀ {env inner : Environment},
      relation { env with context.depth := env.context.depth + 1 } inner →
      relation env { inner with context.depth := inner.context.depth - 1 }
  transaction :
    ∀ {env inner : Environment} (keep : Bool),
      relation env.push inner → relation env (inner.finish keep)

open Environment (CalmRun Permits)

namespace Action

/-! ## Actions that follow one another -/

/--
In a valid environment, where the first action gives an answer, the second one gives
the same, and what is left is related to the environment.
-/
def Follows
    (valid : Environment → Prop)
    (relation : Environment → Environment → Prop)
    (first second : Action ε α)
    (env : Environment) : Prop :=
  valid env → (first env ≠ .exhausted → second env = first env) ∧ Obeys relation first env

namespace Follows

variable {valid : Environment → Prop} {relation : Environment → Environment → Prop}
  {env : Environment}

/-- An action follows itself if it does what the relation permits. -/
theorem of_obeys
    {action : Action ε α}
    (obeys : valid env → Obeys relation action env) :
    Follows valid relation action action env :=
  fun isValid => ⟨fun _ => rfl, obeys isValid⟩

theorem exhausted (second : Action ε α) :
    Follows valid relation Action.exhausted second env :=
  fun _ => ⟨fun answers => absurd rfl answers, .exhausted⟩

/-- The relation to the environments on the way can be weakened. -/
theorem mono
    {wider : Environment → Environment → Prop}
    {first second : Action ε α}
    (follows : Follows valid relation first second env)
    (included : ∀ {final}, relation env final → wider env final) :
    Follows valid wider first second env :=
  fun isValid => (follows isValid).imp_right fun obeys final ended => included (obeys final ended)

/-- After reading the environment an action goes on with the same environment. -/
theorem bind_environment
    {next next' : Environment → Action ε α}
    (follows : Follows valid relation (next env) (next' env) env) :
    Follows valid relation (Action.environment >>= next) (Action.environment >>= next') env :=
  follows

/-- That the environment is valid may be used to show that actions follow. -/
theorem of_valid
    {first second : Action ε α}
    (follows : valid env → Follows valid relation first second env) :
    Follows valid relation first second env :=
  fun isValid => follows isValid isValid

/-- Actions between two changes follow one another if the relation permits both changes together. -/
theorem between
    {first second : Action ε α}
    {enter leave : Environment → Environment}
    (follows : Follows valid relation first second (enter env))
    (enters : valid env → valid (enter env))
    (closed : ∀ {inner}, relation (enter env) inner → relation env (leave inner)) :
    Follows valid relation (first.between enter leave) (second.between enter leave) env := by
  intro isValid
  obtain ⟨same, obeys⟩ := follows (enters isValid)
  refine ⟨fun answers => ?_, obeys.between closed⟩
  unfold Action.between at answers ⊢
  rw [same fun isExhausted => answers (by rw [isExhausted])]

variable [Permits valid relation]

/-- Transactions follow one another if what happens inside does. -/
theorem transaction
    {first second : Action ε α}
    (follows : Follows valid relation first second env.push) :
    Follows valid relation first.transaction second.transaction env := by
  intro isValid
  obtain ⟨same, obeys⟩ := follows (Permits.push relation isValid)
  refine ⟨fun answers => ?_, obeys.transaction (Permits.transaction valid)⟩
  unfold Action.transaction at answers ⊢
  rw [same fun isExhausted => answers (by rw [isExhausted])]

/-- Two actions in a row follow two others if both do, each from where the one before ends. -/
theorem bind
    {first first' : Action ε α}
    {next next' : α → Action ε β}
    (firstFollows : Follows valid relation first first' env)
    (nextFollows :
      ∀ {value middle},
        first env = .ok value middle →
        Follows valid relation (next value) (next' value) middle) :
    Follows valid relation (first >>= next) (first' >>= next') env := by
  intro isValid
  obtain ⟨same, obeys⟩ := firstFollows isValid
  have nextAgain {value : α} {middle : Environment} (ended : first env = .ok value middle) :=
    nextFollows ended (Permits.keeps (obeys.of_eq_ok ended) isValid)
  refine ⟨fun answers => ?_, .bind obeys fun ended => (nextAgain ended).2⟩
  change Action.bind first' next' env = Action.bind first next env
  change Action.bind first next env ≠ .exhausted at answers
  unfold Action.bind at answers ⊢
  rw [same fun isExhausted => answers (by rw [isExhausted])]
  cases outcome : first env with
  | ok value middle =>
      rw [outcome] at answers
      exact (nextAgain outcome).1 answers
  | error cause middle => rfl
  | exhausted => rfl

theorem pure (value : α) :
    Follows valid relation (Pure.pure value : Action ε α) (Pure.pure value) env :=
  of_obeys fun _ => .pure value

theorem fail (cause : ε) :
    Follows valid relation (Action.fail cause : Action ε α) (Action.fail cause) env :=
  of_obeys fun _ => .fail cause

/-- An action that records nothing follows itself. -/
theorem calm
    {action : Action ε α}
    (obeys : Obeys CalmRun action env) :
    Follows valid relation action action env :=
  of_obeys fun _ final ended => Permits.calm valid (obeys final ended)

/-- Converting the values keeps that actions follow one another. -/
theorem map
    {first second : Action ε α}
    {convert : α → β}
    (follows : Follows valid relation first second env) :
    Follows valid relation (convert <$> first) (convert <$> second) env :=
  bind follows fun _ => pure _

/-- Going through a list follows if each item does from every environment. -/
theorem mapM
    {items : List α}
    {action action' : α → Action ε β}
    (follows : ∀ item ∈ items, ∀ env, Follows valid relation (action item) (action' item) env) :
    Follows valid relation (items.mapM action) (items.mapM action') env := by
  induction items generalizing env with
  | nil =>
      rw [List.mapM_nil, List.mapM_nil]
      exact pure _
  | cons item rest inductionHypothesis =>
      rw [List.mapM_cons, List.mapM_cons]
      refine bind (follows item List.mem_cons_self env) fun _ => ?_
      refine bind (inductionHypothesis fun other member =>
        follows other (List.mem_cons_of_mem _ member)) fun _ => ?_
      exact pure _

/-- Folding over a list follows if each item does from every state and environment. -/
theorem foldlM
    {items : List α}
    {action action' : β → α → Action ε β}
    (follows :
      ∀ item ∈ items, ∀ state env,
        Follows valid relation (action state item) (action' state item) env)
    (state : β) :
    Follows valid relation (items.foldlM action state) (items.foldlM action' state) env := by
  induction items generalizing state env with
  | nil => exact pure _
  | cons item rest inductionHypothesis =>
      rw [List.foldlM_cons, List.foldlM_cons]
      refine bind (follows item List.mem_cons_self state env) fun _ => ?_
      exact inductionHypothesis
        (fun other member => follows other (List.mem_cons_of_mem _ member)) _

end Follows

end Action

open ShaderTyping.Action (Follows)

/-! ## Rules -/

/-- Expressions from which inference comes only to expressions that are among them. -/
structure Declarations.Closes (declared : Declarations) (nodes : Expr → Prop) : Prop where
  child : ∀ {expr child}, nodes expr → child ∈ expr.form.children → nodes child
  value : ∀ declaration ∈ declared.values.entries, nodes declaration.value
  function : ∀ function ∈ declared.functions, nodes function.2

namespace Inference

/-- One way to infer the types of some expressions follows another one. -/
def InferFollows
    (valid : Environment → Prop)
    (relation : Environment → Environment → Prop)
    (nodes : Expr → Prop)
    (infer infer' : Infer) : Prop :=
  ∀ expr, nodes expr → ∀ env, Follows valid relation (infer expr) (infer' expr) env

variable {valid : Environment → Prop} {relation : Environment → Environment → Prop}
  [Permits valid relation] {nodes : Expr → Prop} {env : Environment} {infer infer' : Infer}

/-- Generalizing a type is permitted. -/
theorem generalize_follows (ty : Ty) :
    Follows valid relation (Environment.generalize ty : Action InferError Ty)
      (Environment.generalize ty) env :=
  .calm (.ofState (Environment.generalize_calm ty env))

/-- Instantiating a type is permitted. -/
theorem instantiate_follows (ty : Ty) :
    Follows valid relation (Environment.instantiate ty : Action InferError Ty)
      (Environment.instantiate ty) env :=
  .calm (.ofState (Environment.instantiate_calm ty env))

/-- Drawing a fresh placeholder is permitted. -/
theorem freshPlaceholder_follows (scope : ScopeId) :
    Follows valid relation (Environment.freshPlaceholder scope : Action InferError Ty)
      (Environment.freshPlaceholder scope) env :=
  .calm (.ofState (.fresh 1 0 0))

/-- Drawing a fresh length variable is permitted. -/
theorem freshLength_follows :
    Follows valid relation (Environment.freshLength : Action InferError Length)
      Environment.freshLength env :=
  .calm (.ofState (.fresh 0 1 0))

/-- Unification at an expression is permitted, whether it succeeds or not. -/
theorem unify_follows (expr : Expr) (left right : Ty) :
    Follows valid relation (blame expr (unify left right)) (blame expr (unify left right))
      env :=
  .calm (.mapError (CalmRun.call.unify _ _ _))

section Rules

variable (inferFollows : InferFollows valid relation nodes infer infer')
include inferFollows

/-- A fresh instance of an inferred type follows if inference does. -/
theorem inferInstance_follows
    {expr : Expr}
    (member : nodes expr) :
    Follows valid relation (inferInstance infer expr) (inferInstance infer' expr) env :=
  .bind (inferFollows _ member _) fun _ => instantiate_follows _

/-- Inference of an array follows if that of its elements does. -/
theorem inferArray_follows
    (expr : Expr)
    {elements : List Expr}
    (members : ∀ element ∈ elements, nodes element) :
    Follows valid relation (inferArray infer expr elements) (inferArray infer' expr elements)
      env := by
  cases elements with
  | nil => exact .fail _
  | cons first rest =>
      obtain ⟨firstMember, restMembers⟩ := List.forall_mem_cons.mp members
      refine .bind (inferInstance_follows inferFollows firstMember) fun _ => ?_
      refine .bind (.foldlM (fun element isElement component env => ?_) _) fun _ => ?_
      · refine .bind (inferInstance_follows inferFollows (restMembers element isElement)) fun _ => ?_
        exact unify_follows _ _ _
      · exact .bind (generalize_follows _) fun _ => .pure _

/-- Inference of an array access follows if that of the array and the position does. -/
theorem inferIndex_follows
    (expr : Expr)
    {base position : Expr}
    (baseMember : nodes base)
    (positionMember : nodes position) :
    Follows valid relation (inferIndex infer expr base position)
      (inferIndex infer' expr base position) env := by
  refine .bind (inferInstance_follows inferFollows positionMember) fun _ => ?_
  refine .bind (unify_follows _ _ _) fun _ => ?_
  refine .bind (inferInstance_follows inferFollows baseMember) fun _ => ?_
  refine .bind (freshPlaceholder_follows _) fun _ => ?_
  refine .bind freshLength_follows fun _ => ?_
  refine .bind (unify_follows _ _ _) fun _ => ?_
  exact generalize_follows _

/-- Inference of a struct follows if that of its fields does. -/
theorem inferStruct_follows
    (expr : Expr)
    {fields : List (String × Expr)}
    (members : ∀ value ∈ fields.map Prod.snd, nodes value) :
    Follows valid relation (inferStruct infer expr fields) (inferStruct infer' expr fields)
      env := by
  unfold inferStruct
  split
  · exact .fail _
  · split
    · exact .fail _
    · refine .bind (.mapM fun field isField env => ?_) fun _ => .pure _
      have valueMember := members field.2 (List.mem_map_of_mem isField)
      refine .bind (inferInstance_follows inferFollows valueMember) fun _ => ?_
      exact .bind (generalize_follows _) fun _ => .pure _

/-- Inference of a field access follows if that of the struct does. -/
theorem inferField_follows
    (expr : Expr)
    {base : Expr}
    (member : nodes base)
    (label : String) :
    Follows valid relation (inferField infer expr base label)
      (inferField infer' expr base label) env := by
  refine .bind (inferInstance_follows inferFollows member) fun _ => ?_
  refine .bind (freshPlaceholder_follows _) fun _ => ?_
  refine .bind (unify_follows _ _ _) fun _ => ?_
  exact generalize_follows _

/-- Inference of a body under new parameters follows; the parameters are taken back at the end. -/
theorem withActiveParams_follows
    {body : Expr}
    (types : List Ty)
    (member : nodes body) :
    Follows valid relation (withActiveParams types (inferInstance infer body))
      (withActiveParams types (inferInstance infer' body)) env :=
  .between (inferInstance_follows inferFollows member) (Permits.withContext relation _)
    (Permits.insideFunction valid)

/-- Opening the parameters is the only step of a rule that is not calm. -/
theorem inferFunction_follows
    (expr : Expr)
    {params : List Parameter}
    {body : Expr}
    (opens : valid env → relation env (openParameters expr.id body.scope 0 params env).2)
    (member : nodes body) :
    Follows valid relation (inferFunction infer expr params body)
      (inferFunction infer' expr params body) env := by
  refine .bind (.of_obeys fun isValid => .ofState (opens isValid)) fun _ => ?_
  exact .bind (withActiveParams_follows inferFollows _ member) fun _ =>
    .bind_environment (.pure _)

/-- Inference of a call follows if that of the function and the arguments does. -/
theorem inferCall_follows
    (expr : Expr)
    {callee : Expr}
    {args : List Expr}
    (calleeMember : nodes callee)
    (argMembers : ∀ arg ∈ args, nodes arg) :
    Follows valid relation (inferCall infer expr callee args)
      (inferCall infer' expr callee args) env := by
  refine .bind (inferInstance_follows inferFollows calleeMember) fun _ => ?_
  refine .bind (.mapM fun arg isArg env => ?_) fun _ => ?_
  · exact inferInstance_follows inferFollows (argMembers arg isArg)
  · exact .calm (.mapError (call_obeys CalmRun.call _ _ _))

/-- Inference of a conditional follows if that of its three parts does. -/
theorem inferConditional_follows
    {condition whenTrue whenFalse : Expr}
    (conditionMember : nodes condition)
    (trueMember : nodes whenTrue)
    (falseMember : nodes whenFalse) :
    Follows valid relation (inferConditional infer condition whenTrue whenFalse)
      (inferConditional infer' condition whenTrue whenFalse) env := by
  refine .bind (inferInstance_follows inferFollows conditionMember) fun _ => ?_
  refine .bind (unify_follows _ _ _) fun _ => ?_
  refine .bind (inferInstance_follows inferFollows trueMember) fun _ => ?_
  refine .bind (inferInstance_follows inferFollows falseMember) fun _ => ?_
  refine .bind (unify_follows _ _ _) fun _ => ?_
  exact generalize_follows _

/-- Inference of a dynamic array follows if that of its length and generator does. -/
theorem inferDynamicArray_follows
    (expr : Expr)
    {length generator : Expr}
    (lengthMember : nodes length)
    (generatorMember : nodes generator) :
    Follows valid relation (inferDynamicArray infer expr length generator)
      (inferDynamicArray infer' expr length generator) env := by
  have agrees (expr : Expr) (first second ty : Ty) {env : Environment} :
      Follows valid relation (blame expr (unifyEither first second ty))
        (blame expr (unifyEither first second ty)) env :=
    .calm (.mapError (unifyEither_obeys CalmRun.call _ _ _))
  refine .bind (inferInstance_follows inferFollows lengthMember) fun _ => ?_
  refine .bind (agrees _ _ _ _) fun _ => ?_
  split
  · exact .fail _
  · refine .bind (inferInstance_follows inferFollows generatorMember) fun _ => ?_
    refine .bind (freshPlaceholder_follows _) fun _ => ?_
    refine .bind (agrees _ _ _ _) fun _ => ?_
    split
    · exact .pure _
    · exact .bind freshLength_follows fun _ => .pure _

/-- Inference of a union follows if that of its options does. -/
theorem inferUnion_follows
    (expr : Expr)
    {options : List Expr}
    (members : ∀ option ∈ options, nodes option) :
    Follows valid relation (inferUnion infer expr options) (inferUnion infer' expr options)
      env := by
  refine .bind (.mapM fun option isOption env => ?_) fun _ => ?_
  · exact inferInstance_follows inferFollows (members option isOption)
  · split
    · exact .pure _
    · exact .fail _

/-- Inference of a declaration follows if that of its expression does. -/
theorem inferDeclared_follows
    (declaredIn : ScopeId)
    (name : String)
    {expr : Expr}
    (member : nodes expr) :
    Follows valid relation (inferDeclared infer declaredIn name expr)
      (inferDeclared infer' declaredIn name expr) env := by
  refine .bind_environment ?_
  split
  · exact .pure _
  · rename_i notInProgress
    refine .bind (freshPlaceholder_follows _) fun started => ?_
    cases started
    refine .bind ?_ fun _ => generalize_follows _
    refine .between (.bind (inferFollows _ member _) fun _ => unify_follows _ _ _)
      (Permits.withContext relation _) ?_
    exact Permits.insideDeclaration valid notInProgress

variable {declared : Declarations} (closes : declared.Closes nodes)
  (sameDeclared : ∀ {env}, valid env → env.declared = declared)
include closes sameDeclared

/-- A parameter follows if inference of its function, which is among the nodes, does. -/
theorem inferParameter_follows (expr : Expr) (function : ExprId) (position : Nat) :
    Follows valid relation (inferParameter infer expr function position)
      (inferParameter infer' expr function position) env := by
  refine .bind_environment (.of_valid fun isValid => ?_)
  split
  · exact .pure _
  · split
    · exact .fail _
    · rename_i owner isOwner
      rw [sameDeclared isValid] at isOwner
      have ownerMember := closes.function _ (mem_of_lookup isOwner)
      refine .bind (inferFollows _ ownerMember _) fun _ => .bind_environment ?_
      split
      · exact .pure _
      · split
        · exact .pure _
        · exact .fail _

/-- A reference follows if inference of the declaration that it finds does. -/
theorem inferReference_follows (expr : Expr) (name : String) :
    Follows valid relation (inferReference infer expr name) (inferReference infer' expr name)
      env := by
  refine .bind_environment (.of_valid fun isValid => ?_)
  split
  · exact .fail _
  · rename_i isFound
    rw [sameDeclared isValid] at isFound
    obtain ⟨declaration, isDeclared, rfl⟩ := DeclarationTable.exists_of_lookup? isFound
    have valueMember := closes.value declaration isDeclared
    refine .bind (inferDeclared_follows inferFollows _ _ valueMember) fun _ => ?_
    exact instantiate_follows _

/-- Rules follow one another if the ways to infer other expressions do. -/
theorem inferForm_follows
    {expr : Expr}
    (member : nodes expr)
    (opens :
      ∀ {params body}, expr.form = .function params body → valid env →
        relation env (openParameters expr.id body.scope 0 params env).2) :
    Follows valid relation (inferForm infer expr) (inferForm infer' expr) env := by
  have parts : ∀ child ∈ expr.form.children, nodes child := fun _ isChild =>
    closes.child member isChild
  unfold inferForm
  cases isForm : expr.form with
  | literal value => exact .pure _
  | array elements =>
      rw [isForm] at parts
      exact .map (inferArray_follows inferFollows expr parts)
  | index base position =>
      rw [isForm] at parts
      obtain ⟨baseMember, others⟩ := List.forall_mem_cons.mp parts
      have positionMember := List.forall_mem_singleton.mp others
      exact .map (inferIndex_follows inferFollows expr baseMember positionMember)
  | struct fields =>
      rw [isForm] at parts
      exact .map (inferStruct_follows inferFollows expr parts)
  | field base label =>
      rw [isForm] at parts
      have baseMember := List.forall_mem_singleton.mp parts
      exact .map (inferField_follows inferFollows expr baseMember label)
  | function params body =>
      rw [isForm] at parts
      have bodyMember := List.forall_mem_singleton.mp parts
      exact .map (inferFunction_follows inferFollows expr (opens isForm) bodyMember)
  | call callee args =>
      rw [isForm] at parts
      obtain ⟨calleeMember, argMembers⟩ := List.forall_mem_cons.mp parts
      exact .map (inferCall_follows inferFollows expr calleeMember argMembers)
  | conditional condition whenTrue whenFalse =>
      rw [isForm] at parts
      obtain ⟨conditionMember, branchMembers⟩ := List.forall_mem_cons.mp parts
      obtain ⟨trueMember, others⟩ := List.forall_mem_cons.mp branchMembers
      have falseMember := List.forall_mem_singleton.mp others
      exact .map (inferConditional_follows inferFollows conditionMember trueMember falseMember)
  | reference name => exact .map (inferReference_follows inferFollows closes sameDeclared expr name)
  | external kind name ascription =>
      exact .map (.calm (.ofState (Environment.inferExternal_calm expr ascription env)))
  | parameter function position =>
      exact .map (inferParameter_follows inferFollows closes sameDeclared expr function position)
  | dynamicArray length generator =>
      rw [isForm] at parts
      obtain ⟨lengthMember, others⟩ := List.forall_mem_cons.mp parts
      have generatorMember := List.forall_mem_singleton.mp others
      exact .map (inferDynamicArray_follows inferFollows expr lengthMember generatorMember)
  | union options =>
      rw [isForm] at parts
      exact .map (inferUnion_follows inferFollows expr parts)
  | native ty => exact .pure _

end Rules

/-! ## Attempts -/

variable {rule rule' : Expr → Action InferError (InferRule × Ty)}

/-- Linking an inferred type with the one recorded before is permitted. -/
theorem linked_follows
    {expr : Expr}
    (ruleFollows : Follows valid relation (rule expr) (rule' expr) env)
    (previous : Option Ty) :
    Follows valid relation (linked rule expr previous) (linked rule' expr previous) env := by
  refine .bind ruleFollows fun _ => ?_
  cases previous with
  | some previous => exact .bind (unify_follows _ _ _) fun _ => .pure _
  | none => exact .pure _

/-- An attempt follows if its rule does and recording the type is permitted. -/
theorem attempted_follows
    {expr : Expr}
    {previous : Option Ty}
    (ruleFollows :
      Follows valid relation (rule expr) (rule' expr)
        { env.push with context.depth := env.context.depth + 1 })
    (records :
      ∀ {named left},
        valid env →
        deeper (linked rule expr previous) env.push = .ok named left →
        relation left (left.recordInferred expr.id named.2)) :
    Follows valid relation (attempted rule expr previous) (attempted rule' expr previous)
      env := by
  refine .of_valid fun isValid => .bind (.transaction ?_) fun _ => ?_
  · refine .bind (.between (linked_follows ruleFollows previous)
      (Permits.withContext relation _) (Permits.deeper valid)) fun ended => ?_
    exact .bind (.of_obeys fun _ => .update (records isValid ended)) fun _ => .pure _
  · exact .bind (.calm (.update (.traceInfer _ _ _))) fun _ => .pure _

/-- An expression is attempted only while its type is not known. -/
theorem memoized_follows
    {expr : Expr}
    (attemptFollows :
      (env.frames.inferred? expr.id).filter (fun ty => !env.isUnbound ty) = none →
        Follows valid relation (attempted rule expr (env.frames.inferred? expr.id))
          (attempted rule' expr (env.frames.inferred? expr.id)) env) :
    Follows valid relation (memoized rule expr) (memoized rule' expr) env := by
  refine .bind_environment ?_
  split
  · exact .pure _
  · rename_i notKnown
    split
    · exact .fail _
    · exact attemptFollows notKnown

end Inference

end ShaderTyping
