import ShaderTyping.Proofs.KnownTypes

namespace ShaderTyping

/-!
# Known types are stable

A transaction that was open at some moment shows what is known then until it is aborted.
So the type of an expression that is known stays recorded through any operations that
abort no such transaction (`known_types_are_stable`), and inference answers with it
without changing anything.  The invariant speaks of all levels of the frames that were
opened since: an abort of one of them uncovers the next.
-/

open ShaderTyping.Action (Obeys Follows)

/-! ## Open transactions -/

/-- How many of the open transactions were open at some moment, and how many came later. -/
structure OpenTransactions where
  earlier : Nat
  later : Nat
  deriving Repr, DecidableEq

namespace OpenTransactions

/-- One more transaction is open. -/
def push (transactions : OpenTransactions) : OpenTransactions :=
  { transactions with later := transactions.later + 1 }

/-- The latest transaction is committed, if one is open. -/
def commit : OpenTransactions → OpenTransactions
  | ⟨earlier, later + 1⟩ => ⟨earlier, later⟩
  | ⟨earlier, 0⟩ => ⟨earlier - 1, 0⟩

/-- The latest transaction is aborted, if one is open; an earlier one must not be. -/
def abort? : OpenTransactions → Option OpenTransactions
  | ⟨earlier, later + 1⟩ => some ⟨earlier, later⟩
  | ⟨0, 0⟩ => some ⟨0, 0⟩
  | ⟨_ + 1, 0⟩ => none

/-- The latest transaction ends. -/
def finish? (keep : Bool) (transactions : OpenTransactions) : Option OpenTransactions :=
  if keep then some transactions.commit else transactions.abort?

end OpenTransactions

namespace Operation

mutual

/-- The transactions that an operation leaves open, unless it aborts an earlier one. -/
def transactions? : Operation → OpenTransactions → Option OpenTransactions
  | .push, transactions => some transactions.push
  | .commit, transactions => transactions.finish? true
  | .abort, transactions => transactions.finish? false
  | .transaction body succeeds, transactions =>
      (transactionsAll? body transactions.push).bind (OpenTransactions.finish? succeeds)
  | _, transactions => some transactions

/-- The transactions that operations leave open, unless one of them aborts an earlier one. -/
def transactionsAll? : List Operation → OpenTransactions → Option OpenTransactions
  | [], transactions => some transactions
  | operation :: rest, transactions =>
      (operation.transactions? transactions).bind (transactionsAll? rest)

end

end Operation

namespace FrameStack

/-- The frames are the top one and those below it. -/
theorem frames_eq (stack : FrameStack) : stack.frames = stack.top :: stack.below :=
  rfl

/-- Stacks with the same frames are the same. -/
theorem frames_injective : Function.Injective frames := by
  rintro ⟨top, below⟩ ⟨otherTop, otherBelow⟩ same
  injection same with sameTop sameBelow
  rw [FrameStack.mk.injEq]
  exact ⟨sameTop, sameBelow⟩

end FrameStack

namespace Environment

variable {env final : Environment} {id : ExprId} {ty : Ty} {transactions : OpenTransactions}

/-! ## What is known at a level of the frames -/

/-- Whether a type is unbound depends on the frames only. -/
theorem isUnbound_of_frames
    (sameFrames : final.frames = env.frames)
    (ty : Ty) :
    final.isUnbound ty = env.isUnbound ty := by
  have follows (steps : Nat) (ty : Ty) :
      final.followWithin steps ty = env.followWithin steps ty := by
    induction steps generalizing ty with
    | zero => rfl
    | succ steps inductionHypothesis =>
        cases ty with
        | placeholder scope id =>
            simp only [followWithin, binding?, sameFrames, inductionHypothesis]
        | _ => rfl
  simp only [isUnbound, follow, bindingCount, sameFrames, follows]

/-- Whether a type is known depends on the frames only. -/
theorem KnownType.of_sameFrames
    (known : env.KnownType id ty)
    (sameFrames : final.frames = env.frames) :
    final.KnownType id ty where
  recorded := by rw [sameFrames, known.recorded]
  isKnown := by rw [isUnbound_of_frames sameFrames, known.isKnown]

/-- A commit keeps what is known. -/
theorem KnownType.commit
    (known : env.KnownType id ty)
    (consistent : env.frames.Consistent) :
    (env.finish true).KnownType id ty :=
  known.of_grows consistent (.commit env) (consistent_finish consistent true)
    (inferred?_commit env id)

/-- The type of an expression is known at every level that an abort may uncover. -/
structure KnownAbove
    (transactions : OpenTransactions)
    (id : ExprId)
    (ty : Ty)
    (env : Environment) : Prop where
  consistent : env.frames.Consistent
  depth : env.frames.depth = transactions.earlier + transactions.later
  known :
    ∀ lower : FrameStack,
      lower.frames <:+ env.frames.frames →
      transactions.earlier ≤ lower.depth →
      KnownType { env with frames := lower } id ty

namespace KnownAbove

/-- What is known at all levels is known at the top. -/
theorem top (above : KnownAbove transactions id ty env) : env.KnownType id ty :=
  above.known env.frames List.suffix_rfl (above.depth ▸ Nat.le_add_right _ _)

/-- What is known at all levels depends on the frames only. -/
theorem of_sameFrames
    (above : KnownAbove transactions id ty env)
    (sameFrames : final.frames = env.frames) :
    KnownAbove transactions id ty final where
  consistent := sameFrames ▸ above.consistent
  depth := sameFrames ▸ above.depth
  known lower isSuffix isAbove :=
    (above.known lower (sameFrames ▸ isSuffix) isAbove).of_sameFrames rfl

/-- What is known on top and in all that lies below it is known at every level. -/
theorem of_below
    (consistent : final.frames.Consistent)
    (depth : final.frames.depth = transactions.earlier + transactions.later)
    (top : final.KnownType id ty)
    (known :
      ∀ lower : FrameStack,
        lower.frames <:+ final.frames.below →
        transactions.earlier ≤ lower.depth →
        KnownType { final with frames := lower } id ty) :
    KnownAbove transactions id ty final where
  consistent := consistent
  depth := depth
  known lower isSuffix isAbove := by
    rcases List.suffix_cons_iff.mp isSuffix with isTop | isLower
    · exact top.of_sameFrames (FrameStack.frames_injective isTop)
    · exact known lower isLower isAbove

/-- A new transaction shows what is known below it. -/
theorem push (above : KnownAbove transactions id ty env) :
    KnownAbove transactions.push id ty env.push := by
  have depth : env.push.frames.depth = transactions.earlier + (transactions.later + 1) := by
    rw [← Nat.add_assoc, ← above.depth]
    rfl
  refine of_below above.consistent.push depth (above.top.push above.consistent) ?_
  exact fun lower isSuffix isAbove => (above.known lower isSuffix isAbove).of_sameFrames rfl

/-- Where the type stays known on top, it stays known at every level. -/
theorem keep
    (above : KnownAbove transactions id ty env)
    (keeps : KeepsKnown id ty env final) :
    KnownAbove transactions id ty final := by
  have below := (Restored.of_run keeps.run).below
  refine of_below (keeps.run.consistent above.consistent) ?_
    (keeps.known above.consistent above.top) fun lower isSuffix isAbove => ?_
  · rw [FrameStack.depth, below]
    exact above.depth
  · rw [below] at isSuffix
    have isLower : lower.frames <:+ env.frames.frames := isSuffix.trans (List.suffix_cons _ _)
    exact (above.known lower isLower isAbove).of_sameFrames rfl

/-- A commit leaves fewer levels, and the type is known at all of them. -/
theorem commit (above : KnownAbove transactions id ty env) :
    KnownAbove transactions.commit id ty (env.finish true) := by
  have depth := above.depth
  cases below : env.frames.below with
  | nil =>
      have refused : env.finish true = env := by
        simp [finish, commit?, FrameStack.commit?, below]
      rw [FrameStack.depth, below] at depth
      obtain ⟨earlier, later⟩ := transactions
      obtain ⟨rfl, rfl⟩ : earlier = 0 ∧ later = 0 := by
        simpa [eq_comm] using depth
      rw [refused]
      exact above
  | cons parent rest =>
      have merged : env.finish true =
          { env with frames := { top := parent.absorb env.frames.top, below := rest } } := by
        simp [finish, commit?, FrameStack.commit?, below]
      have consistent := consistent_finish above.consistent true
      have top := above.top.commit above.consistent
      rw [FrameStack.depth, below, List.length_cons] at depth
      refine of_below consistent ?_ top fun lower isSuffix isAbove => ?_
      · rw [merged]
        obtain ⟨earlier, _ | later⟩ := transactions
        all_goals
          simp only [OpenTransactions.commit, FrameStack.depth] at depth ⊢
          omega
      · rw [merged] at isSuffix
        have isLower : lower.frames <:+ env.frames.frames := by
          rw [env.frames.frames_eq, below]
          exact isSuffix.trans ((List.suffix_cons _ _).trans (List.suffix_cons _ _))
        refine (above.known lower isLower ?_).of_sameFrames rfl
        -- if the commit merges an earlier transaction, there is no level below it to know of
        have fits : lower.depth + 1 ≤ rest.length := isSuffix.length_le
        obtain ⟨earlier, _ | later⟩ := transactions
        all_goals
          simp only [OpenTransactions.commit] at depth isAbove ⊢
          omega

/-- An abort leads back to a level at which the type is known, if its transaction is a later one. -/
theorem abort
    {left : OpenTransactions}
    (above : KnownAbove transactions id ty env)
    (aborted : transactions.abort? = some left) :
    KnownAbove left id ty (env.finish false) := by
  have depth := above.depth
  cases below : env.frames.below with
  | nil =>
      have refused : env.finish false = env := by
        simp [finish, abort?, FrameStack.abort?, below]
      rw [FrameStack.depth, below] at depth
      obtain ⟨earlier, later⟩ := transactions
      obtain ⟨rfl, rfl⟩ : earlier = 0 ∧ later = 0 := by
        simpa [eq_comm] using depth
      cases aborted
      rw [refused]
      exact above
  | cons parent rest =>
      have uncovered : env.finish false = { env with frames := { top := parent, below := rest } } := by
        simp [finish, abort?, FrameStack.abort?, below]
      have isLower : (env.finish false).frames.frames <:+ env.frames.frames := by
        rw [uncovered, env.frames.frames_eq, below]
        exact List.suffix_cons _ _
      obtain ⟨earlier, _ | later⟩ := transactions
      · cases earlier with
        | zero => simp [FrameStack.depth, below] at depth
        | succ earlier => cases aborted
      · cases aborted
        refine
          { consistent := consistent_finish above.consistent false
            depth := ?_
            known := fun lower isSuffix isAbove =>
              (above.known lower (isSuffix.trans isLower) isAbove).of_sameFrames rfl }
        rw [uncovered]
        simp only [FrameStack.depth, below, List.length_cons] at depth ⊢
        omega

/-- Either end of a later transaction leaves the type known at all levels. -/
theorem finish
    {left : OpenTransactions}
    {keep : Bool}
    (above : KnownAbove transactions id ty env)
    (finished : transactions.finish? keep = some left) :
    KnownAbove left id ty (env.finish keep) := by
  cases keep with
  | true =>
      cases finished
      exact above.commit
  | false => exact above.abort finished

end KnownAbove

end Environment

/-! ## Operations -/

section

variable {id : ExprId} {ty : Ty}

open Environment (KeepsKnown KnownIn)

/-- Inference keeps the type of another expression if it is known. -/
theorem Inference.within_obeysKeepsKnown (levels : Nat) (expr : Expr) (env : Environment) :
    Obeys (KeepsKnown id ty) (within levels expr) env := by
  intro final ended
  refine ⟨within_run levels expr env final ended, fun consistent known => ?_⟩
  have follows :
      Follows (KnownIn env.declared id ty) (KeepsKnown id ty) (within levels expr)
        (within levels expr) env :=
    within_keepsKnown levels expr trivial env
  exact ((follows ⟨rfl, consistent, known⟩).2 final ended).known consistent known

/-- Inference of an expression keeps what is known. -/
theorem infer_keepsKnown (expr : Expr) (env : Environment) :
    Obeys (KeepsKnown id ty) (infer expr) env :=
  .bind_environment (Inference.within_obeysKeepsKnown _ expr env)

/-- Checking a program keeps what is known. -/
theorem checkProgram_keepsKnown (env : Environment) :
    Obeys (KeepsKnown id ty) checkProgram env := by
  refine .bind (Checker.runAfter_obeys inferDeclaration_keepsKnown [] Checker.standard env)
    fun _ => ?_
  refine .bind (inferProgram_obeys inferDeclaration_keepsKnown _) fun _ => ?_
  exact .bind (Program.closeDeclarations_obeys .of_quiet _ _) fun _ => .pure _

/-- Inference answers with a known type and leaves everything as it was. -/
theorem infer_of_known
    {env : Environment}
    {expr : Expr}
    (known : env.KnownType expr.id ty) :
    infer expr env = .ok ty env := by
  have found :
      (env.frames.inferred? expr.id).filter (fun ty => !env.isUnbound ty) = some ty := by
    simp [known.recorded, known.isKnown]
  change Inference.within (env.options.maxDepth - env.context.depth) expr env = .ok ty env
  cases env.options.maxDepth - env.context.depth with
  | zero => exact Inference.memoized_of_known found
  | succ levels => exact Inference.memoized_of_known found

end

namespace Operation

open Environment (KnownAbove KeepsKnown)

variable {id : ExprId} {ty : Ty}

mutual

/-- No operation changes a known type, unless it aborts an earlier transaction. -/
theorem perform_knownAbove
    (operation : Operation)
    {env final : Environment}
    {transactions left : OpenTransactions}
    (above : KnownAbove transactions id ty env)
    (performed : operation.perform env = some final)
    (spared : operation.transactions? transactions = some left) :
    KnownAbove left id ty final := by
  have quiet {env final : Environment} (run : Environment.QuietRun env final) :
      KeepsKnown id ty env final :=
    .of_quiet run
  cases operation with
  | newScope | declareType | declareVariable =>
      cases performed
      cases spared
      exact above.of_sameFrames (frames_declare env _)
  | enableTrace | freshPlaceholder | freshLength =>
      cases performed
      cases spared
      exact above.of_sameFrames rfl
  | push =>
      cases performed
      cases spared
      exact above.push
  | commit | abort =>
      cases performed
      exact above.finish spared
  | transaction body succeeds =>
      rw [perform, Option.map_eq_some_iff] at performed
      obtain ⟨inner, inside, rfl⟩ := performed
      rw [transactions?, Option.bind_eq_some_iff] at spared
      obtain ⟨innerTransactions, insideSpared, finished⟩ := spared
      have innerAbove := performAll_knownAbove body above.push inside insideSpared
      exact innerAbove.finish finished
  | unify left right =>
      cases spared
      have calm := Environment.CalmRun.of_binds (unify_binds left right env final performed)
      exact above.keep (quiet calm.toQuietRun)
  | unifyLength left right =>
      cases spared
      have calm := Environment.CalmRun.of_binds (unifyLength_binds left right env final performed)
      exact above.keep (quiet calm.toQuietRun)
  | call callee args =>
      cases spared
      have calm := call_obeys Environment.CalmRun.call callee args env final performed
      exact above.keep (quiet calm.toQuietRun)
  | generalize ty =>
      cases performed
      cases spared
      exact above.keep (quiet (Environment.generalize_run ty env))
  | close ty =>
      cases performed
      cases spared
      exact above.keep (quiet (Environment.close_run ty env))
  | instantiate ty =>
      cases performed
      cases spared
      exact above.keep (quiet (Environment.instantiate_run ty env))
  | infer expr =>
      cases spared
      exact above.keep (infer_keepsKnown expr env final performed)
  | inferDeclaration scope name =>
      cases spared
      exact above.keep (inferDeclaration_keepsKnown scope name env final performed)
  | validate checker =>
      cases spared
      exact above.keep
        (Checker.problems_obeys inferDeclaration_keepsKnown checker env final performed)
  | runCheckers pipeline =>
      cases spared
      exact above.keep
        (Checker.runAfter_obeys inferDeclaration_keepsKnown [] pipeline env final performed)
  | inferProgram =>
      cases spared
      exact above.keep (inferProgram_obeys inferDeclaration_keepsKnown env final performed)
  | checkProgram =>
      cases spared
      exact above.keep (checkProgram_keepsKnown env final performed)

/-- Operations that abort no earlier transaction keep what is known at all levels. -/
theorem performAll_knownAbove
    (operations : List Operation)
    {env final : Environment}
    {transactions left : OpenTransactions}
    (above : KnownAbove transactions id ty env)
    (performed : performAll operations env = some final)
    (spared : transactionsAll? operations transactions = some left) :
    KnownAbove left id ty final := by
  cases operations with
  | nil =>
      cases performed
      cases spared
      exact above
  | cons operation rest =>
      rw [performAll, Option.bind_eq_some_iff] at performed
      obtain ⟨middle, first, others⟩ := performed
      rw [transactionsAll?, Option.bind_eq_some_iff] at spared
      obtain ⟨middleTransactions, firstSpared, othersSpared⟩ := spared
      have middleAbove := perform_knownAbove operation above first firstSpared
      exact performAll_knownAbove rest middleAbove others othersSpared

end

end Operation

/--
The type that is recorded for an expression stays, once it is more than an unbound
placeholder, whatever is done afterwards, unless a transaction is aborted that is open
by then.  From then on inference answers with it and leaves everything as it was.
-/
theorem known_types_are_stable
    {env final : Environment}
    {id : ExprId}
    {ty : Ty}
    {operations : List Operation}
    (reachable : env.Reachable)
    (recorded : env.frames.inferred? id = some ty)
    (isKnown : env.isUnbound ty = false)
    (spares : (Operation.transactionsAll? operations ⟨env.frames.depth, 0⟩).isSome)
    (performed : Operation.performAll operations env = some final) :
    final.frames.inferred? id = some ty ∧
      final.isUnbound ty = false ∧
      ∀ expr : Expr, expr.id = id → infer expr final = .ok ty final := by
  obtain ⟨left, spared⟩ := Option.isSome_iff_exists.mp spares
  have known : env.KnownType id ty := ⟨recorded, isKnown⟩
  have above : Environment.KnownAbove ⟨env.frames.depth, 0⟩ id ty env :=
    { consistent := reachable.consistent
      depth := rfl
      known := fun lower isSuffix isAbove => by
        have isWhole : lower.frames = env.frames.frames :=
          isSuffix.eq_of_length_le (Nat.succ_le_succ isAbove)
        exact known.of_sameFrames (FrameStack.frames_injective isWhole) }
  have finalKnown := (Operation.performAll_knownAbove operations above performed spared).top
  refine ⟨finalKnown.recorded, finalKnown.isKnown, ?_⟩
  rintro expr rfl
  exact infer_of_known finalKnown

/--
The type of a struct of an outside value stays as it was recorded, while the type of the
outside value is bound, released and bound again, and the transaction around it is kept.
-/
theorem known_types_are_stable_external :
    ∃ env final ty,
      (env.Reachable ∧ env.frames.depth = 1 ∧
        env.frames.inferred? ⟨0⟩ = some ty ∧ env.isUnbound ty = false) ∧
      Operation.performAll
        [.push, .unify (.placeholder .native ⟨0⟩) Ty.int, .abort, .commit,
          .transaction [.unify (.placeholder .native ⟨0⟩) Ty.bool] false,
          .unify (.placeholder .native ⟨0⟩) Ty.float]
        env = some final ∧
      final.expand ty = .struct [("x", Ty.float)] ∧
      final.frames.inferred? ⟨0⟩ = some ty ∧
      infer (.node ⟨⟨0⟩, .native, .synthetic⟩ (.literal (.bool true))) final = .ok ty final := by
  have computed :
      (Operation.performAll
          [.push, .infer (.node ⟨⟨0⟩, .native, .synthetic⟩
            (.struct [("x", .node ⟨⟨1⟩, .native, .synthetic⟩ (.external .uniform "x" none))]))]
          (Environment.empty Options.standard)).map
          (fun env => (env.frames.depth, env.frames.inferred? ⟨0⟩,
            env.isUnbound (.struct [("x", .placeholder .native ⟨0⟩)]),
            (Operation.performAll
              [.push, .unify (.placeholder .native ⟨0⟩) Ty.int, .abort, .commit,
                .transaction [.unify (.placeholder .native ⟨0⟩) Ty.bool] false,
                .unify (.placeholder .native ⟨0⟩) Ty.float]
              env).map (fun final => final.expand (.struct [("x", .placeholder .native ⟨0⟩)])))) =
        some (1, some (.struct [("x", .placeholder .native ⟨0⟩)]), false,
          some (.struct [("x", Ty.float)])) := by
    decide +kernel
  obtain ⟨env, started, shown⟩ := Option.map_eq_some_iff.mp computed
  simp only [Prod.mk.injEq] at shown
  obtain ⟨isDeep, recorded, isKnown, finalShown⟩ := shown
  obtain ⟨final, performed, expanded⟩ := Option.map_eq_some_iff.mp finalShown
  have reachable : env.Reachable := ⟨_, _, started⟩
  have spares :
      (Operation.transactionsAll?
        [.push, .unify (.placeholder .native ⟨0⟩) Ty.int, .abort, .commit,
          .transaction [.unify (.placeholder .native ⟨0⟩) Ty.bool] false,
          .unify (.placeholder .native ⟨0⟩) Ty.float]
        ⟨env.frames.depth, 0⟩).isSome := by
    rw [isDeep]
    decide
  obtain ⟨stillRecorded, _, answered⟩ :=
    known_types_are_stable reachable recorded isKnown spares performed
  exact
    ⟨env, final, _, ⟨reachable, isDeep, recorded, isKnown⟩, performed, expanded, stillRecorded,
      answered _ rfl⟩

end ShaderTyping
