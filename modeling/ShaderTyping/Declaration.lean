import ShaderTyping.Diagnostic

namespace ShaderTyping

/-!
# Declarations by scope and name

A `DeclarationTable` holds at most one value for each scope and name and lists
its declarations by scope number, then by name.  Looking a name up from a scope
finds the declaration of the nearest scope around it.
-/

/-- A value declared under a name in one scope. -/
structure Declaration (α : Type) where
  scope : ScopeId
  name : String
  value : α
  deriving Repr

namespace Declaration

/-- The order of declarations: by scope number, then by name. -/
def Precedes (first second : Declaration α) : Prop :=
  first.scope.number < second.scope.number ∨
    first.scope = second.scope ∧ first.name < second.name

/-- Whether a declaration is listed before another one can be decided. -/
instance (first second : Declaration α) : Decidable (first.Precedes second) :=
  inferInstanceAs (Decidable (_ ∨ _))

/-- Whether a declaration introduces the given name in the given scope. -/
def introduces (declaration : Declaration α) (scope : ScopeId) (name : String) : Bool :=
  declaration.scope == scope && declaration.name == name

/-- The order of declarations is transitive. -/
theorem Precedes.trans
    {first second third : Declaration α}
    (firstSecond : first.Precedes second)
    (secondThird : second.Precedes third) :
    first.Precedes third := by
  rcases firstSecond with before | ⟨sameScope, nameBefore⟩ <;>
    rcases secondThird with later | ⟨sameLater, nameLater⟩
  · exact Or.inl (Nat.lt_trans before later)
  · exact Or.inl (sameLater ▸ before)
  · exact Or.inl (sameScope ▸ later)
  · exact Or.inr ⟨sameScope.trans sameLater, String.lt_trans nameBefore nameLater⟩

/-- Declarations of different names or in different scopes are ordered. -/
theorem precedes_of_not_precedes
    {first second : Declaration α}
    (different : second.introduces first.scope first.name = false)
    (notBefore : ¬ first.Precedes second) :
    second.Precedes first := by
  rcases Nat.lt_trichotomy first.scope.number second.scope.number with
    before | sameNumber | after
  · exact absurd (Or.inl before) notBefore
  · have sameScope : first.scope = second.scope := ScopeId.ext sameNumber
    refine Or.inr ⟨sameScope.symm, ?_⟩
    have nameNotBefore : ¬ first.name < second.name := fun before =>
      notBefore (Or.inr ⟨sameScope, before⟩)
    have nameNe : second.name ≠ first.name := by
      intro sameName
      simp [introduces, sameScope, sameName] at different
    exact Decidable.byContradiction fun notAfter =>
      nameNe (String.le_antisymm nameNotBefore notAfter)
  · exact Or.inl after

end Declaration

/-- Why a declaration is refused. -/
inductive DeclarationError where
  | duplicate (scope : ScopeId) (name : String)
  | unknownScope (scope : ScopeId)
  deriving Repr, DecidableEq

namespace DeclarationError

/-- The text of a refusal. -/
def message : DeclarationError → String
  | .duplicate scope name =>
      "`" ++ name ++ "` is already declared in scope " ++ scope.text
  | .unknownScope scope =>
      "scope " ++ scope.text ++ " does not exist"

/-- The diagnostic that reports a refusal. -/
def toDiagnostic (error : DeclarationError) : Diagnostic :=
  match error with
  | .duplicate _ name =>
      (Diagnostic.error .duplicateDeclaration error.message).withHelp
        ("rename one of the `" ++ name ++ "` declarations")
  | .unknownScope _ =>
      Diagnostic.error .inferenceIncomplete error.message

end DeclarationError

/-- Declarations of one kind, listed by scope number and name. -/
structure DeclarationTable (α : Type) where
  entries : List (Declaration α)
  sorted : entries.Pairwise Declaration.Precedes

namespace DeclarationTable

/-- The table without declarations. -/
def empty : DeclarationTable α where
  entries := []
  sorted := List.Pairwise.nil

/-- Put a declaration in front of the first one that comes after it. -/
def place (added : Declaration α) : List (Declaration α) → List (Declaration α)
  | [] => [added]
  | first :: rest =>
      if added.Precedes first then
        added :: first :: rest
      else
        first :: place added rest

/-- Placing a declaration adds it and keeps the others. -/
theorem mem_place
    {added candidate : Declaration α}
    {entries : List (Declaration α)} :
    candidate ∈ place added entries ↔ candidate = added ∨ candidate ∈ entries := by
  induction entries with
  | nil => simp [place]
  | cons first rest inductionHypothesis =>
      unfold place
      split
      · simp
      · simp only [List.mem_cons, inductionHypothesis]
        constructor
        · rintro (isFirst | isAdded | inRest)
          · exact Or.inr (Or.inl isFirst)
          · exact Or.inl isAdded
          · exact Or.inr (Or.inr inRest)
        · rintro (isAdded | isFirst | inRest)
          · exact Or.inr (Or.inl isAdded)
          · exact Or.inl isFirst
          · exact Or.inr (Or.inr inRest)

/-- Placing a declaration of a new name keeps the order. -/
theorem place_pairwise
    {added : Declaration α}
    {entries : List (Declaration α)}
    (sorted : entries.Pairwise Declaration.Precedes)
    (isNew : ∀ entry ∈ entries, entry.introduces added.scope added.name = false) :
    (place added entries).Pairwise Declaration.Precedes := by
  induction entries with
  | nil => simp [place]
  | cons first rest inductionHypothesis =>
      obtain ⟨firstBeforeRest, restSorted⟩ := List.pairwise_cons.mp sorted
      unfold place
      split
      · rename_i addedBefore
        refine List.pairwise_cons.mpr ⟨?_, sorted⟩
        intro entry member
        rcases List.mem_cons.mp member with isFirst | inRest
        · exact isFirst ▸ addedBefore
        · exact addedBefore.trans (firstBeforeRest entry inRest)
      · rename_i notBefore
        refine List.pairwise_cons.mpr
          ⟨?_, inductionHypothesis restSorted
            fun entry member => isNew entry (List.mem_cons_of_mem _ member)⟩
        intro entry member
        rcases mem_place.mp member with isAdded | inRest
        · exact isAdded ▸ Declaration.precedes_of_not_precedes
            (isNew first List.mem_cons_self) notBefore
        · exact firstBeforeRest entry inRest

/-- The declaration of a name made directly in a scope. -/
def find? (table : DeclarationTable α) (scope : ScopeId) (name : String) :
    Option (Declaration α) :=
  table.entries.find? fun entry => entry.introduces scope name

/-- The value declared directly in a scope, without looking further out. -/
def local? (table : DeclarationTable α) (scope : ScopeId) (name : String) : Option α :=
  (table.find? scope name).map Declaration.value

/-- Declare a value, unless the scope already declares the name. -/
def insert (table : DeclarationTable α) (added : Declaration α) :
    Except DeclarationError (DeclarationTable α) :=
  match found : table.find? added.scope added.name with
  | some _ => .error (.duplicate added.scope added.name)
  | none =>
      .ok
        { entries := place added table.entries
          sorted := place_pairwise table.sorted (by
            simpa [find?] using found) }

/--
The declaration that a name stands for in a scope: the one made in the nearest
scope around it, with that scope.
-/
def lookup? (table : DeclarationTable α) (tree : ScopeTree)
    (scope : ScopeId) (name : String) : Option (ScopeId × α) :=
  let candidates := table.entries.filter fun entry => entry.name == name
  (tree.ancestors scope).findSome? fun around =>
    (candidates.find? fun entry => entry.scope == around).map fun entry =>
      (around, entry.value)

/-- Looking a name up asks the scopes for it from the inside out. -/
theorem lookup?_eq
    (table : DeclarationTable α)
    (tree : ScopeTree)
    (scope : ScopeId)
    (name : String) :
    table.lookup? tree scope name =
      (tree.ancestors scope).findSome? fun around =>
        (table.local? around name).map fun value => (around, value) := by
  simp only [lookup?, local?, find?, List.find?_filter, Option.map_map]
  congr 1
  funext around
  have same :
      (fun entry : Declaration α => entry.introduces around name) =
        fun entry => decide ((entry.name == name) = true ∧ (entry.scope == around) = true) := by
    funext entry
    rw [Bool.eq_iff_iff]
    simp [Declaration.introduces, and_comm]
  rw [same]
  rfl

/-- The number of declarations. -/
def size (table : DeclarationTable α) : Nat :=
  table.entries.length

end DeclarationTable

end ShaderTyping
