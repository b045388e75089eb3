import Mathlib.Data.Finset.Card
import Mathlib.Logic.Relation

namespace ShaderTyping

/-!
# Tables whose values mention keys

Bindings of placeholders, bindings of length variables and definitions of types
are tables of one kind: a key may have a value, and a value mentions further keys.
Following such a table comes to an end if no key leads back to itself.  For a
table with finitely many values this gives every value a rank that falls with
each step, which is what bounds the walks of the library.
-/

namespace Table

variable {κ ν : Type}

/-- A key leads to the keys that its value mentions. -/
def Leads
    (value? : κ → Option ν)
    (mentions : ν → κ → Prop)
    (source target : κ) : Prop :=
  ∃ value, value? source = some value ∧ mentions value target

/-- No key leads back to itself. -/
def Acyclic
    (value? : κ → Option ν)
    (mentions : ν → κ → Prop) : Prop :=
  ∀ key, ¬ Relation.TransGen (Leads value? mentions) key key

/-- A value is followed by the values of the keys that it mentions. -/
def Follows
    (value? : κ → Option ν)
    (mentions : ν → κ → Prop)
    (value next : ν) : Prop :=
  ∃ key, mentions value key ∧ value? key = some next

variable {value? : κ → Option ν} {mentions : ν → κ → Prop}

/-- Fewer entries close no cycle. -/
theorem Acyclic.of_le
    {fewer : κ → Option ν}
    (acyclic : Acyclic value? mentions)
    (kept : ∀ {key value}, fewer key = some value → value? key = some value) :
    Acyclic fewer mentions := by
  intro key cycle
  refine acyclic key (Relation.TransGen.mono ?_ key key cycle)
  rintro source target ⟨value, found, isMentioned⟩
  exact ⟨value, kept found, isMentioned⟩

/-- There is no cycle if the keys that values mention have no values. -/
theorem Acyclic.of_final
    (final :
      ∀ {key value mentioned},
        value? key = some value → mentions value mentioned → value? mentioned = none) :
    Acyclic value? mentions := by
  intro key cycle
  obtain ⟨_, ⟨value, found, _⟩, _⟩ := Relation.TransGen.head'_iff.mp cycle
  obtain ⟨_, _, _, lastFound, isMentioned⟩ := Relation.TransGen.tail'_iff.mp cycle
  rw [final lastFound isMentioned] at found
  contradiction

/--
New entries close no cycle if nothing that they mention leads to their keys.

A path of the larger table is a path of the smaller one, or it passes the new
keys, and then it ends behind something that the new entries mention.
-/
theorem Acyclic.of_new
    {larger : κ → Option ν}
    (acyclic : Acyclic value? mentions)
    (isNew isMentioned : κ → Prop)
    (grown :
      ∀ {source target},
        Leads larger mentions source target →
          Leads value? mentions source target ∨ isNew source ∧ isMentioned target)
    (noReturn :
      ∀ {mentioned key},
        isMentioned mentioned →
        isNew key →
        ¬ Relation.ReflTransGen (Leads value? mentions) mentioned key) :
    Acyclic larger mentions := by
  have split :
      ∀ {source target},
        Relation.TransGen (Leads larger mentions) source target →
          Relation.TransGen (Leads value? mentions) source target ∨
            (∃ key, isNew key ∧
              Relation.ReflTransGen (Leads value? mentions) source key) ∧
            ∃ mentioned, isMentioned mentioned ∧
              Relation.ReflTransGen (Leads value? mentions) mentioned target := by
    intro source target path
    induction path with
    | single step =>
        rcases grown step with old | ⟨newSource, mentionedTarget⟩
        · exact Or.inl (.single old)
        · exact Or.inr ⟨⟨source, newSource, .refl⟩, ⟨_, mentionedTarget, .refl⟩⟩
    | @tail middle target path step inductionHypothesis =>
        rcases grown step with old | ⟨newMiddle, mentionedTarget⟩
        · rcases inductionHypothesis with
            oldPath | ⟨before, mentioned, isMentioned, after⟩
          · exact Or.inl (oldPath.tail old)
          · exact Or.inr ⟨before, mentioned, isMentioned, after.tail old⟩
        · rcases inductionHypothesis with oldPath | ⟨_, mentioned, isMentioned, after⟩
          · exact Or.inr
              ⟨⟨middle, newMiddle, oldPath.to_reflTransGen⟩, target, mentionedTarget, .refl⟩
          · exact (noReturn isMentioned newMiddle after).elim
  intro key cycle
  rcases split cycle with oldCycle | ⟨⟨newKey, isNew, before⟩, mentioned, isMentioned, after⟩
  · exact acyclic key oldCycle
  · exact noReturn isMentioned isNew (after.trans before)

/-- If no key leads back to itself, no value is followed by itself. -/
theorem Acyclic.not_transGen_follows
    (acyclic : Acyclic value? mentions)
    (value : ν) :
    ¬ Relation.TransGen (Follows value? mentions) value value := by
  have between :
      ∀ {first last},
        Relation.TransGen (Follows value? mentions) first last →
          ∃ key final, mentions first key ∧ value? final = some last ∧
            Relation.ReflTransGen (Leads value? mentions) key final := by
    intro first last path
    induction path with
    | single step =>
        obtain ⟨key, isMentioned, found⟩ := step
        exact ⟨key, key, isMentioned, found, .refl⟩
    | tail path step inductionHypothesis =>
        obtain ⟨key, final, isMentioned, found, keys⟩ := inductionHypothesis
        obtain ⟨next, nextMentioned, nextFound⟩ := step
        exact ⟨key, next, isMentioned, nextFound, keys.tail ⟨_, found, nextMentioned⟩⟩
  intro cycle
  obtain ⟨key, final, isMentioned, found, keys⟩ := between cycle
  exact acyclic final (.head' ⟨value, found, isMentioned⟩ keys)

/--
The values of a finite table without cycles have ranks that do not exceed the
number of values, fall along the table, and grow with what a value mentions.
-/
theorem Acyclic.exists_monotone_rank
    (acyclic : Acyclic value? mentions)
    (values : List ν)
    (listed : ∀ {key value}, value? key = some value → value ∈ values) :
    ∃ rank : ν → Nat,
      (∀ value, rank value ≤ values.length) ∧
        (∀ {value next}, Follows value? mentions value next → rank next < rank value) ∧
          ∀ {value other},
            (∀ {key}, mentions other key → mentions value key) → rank other ≤ rank value := by
  classical
  -- The rank of a value is the number of values behind it.
  let behind (value : ν) : Finset ν :=
    values.toFinset.filter fun other =>
      Relation.TransGen (Follows value? mentions) value other
  refine ⟨fun value => (behind value).card, ?_, ?_, ?_⟩
  · intro value
    exact (Finset.card_filter_le _ _).trans (List.toFinset_card_le values)
  · intro value next step
    have found := step.choose_spec.2
    refine Finset.card_lt_card (Finset.ssubset_iff_of_subset ?_ |>.mpr ⟨next, ?_, ?_⟩)
    · intro other member
      simp only [behind, Finset.mem_filter] at member ⊢
      exact ⟨member.1, .head step member.2⟩
    · simp only [behind, Finset.mem_filter, List.mem_toFinset]
      exact ⟨listed found, .single step⟩
    · intro member
      simp only [behind, Finset.mem_filter] at member
      exact acyclic.not_transGen_follows next member.2
  · intro value other included
    refine Finset.card_le_card fun last member => ?_
    simp only [behind, Finset.mem_filter] at member ⊢
    obtain ⟨isValue, path⟩ := member
    obtain ⟨next, ⟨key, isMentioned, found⟩, rest⟩ := Relation.TransGen.head'_iff.mp path
    exact ⟨isValue, .head' ⟨key, included isMentioned, found⟩ rest⟩

/--
The values of a finite table without cycles have ranks that fall along the table
and do not exceed the number of values.
-/
theorem Acyclic.exists_rank
    (acyclic : Acyclic value? mentions)
    (values : List ν)
    (listed : ∀ {key value}, value? key = some value → value ∈ values) :
    ∃ rank : ν → Nat,
      (∀ value, rank value ≤ values.length) ∧
        ∀ {value next}, Follows value? mentions value next → rank next < rank value := by
  obtain ⟨rank, bounded, falls, _⟩ := acyclic.exists_monotone_rank values listed
  exact ⟨rank, bounded, falls⟩

/-- There is no cycle if values have ranks that fall along the table. -/
theorem Acyclic.of_rank
    (rank : ν → Nat)
    (falls : ∀ {value next}, Follows value? mentions value next → rank next < rank value) :
    Acyclic value? mentions := by
  have descends :
      ∀ {first last value},
        Relation.TransGen (Leads value? mentions) first last →
        value? last = some value →
        ∃ start, value? first = some start ∧ rank value < rank start := by
    intro first last value path found
    induction path generalizing value with
    | single step =>
        obtain ⟨start, startFound, isMentioned⟩ := step
        exact ⟨start, startFound, falls ⟨_, isMentioned, found⟩⟩
    | tail _ step inductionHypothesis =>
        obtain ⟨middle, middleFound, isMentioned⟩ := step
        obtain ⟨start, startFound, isLess⟩ := inductionHypothesis middleFound
        exact ⟨start, startFound, (falls ⟨_, isMentioned, found⟩).trans isLess⟩
  intro key cycle
  obtain ⟨_, ⟨value, found, _⟩, _⟩ := Relation.TransGen.head'_iff.mp cycle
  obtain ⟨start, startFound, isLess⟩ := descends cycle found
  cases startFound.symm.trans found
  exact Nat.lt_irrefl _ isLess

/-- There is no cycle if keys have ranks that fall from a key to those it leads to. -/
theorem Acyclic.of_keyRank
    (rank : κ → Nat)
    (falls : ∀ {source target}, Leads value? mentions source target → rank target < rank source) :
    Acyclic value? mentions := by
  intro key cycle
  have descends :
      ∀ {first last}, Relation.TransGen (Leads value? mentions) first last →
        rank last < rank first := by
    intro first last path
    induction path with
    | single step => exact falls step
    | tail _ step inductionHypothesis => exact (falls step).trans inductionHypothesis
  exact Nat.lt_irrefl _ (descends cycle)

/-- Following a finite table without cycles comes to an end. -/
theorem Acyclic.wellFounded_follows
    (acyclic : Acyclic value? mentions)
    (values : List ν)
    (listed : ∀ {key value}, value? key = some value → value ∈ values) :
    WellFounded (fun next value => Follows value? mentions value next) := by
  obtain ⟨rank, _, falls⟩ := acyclic.exists_rank values listed
  exact Subrelation.wf falls (measure rank).wf

end Table

end ShaderTyping
