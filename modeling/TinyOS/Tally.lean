import Mathlib

/- Counting the places of a finite table that satisfy a predicate, and how the count moves
   when one place changes. -/
namespace Tally
variable {κ α : Type*} [Fintype κ]

def tally (p : κ → Prop) [DecidablePred p] : Nat := (Finset.univ.filter p).card

theorem tally_congr {p q : κ → Prop} [DecidablePred p] [DecidablePred q]
    (same : ∀ k, p k ↔ q k) : tally p = tally q := by
  unfold tally
  congr 1
  ext k
  simp [same k]

theorem tally_eq_zero {p : κ → Prop} [DecidablePred p] : tally p = 0 ↔ ∀ k, ¬ p k := by
  simp [tally, Finset.filter_eq_empty_iff]

theorem tally_le (p : κ → Prop) [DecidablePred p] : tally p ≤ Fintype.card κ :=
  Finset.card_le_univ _

/-- One more place satisfies q than satisfies p. -/
theorem tally_gain {p q : κ → Prop} [DecidablePred p] [DecidablePred q] (k : κ)
    (elsewhere : ∀ j, j ≠ k → (q j ↔ p j)) (before : ¬ p k) (after : q k) :
    tally q = tally p + 1 := by
  classical
  have grown : Finset.univ.filter q = insert k (Finset.univ.filter p) := by
    ext j
    by_cases same : j = k
    · simp [same, after]
    · simp [same, elsewhere j same]
  unfold tally
  rw [grown, Finset.card_insert_of_notMem (by simp [before])]

variable [DecidableEq α]

/-- How many places of a table hold the value. -/
def occurrences (table : κ → Option α) (a : α) : Nat := tally (fun k => table k = some a)

theorem occurrences_eq_zero {table : κ → Option α} {a : α} :
    occurrences table a = 0 ↔ ∀ k, table k ≠ some a := tally_eq_zero

theorem occurrences_pos {table : κ → Option α} {a : α} {k : κ} (holds : table k = some a) :
    0 < occurrences table a := by
  rw [Nat.pos_iff_ne_zero]
  exact fun none => occurrences_eq_zero.mp none k holds

theorem occurrences_congr {table table' : κ → Option α} (same : ∀ k, table' k = table k) (a : α) :
    occurrences table' a = occurrences table a :=
  tally_congr (fun k => by rw [same k])

/-- Overwriting one place gives up its old value and takes up the new one. -/
theorem occurrences_overwrite {table table' : κ → Option α} (k : κ)
    (elsewhere : ∀ j, j ≠ k → table' j = table j) (a : α) :
    occurrences table' a + (if table k = some a then 1 else 0) =
      occurrences table a + (if table' k = some a then 1 else 0) := by
  have others : ∀ j, j ≠ k → (table' j = some a ↔ table j = some a) := by
    intro j apart
    rw [elsewhere j apart]
  have agree (here : table' k = some a ↔ table k = some a) (j : κ) :
      table' j = some a ↔ table j = some a := by
    by_cases same : j = k
    · exact same ▸ here
    · exact others j same
  unfold occurrences
  by_cases before : table k = some a <;> by_cases after : table' k = some a
  · have same := tally_congr (agree (iff_of_true after before))
    simp [before, after, same]
  · have less := tally_gain k (fun j apart => (others j apart).symm) after before
    simp [before, after, less]
  · simp [before, after, tally_gain k others before after]
  · have same := tally_congr (agree (iff_of_false after before))
    simp [before, after, same]

end Tally
