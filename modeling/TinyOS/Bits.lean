import Mathlib

/- Sets of small numbers kept as the bits of a word: what setting, clearing and finding bits does
   to membership. -/
namespace Bits
variable {w : Nat}

/- i is in the set v. -/
def Has (v : BitVec w) (i : Nat) : Prop := v.getLsbD i = true

instance hasDecidable (v : BitVec w) (i : Nat) : Decidable (Has v i) :=
  inferInstanceAs (Decidable (_ = true))

def set (v : BitVec w) (i : Nat) : BitVec w := v ||| 1#w <<< i
def clear (v : BitVec w) (i : Nat) : BitVec w := v &&& ~~~(1#w <<< i)

/- (v & 1<<i) != 0 -/
def test (v : BitVec w) (i : Nat) : Bool := v &&& 1#w <<< i != 0#w

def lowest (v : BitVec w) : Nat := v.ctz.toNat

variable {v : BitVec w} {i j : Nat}

theorem has_lt (has : Has v i) : i < w := BitVec.lt_of_getLsbD has

theorem has_mask (small : i < w) : Has (1#w <<< i) j ↔ j = i := by
  rw [Has, ← BitVec.twoPow_eq, BitVec.getLsbD_twoPow]
  simp [small, eq_comm]

theorem has_set (small : i < w) : Has (set v i) j ↔ Has v j ∨ j = i := by
  rw [← has_mask small, Has, set, BitVec.getLsbD_or, Bool.or_eq_true, Has, Has]

theorem has_clear (small : i < w) : Has (clear v i) j ↔ Has v j ∧ j ≠ i := by
  have other : Has (~~~(1#w <<< i)) j ↔ j < w ∧ j ≠ i := by
    rw [Ne, ← has_mask small, Has, BitVec.getLsbD_not, Bool.and_eq_true, decide_eq_true_eq,
      Bool.not_eq_true', ← Bool.not_eq_true, Has]
  rw [Has, clear, BitVec.getLsbD_and, Bool.and_eq_true]
  exact ⟨fun both => ⟨both.1,(other.mp both.2).2⟩,
    fun both => ⟨both.1,other.mpr ⟨has_lt both.1,both.2⟩⟩⟩

theorem eq_zero_iff : v = 0#w ↔ ∀ j, ¬ Has v j := by
  constructor
  · rintro rfl j
    simp [Has]
  · intro none
    refine BitVec.eq_of_getLsbD_eq fun j _ => ?_
    simpa [Has] using none j

theorem test_iff (small : i < w) : test v i = true ↔ Has v i := by
  have both (j : Nat) : Has (v &&& 1#w <<< i) j ↔ Has v j ∧ j = i := by
    rw [← has_mask small, Has, BitVec.getLsbD_and, Bool.and_eq_true, Has, Has]
  rw [test, bne_iff_ne, ne_eq, eq_zero_iff]
  constructor
  · intro some
    obtain ⟨j,has⟩ := not_forall_not.mp some
    exact ((both j).mp has).2 ▸ ((both j).mp has).1
  · intro has none
    exact none i ((both i).mpr ⟨has,rfl⟩)

theorem has_lowest (some : v ≠ 0#w) : Has v (lowest v) := BitVec.getLsbD_true_ctz_of_ne_zero some

theorem lowest_le (has : Has v i) : lowest v ≤ i := by
  by_contra below
  have out := BitVec.getLsbD_false_of_lt_ctz (not_le.mp below)
  rw [Has, out] at has
  cases has

end Bits
