import Mathlib

/- A queue kept in a circular array: its elements lie in consecutive places from the first one
   on, the place after the last one of the array being place zero. -/
namespace RingBuffer
variable {α : Type*} {capacity : Nat}

structure Ring (α : Type*) (capacity : Nat) where
  cells : Nat → α
  first : Nat
  used : Nat
  first_lt : first < capacity
  used_le : used ≤ capacity

def Ring.place (b : Ring α capacity) (i : Nat) : Nat := (b.first + i) % capacity

def Ring.contents (b : Ring α capacity) : List α :=
  (List.range b.used).map fun i => b.cells (b.place i)

/-- One place on, wrapping after the last. -/
def advance (capacity p : Nat) : Nat := if p = capacity - 1 then 0 else p + 1

theorem advance_lt {p : Nat} (inside : p < capacity) : advance capacity p < capacity := by
  unfold advance
  split <;> omega

theorem advance_eq_mod {p : Nat} (inside : p < capacity) :
    advance capacity p = (p + 1) % capacity := by
  unfold advance
  split
  · have last : p + 1 = capacity := by omega
    rw [last, Nat.mod_self]
  · exact (Nat.mod_eq_of_lt (by omega)).symm

theorem place_zero (b : Ring α capacity) : b.place 0 = b.first :=
  Nat.mod_eq_of_lt b.first_lt

theorem place_ne (b : Ring α capacity) {i j : Nat} (before : i < j) (fits : j < capacity) :
    b.place i ≠ b.place j := by
  intro same
  have away : i % capacity = j % capacity := Nat.ModEq.add_left_cancel' b.first same
  rw [Nat.mod_eq_of_lt (by omega), Nat.mod_eq_of_lt fits] at away
  omega

def Ring.push (b : Ring α capacity) (a : α) (room : b.used < capacity) : Ring α capacity :=
  { cells := Function.update b.cells (b.place b.used) a
    first := b.first
    used := b.used + 1
    first_lt := b.first_lt
    used_le := room }

def Ring.pop (b : Ring α capacity) : Ring α capacity :=
  { cells := b.cells
    first := advance capacity b.first
    used := b.used - 1
    first_lt := advance_lt b.first_lt
    used_le := by have := b.used_le; omega }

theorem push_contents (b : Ring α capacity) (a : α) (room : b.used < capacity) :
    (b.push a room).contents = b.contents ++ [a] := by
  have kept (i : Nat) (old : i < b.used) :
      Function.update b.cells (b.place b.used) a (b.place i) = b.cells (b.place i) :=
    Function.update_of_ne (place_ne b old room) _ _
  have places : (b.push a room).place = b.place := rfl
  simp only [Ring.contents, places]
  simp only [Ring.push, List.range_succ, List.map_append, List.map_cons, List.map_nil,
    Function.update_self]
  congr 1
  apply List.map_congr_left
  intro i old
  exact kept i (List.mem_range.mp old)

theorem pop_contents (b : Ring α capacity) (stored : 0 < b.used) :
    b.contents = b.cells b.first :: b.pop.contents := by
  obtain ⟨k,size⟩ : ∃ k, b.used = k + 1 := ⟨b.used - 1,by omega⟩
  have shifted (i : Nat) : b.pop.place i = b.place (i + 1) := by
    have moved := advance_eq_mod b.first_lt
    simp only [Ring.place, Ring.pop, moved, Nat.mod_add_mod]
    congr 1
    omega
  have left : b.pop.used = k := by simp [Ring.pop, size]
  simp only [Ring.contents, left, shifted, size]
  rw [List.range_succ_eq_map, List.map_cons, List.map_map, place_zero]
  rfl

@[simp] theorem contents_length (b : Ring α capacity) : b.contents.length = b.used := by
  simp [Ring.contents]

end RingBuffer
