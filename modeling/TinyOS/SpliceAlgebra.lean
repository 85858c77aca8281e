import TinyOS.ResourceList

/- rl_splice as util.h documents it: it exchanges the next fields of two nodes, joins their rings or
   splits their ring, and undoes itself. -/
namespace ResourceList
open Rings
variable {α κ : Type} [DecidableEq α] {h : Heap α κ}

/- The laws of rl_splice(a,b) on h. -/
structure SpliceLaws (h : Heap α κ) (a b : α) : Prop where
  result : (rlSplice h a b).1 = b
  wellFormed : (rlSplice h a b).2.WellFormed
  keys : (rlSplice h a b).2.key = h.key
  next : ∀ p, p ≠ a → p ≠ b → (rlSplice h a b).2.next p = h.next p
  prev : ∀ p, p ≠ h.next a → p ≠ h.next b → (rlSplice h a b).2.prev p = h.prev p
  swapped : (rlSplice h a b).2.next a = h.next b ∧ (rlSplice h a b).2.next b = h.next a
  joins : ∀ xs ys, IsList h a xs → IsList h b ys → b ∉ a :: xs →
    IsList (rlSplice h a b).2 a (ys ++ b :: xs)
  splits : ∀ xs ys, IsList h a (xs ++ b :: ys) →
    IsList (rlSplice h a b).2 a ys ∧ IsList (rlSplice h a b).2 b xs
  same : a = b → (rlSplice h a b).2 = h
  twice : (rlSplice (rlSplice h a b).2 a b).2 = h

theorem splice_twice (wf : h.WellFormed) (a b : α) :
    (rlSplice (rlSplice h a b).2 a b).2 = h := by
  have once := rl_splice_links wf a b
  have wf' : (rlSplice h a b).2.WellFormed := once ▸ exchange_wellFormed wf a b
  rw [rl_splice_links wf' a b, once]
  simp only [exchange_twice wf]

/-- Whichever of the nodes a, b and their successors coincide. -/
theorem splice_laws (wf : h.WellFormed) (a b : α) : SpliceLaws h a b := by
  have links := rl_splice_links wf a b
  refine
    { result := rfl
      wellFormed := links ▸ exchange_wellFormed wf a b
      keys := by rw [links]
      next := fun p first second => ?_
      prev := fun p first second => ?_
      swapped := ?_
      joins := fun xs ys one two apart => ?_
      splits := fun xs ys ring => ?_
      same := ?_
      twice := splice_twice wf a b }
  · rw [links, exchange_next, if_neg second, if_neg first]
  · rw [links, exchange_prev, if_neg second, if_neg first]
  · rw [links, exchange_next, exchange_next]
    by_cases same : a = b
    · simp [same]
    · simp [same]
  · rw [links]
    exact ring_join wf one two (ring_avoids (ring_closed one) two apart)
  · rw [links]
    exact ring_split wf ring
  · rintro rfl
    rw [links, exchange_self wf]

/-- Two nodes of a finite heap are equal, on different rings or on the same one. -/
theorem rings_cases [Finite α] (wf : h.WellFormed) (a b : α) : a = b ∨
    (∃ xs ys, IsList h a xs ∧ IsList h b ys ∧ b ∉ a :: xs) ∨
    ∃ xs ys, IsList h a (xs ++ b :: ys) := by
  obtain ⟨xs,one⟩ := ring_through wf a
  obtain ⟨ys,two⟩ := ring_through wf b
  by_cases inside : b ∈ a :: xs
  · rcases List.mem_cons.mp inside with same | member
    · exact Or.inl same.symm
    · obtain ⟨before,after,rfl⟩ := List.append_of_mem member
      exact Or.inr (Or.inr ⟨before,after,one⟩)
  · exact Or.inr (Or.inl ⟨xs,ys,one,two,inside⟩)

/-- The laws hold for any two nodes, and leave no case open. -/
theorem splice_algebra (wf : h.WellFormed) (a b : α) : SpliceLaws h a b ∧
    (Finite α → a = b ∨ (∃ xs ys, IsList h a xs ∧ IsList h b ys ∧ b ∉ a :: xs) ∨
      ∃ xs ys, IsList h a (xs ++ b :: ys)) :=
  ⟨splice_laws wf a b,fun _ => rings_cases wf a b⟩

/- The ring [0,1,2,3] becomes [0,3] and [2,1], and the same ring again. -/
theorem splice_algebra_four : IsList (rlSplice (ringHeap 3) 0 2).2 0 [3] ∧
    IsList (rlSplice (ringHeap 3) 0 2).2 2 [1] ∧
    (rlSplice (rlSplice (ringHeap 3) 0 2).2 0 2).2 = ringHeap 3 := by
  have laws := (splice_algebra (h := ringHeap 3) (cycle_wellFormed 3) 0 2).1
  have split := laws.splits [1] [3] (cycle_ring 3)
  exact ⟨split.1,split.2,laws.twice⟩

end ResourceList
