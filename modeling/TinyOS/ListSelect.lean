import TinyOS.ResourceList

/- rlist_select: the nodes that satisfy a predicate move from one list to the end of another. -/
namespace ResourceList
open Rings
variable {α κ σ : Type}

/- The heap, what the predicate remembers, and the nodes it was asked about with its answers. -/
structure Selection (α κ σ : Type) where
  heap : Heap α κ
  state : σ
  asked : List (α × Bool)

section Selecting
variable [DecidableEq α]

/- The predicate reads the heap and its own state, and changes only the latter. -/
def selectLoop (pred : σ → Heap α κ → α → Bool × σ) (lsrc ldest : α) :
    Nat → Selection α κ σ → α → Option (Selection α κ σ)
  | 0, _, _ => none
  | fuel + 1, s, i =>
    if s.heap.next i = lsrc then some s
    else
      let (answer, state) := pred s.state s.heap (s.heap.next i)
      let asked := s.asked ++ [(s.heap.next i, answer)]
      if answer then
        let (p, heap) := rlistRemove s.heap (s.heap.next i)
        let heap := rlistPushBack heap ldest p
        selectLoop pred lsrc ldest fuel ⟨heap, state, asked⟩ i
      else selectLoop pred lsrc ldest fuel ⟨s.heap, state, asked⟩ (s.heap.next i)

def rlistSelect (fuel : Nat) (pred : σ → Heap α κ → α → Bool × σ) (state : σ) (h : Heap α κ)
    (lsrc ldest : α) : Option (Selection α κ σ) :=
  selectLoop pred lsrc ldest fuel ⟨h, state, []⟩ lsrc

end Selecting

/- The cursor stands on the last node that stays. -/
def cursor (L : α) (kept : List α) : α := kept.getLast?.getD L

def answered (b : Bool) (log : List (α × Bool)) : List α :=
  (log.filter fun e => e.2 = b).map Prod.fst

/- The nodes xs behind those that stay are asked about, each once and in their order, and end in the
   one list or in the other. -/
structure Parted (pred : σ → Heap α κ → α → Bool × σ) (L D : α) (h : Heap α κ)
    (kept xs ys : List α) (log : List (α × Bool)) (h' : Heap α κ) : Prop where
  once : log.map Prod.fst = xs
  answers : ∀ e ∈ log, ∃ state heap, heap.key = h.key ∧ e.2 = (pred state heap e.1).1
  source : IsList h' L (kept ++ answered false log)
  destination : IsList h' D (ys ++ answered true log)
  others : Unnamed h h' ((L :: (kept ++ xs)) ++ (D :: ys))

section Steps
variable {pred : σ → Heap α κ → α → Bool × σ} {h h' : Heap α κ} {L D x : α}
  {kept xs ys : List α} {log : List (α × Bool)}

theorem cursor_next (list : IsList h L (kept ++ xs)) :
    h.next (cursor L kept) = xs.head?.getD L := by
  have follows {a : α} (seg : Segment h.toLinks a xs L) : h.next a = xs.head?.getD L := by
    cases xs with
    | nil => exact seg.1
    | cons y ys => exact seg.1
  rcases List.eq_nil_or_concat kept with rfl | ⟨before,k,rfl⟩
  · exact follows list.linked
  · have linked : Segment h.toLinks L (before ++ k :: xs) L := by simpa using list.linked
    simpa [cursor] using follows (segment_append.mp linked).2

theorem parted_nil (wf : h.WellFormed) (source : IsList h L kept) (destination : IsList h D ys) :
    Parted pred L D h kept [] ys [] h := by
  refine ⟨rfl,by simp,?_,?_,⟨wf,rfl,fun _ _ ring _ => ring⟩⟩
  · simpa [answered] using source
  · simpa [answered] using destination

/-- The node stays, and the cursor moves on to it. -/
theorem parted_stays {state : σ} (answer : (pred state h x).1 = false)
    (rest : Parted pred L D h (kept ++ [x]) xs ys log h') :
    Parted pred L D h kept (x :: xs) ys ((x, false) :: log) h' := by
  refine ⟨congrArg (x :: ·) rest.once,fun e member => ?_,?_,?_,?_⟩
  · rcases List.mem_cons.mp member with rfl | later
    · exact ⟨state,h,rfl,answer.symm⟩
    · exact rest.answers e later
  · simpa [answered] using rest.source
  · simpa [answered] using rest.destination
  · simpa using rest.others

theorem answered_filter {q : α → Bool} (alike : ∀ e ∈ log, e.2 = q e.1) (b : Bool) :
    answered b log = (log.map Prod.fst).filter fun x => q x = b := by
  induction log with
  | nil => rfl
  | cons e log ih =>
    have here := alike e List.mem_cons_self
    have later := ih fun e member => alike e (List.mem_cons_of_mem _ member)
    simp only [answered, List.filter_cons, List.map_cons, here] at later ⊢
    split
    · rw [List.map_cons, later]
    · exact later

variable [DecidableEq α]

/-- The node leaves the one list for the end of the other. -/
theorem select_moves (wf : h.WellFormed) (source : IsList h L (kept ++ x :: xs))
    (destination : IsList h D ys) (apart : D ∉ L :: (kept ++ x :: xs)) :
    IsList (rlistPushBack (rlistRemove h x).2 D x) L (kept ++ xs) ∧
    IsList (rlistPushBack (rlistRemove h x).2 D x) D (ys ++ [x]) ∧
    Unnamed h (rlistPushBack (rlistRemove h x).2 D x) ((L :: (kept ++ x :: xs)) ++ (D :: ys)) := by
  have disjoint := ring_avoids (ring_closed source) destination apart
  obtain ⟨_,left,alone,removed⟩ := remove_ring wf source
  have outside : x ∉ D :: ys := disjoint (by simp)
  obtain ⟨joined,pushed⟩ := push_back_ring removed.wellFormed
    (removed.rings D ys destination apart) alone outside
  have elsewhere : L ∉ (D :: ys) ++ [x] := by
    have distinct := (List.nodup_cons.mp source.nodup).1
    have first := disjoint (a := L) (by simp)
    grind
  have first := unnamed_mono removed (List.subset_append_left _ (D :: ys))
  refine ⟨pushed.rings L _ left elsewhere,joined,unnamed_trans first ?_⟩
  refine unnamed_mono pushed fun m member => ?_
  simp only [List.mem_append, List.mem_cons] at member ⊢
  grind

theorem parted_moves {state : σ} (answer : (pred state h x).1 = true)
    (moved : Unnamed h (rlistPushBack (rlistRemove h x).2 D x)
      ((L :: (kept ++ x :: xs)) ++ (D :: ys)))
    (rest : Parted pred L D (rlistPushBack (rlistRemove h x).2 D x) kept xs (ys ++ [x]) log h') :
    Parted pred L D h kept (x :: xs) ys ((x, true) :: log) h' := by
  refine ⟨congrArg (x :: ·) rest.once,fun e member => ?_,?_,?_,unnamed_trans moved ?_⟩
  · rcases List.mem_cons.mp member with rfl | later
    · exact ⟨state,h,rfl,answer.symm⟩
    · obtain ⟨state',heap,keys,said⟩ := rest.answers e later
      exact ⟨state',heap,keys.trans moved.keys,said⟩
  · simpa [answered] using rest.source
  · simpa [answered] using rest.destination
  · refine unnamed_mono rest.others fun m member => ?_
    simp only [List.mem_append, List.mem_cons] at member ⊢
    grind

/-- By induction on the nodes the cursor has not passed. -/
theorem select_loop_spec (pred : σ → Heap α κ → α → Bool × σ) (xs : List α) :
    ∀ (kept ys : List α) (fuel : Nat) (s : Selection α κ σ),
    s.heap.WellFormed → IsList s.heap L (kept ++ xs) → IsList s.heap D ys →
    D ∉ L :: (kept ++ xs) → xs.length < fuel →
    ∃ t log, selectLoop pred L D fuel s (cursor L kept) = some t ∧ t.asked = s.asked ++ log ∧
      Parted pred L D s.heap kept xs ys log t.heap := by
  induction xs with
  | nil =>
    intro kept ys fuel s wf source destination apart enough
    obtain ⟨fuel,rfl⟩ := Nat.exists_eq_succ_of_ne_zero (Nat.ne_zero_of_lt enough)
    have last : s.heap.next (cursor L kept) = L := cursor_next source
    rw [List.append_nil] at source
    refine ⟨s,[],?_,(List.append_nil _).symm,parted_nil wf source destination⟩
    rw [selectLoop, if_pos last]
  | cons x xs ih =>
    intro kept ys fuel s wf source destination apart enough
    obtain ⟨fuel,rfl⟩ := Nat.exists_eq_succ_of_ne_zero (Nat.ne_zero_of_lt enough)
    have enough' : xs.length < fuel := by simpa using enough
    have next : s.heap.next (cursor L kept) = x := cursor_next source
    have inner : x ≠ L := by
      have distinct := (List.nodup_cons.mp source.nodup).1
      grind
    rw [selectLoop, next, if_neg inner]
    cases answer : (pred s.state s.heap x).1 with
    | true =>
      obtain ⟨left,joined,moved⟩ := select_moves wf source destination apart
      have apart' : D ∉ L :: (kept ++ xs) := by grind
      obtain ⟨t,log,run,asked,rest⟩ := ih kept (ys ++ [x]) fuel
        ⟨rlistPushBack (rlistRemove s.heap x).2 D x,(pred s.state s.heap x).2,
          s.asked ++ [(x, true)]⟩ moved.wellFormed left joined apart' enough'
      refine ⟨t,(x, true) :: log,?_,?_,parted_moves answer moved rest⟩
      · have itself : (rlistRemove s.heap x).1 = x := rfl
        simpa only [answer, if_true, itself] using run
      · simpa using asked
    | false =>
      have source' : IsList s.heap L ((kept ++ [x]) ++ xs) := by simpa using source
      have apart' : D ∉ L :: ((kept ++ [x]) ++ xs) := by simpa using apart
      obtain ⟨t,log,run,asked,rest⟩ := ih (kept ++ [x]) ys fuel
        ⟨s.heap,(pred s.state s.heap x).2,s.asked ++ [(x, false)]⟩ wf source' destination
        apart' enough'
      have there : cursor L (kept ++ [x]) = x := by simp [cursor]
      rw [there] at run
      refine ⟨t,(x, false) :: log,?_,?_,parted_stays answer rest⟩
      · simpa only [answer, Bool.false_eq_true, if_false] using run
      · simpa using asked

/-- With any fuel beyond the number of nodes the loop ends, with the nodes parted by the answers,
    which are those of q where the predicate says of a node what q does. -/
theorem select_partition (pred : σ → Heap α κ → α → Bool × σ) (state : σ) (wf : h.WellFormed)
    (source : IsList h L xs) (destination : IsList h D ys) (apart : D ∉ L :: xs) {fuel : Nat}
    (enough : xs.length < fuel) :
    ∃ t, rlistSelect fuel pred state h L D = some t ∧
      Parted pred L D h [] xs ys t.asked t.heap ∧
      ∀ q : α → Bool,
        (∀ state heap, heap.key = h.key → ∀ x ∈ xs, (pred state heap x).1 = q x) →
        IsList t.heap L (xs.filter fun x => !q x) ∧ IsList t.heap D (ys ++ xs.filter q) := by
  obtain ⟨t,log,run,asked,parted⟩ := select_loop_spec pred xs [] ys fuel ⟨h,state,[]⟩ wf source
    destination apart enough
  rw [List.nil_append] at asked
  subst asked
  refine ⟨t,run,parted,fun q alike => ?_⟩
  have answers : ∀ e ∈ t.asked, e.2 = q e.1 := by
    intro e member
    obtain ⟨state,heap,keys,said⟩ := parted.answers e member
    have node : e.1 ∈ xs := parted.once ▸ List.mem_map_of_mem member
    exact said.trans (alike state heap keys e.1 node)
  have left := parted.source
  have right := parted.destination
  rw [answered_filter answers, parted.once] at left right
  constructor
  · simpa using left
  · simpa using right

/- A predicate that counts its calls. -/
def evenCounted (calls : Nat) (_ : Heap Nat Unit) (n : Nat) : Bool × Nat := (n % 2 = 0, calls + 1)

/- The list 1, 2, 3, 4 of node 0 next to the list 7 of node 6. -/
theorem select_partition_evens : ∃ t,
    rlistSelect 5 evenCounted 0 (rlistPushBack (ringHeap 4) 6 7) 0 6 = some t ∧
    t.asked.map Prod.fst = [1,2,3,4] ∧ IsList t.heap 0 [1,3] ∧ IsList t.heap 6 [7,2,4] := by
  have wf : (ringHeap 4).WellFormed := cycle_wellFormed 4
  have six : IsList (ringHeap 4) 6 [] := alone_ring wf rfl
  have seven : IsList (ringHeap 4) 7 [] := alone_ring wf rfl
  obtain ⟨destination,pushed⟩ := push_back_ring wf six seven (by decide)
  have source := pushed.rings 0 [1,2,3,4] (cycle_ring 4) (by decide)
  have enough : [1,2,3,4].length < 5 := by decide
  obtain ⟨t,run,parted,alike⟩ := select_partition evenCounted 0 pushed.wellFormed source
    destination (by decide) enough
  obtain ⟨left,right⟩ := alike (fun n => n % 2 = 0) fun _ _ _ _ _ => rfl
  exact ⟨t,run,parted.once,left,right⟩

end Steps
end ResourceList
