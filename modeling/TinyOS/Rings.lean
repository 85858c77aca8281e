import Mathlib

/- Doubly linked rings: every place has a successor and a predecessor. A segment is a way along
   the links from one place to another, and a ring a segment that comes back. The one operation
   exchanges what two places are followed by. -/
namespace Rings
variable {α : Type*}

structure Links (α : Type*) where
  next : α → α
  prev : α → α

def Links.WellFormed (h : Links α) : Prop :=
  ∀ p, h.prev (h.next p) = p ∧ h.next (h.prev p) = p

/-- From a by way of the listed places to b. -/
def Segment (h : Links α) : α → List α → α → Prop
  | a, [], b => h.next a = b ∧ h.prev b = a
  | a, x :: xs, b => h.next a = x ∧ h.prev x = a ∧ Segment h x xs b

/-- The ring through a passes the listed places, each once. -/
structure Ring (h : Links α) (a : α) (xs : List α) : Prop where
  linked : Segment h a xs a
  nodup : (a :: xs).Nodup

variable {h h' : Links α} {a b c d m : α} {xs ys zs : List α}

theorem segment_append : Segment h a (xs ++ m :: ys) b ↔ Segment h a xs m ∧ Segment h m ys b := by
  induction xs generalizing a with
  | nil => simp [Segment, and_assoc]
  | cons x xs ih => simp [Segment, ih, and_assoc]

/-- A segment reads the successors of all its places but the last and the predecessors of all
    but the first. -/
theorem segment_congr (next : ∀ p ∈ a :: xs, h'.next p = h.next p)
    (prev : ∀ p ∈ xs ++ [b], h'.prev p = h.prev p) (seg : Segment h a xs b) :
    Segment h' a xs b := by
  induction xs generalizing a with
  | nil =>
    have one := next a (List.mem_singleton_self a)
    have two := prev b (List.mem_singleton_self b)
    exact ⟨one.trans seg.1,two.trans seg.2⟩
  | cons x xs ih =>
    obtain ⟨forth,back,rest⟩ := seg
    have one := next a List.mem_cons_self
    have two := prev x (by simp)
    refine ⟨one.trans forth,two.trans back,ih ?_ ?_ rest⟩
    · exact fun p member => next p (List.mem_cons_of_mem a member)
    · exact fun p member => prev p (by simpa using Or.inr (by simpa using member))

theorem segment_prev (seg : Segment h a xs b) : ∀ p ∈ xs ++ [b], h.prev p ∈ a :: xs := by
  induction xs generalizing a with
  | nil =>
    intro p member
    rw [List.mem_singleton.mp member, seg.2]
    exact List.mem_cons_self
  | cons x xs ih =>
    obtain ⟨_,back,rest⟩ := seg
    intro p member
    rcases List.mem_cons.mp member with rfl | later
    · rw [back]
      exact List.mem_cons_self
    · exact List.mem_cons_of_mem a (ih rest p later)

theorem segment_next (seg : Segment h a xs b) : ∀ p ∈ a :: xs, h.next p ∈ xs ++ [b] := by
  induction xs generalizing a with
  | nil =>
    intro p member
    rw [List.mem_singleton.mp member, seg.1]
    exact List.mem_cons_self
  | cons x xs ih =>
    obtain ⟨forth,_,rest⟩ := seg
    intro p member
    rcases List.mem_cons.mp member with rfl | later
    · rw [forth]
      exact List.mem_cons_self
    · exact List.mem_cons_of_mem x (ih rest p later)

theorem ring_next (ring : Ring h a xs) {p : α} (member : p ∈ a :: xs) : h.next p ∈ a :: xs := by
  have there := segment_next ring.linked p member
  simp only [List.mem_append, List.mem_cons, List.not_mem_nil, or_false] at there ⊢
  exact there.symm

theorem ring_prev (ring : Ring h a xs) {p : α} (member : p ∈ a :: xs) : h.prev p ∈ a :: xs := by
  have there : p ∈ xs ++ [a] := by simpa [or_comm] using member
  exact segment_prev ring.linked p there

theorem ring_rotate (ring : Ring h a (xs ++ b :: ys)) : Ring h b (ys ++ a :: xs) := by
  obtain ⟨first,second⟩ := segment_append.mp ring.linked
  have perm : (a :: xs ++ b :: ys).Perm (b :: ys ++ a :: xs) := List.perm_append_comm
  exact ⟨segment_append.mpr ⟨second,first⟩,ring.nodup.perm perm⟩

/-- A set of places that no link leaves. -/
def Closed (h : Links α) (S : List α) : Prop := ∀ p ∈ S, h.next p ∈ S ∧ h.prev p ∈ S

theorem ring_closed (ring : Ring h a xs) : Closed h (a :: xs) :=
  fun _ member => ⟨ring_next ring member,ring_prev ring member⟩

theorem closed_append {S T : List α} (one : Closed h S) (two : Closed h T) :
    Closed h (S ++ T) := by
  intro p member
  rcases List.mem_append.mp member with left | right
  · exact ⟨List.mem_append_left T (one p left).1,List.mem_append_left T (one p left).2⟩
  · exact ⟨List.mem_append_right S (two p right).1,List.mem_append_right S (two p right).2⟩

/-- A ring that does not begin in a closed set avoids it. -/
theorem ring_avoids {S : List α} (closed : Closed h S) (ring : Ring h b ys) (apart : b ∉ S) :
    S.Disjoint (b :: ys) := by
  have back (zs : List α) : ∀ p ∈ S, Segment h p zs b → b ∈ S := by
    induction zs with
    | nil => exact fun p inside seg => seg.1 ▸ (closed p inside).1
    | cons z zs ih => exact fun p inside seg => ih z (seg.1 ▸ (closed p inside).1) seg.2.2
  intro p left right
  rcases List.mem_cons.mp right with rfl | later
  · exact apart left
  · obtain ⟨before,after,rfl⟩ := List.append_of_mem later
    exact apart (back after p left (segment_append.mp ring.linked).2)

/-- Links that agree outside a closed set have the same rings outside it. -/
theorem ring_transport {S : List α} (closed : Closed h S)
    (next : ∀ p ∉ S, h'.next p = h.next p) (prev : ∀ p ∉ S, h'.prev p = h.prev p)
    (ring : Ring h b ys) (apart : b ∉ S) : Ring h' b ys := by
  have outside := ring_avoids closed ring apart
  refine ⟨segment_congr (fun p member => ?_) (fun p member => ?_) ring.linked,ring.nodup⟩
  · exact next p (fun inside => outside inside member)
  · exact prev p (fun inside => outside inside (by simpa [or_comm] using member))

theorem ring_last (ring : Ring h a xs) : (xs = [] ∧ h.prev a = a) ∨
    ∃ ys y, xs = ys ++ [y] ∧ h.prev a = y := by
  rcases List.eq_nil_or_concat xs with rfl | ⟨ys,y,rfl⟩
  · exact Or.inl ⟨rfl,ring.linked.2⟩
  · have last := (segment_append.mp (by simpa using ring.linked)).2
    exact Or.inr ⟨ys,y,by simp,last.2⟩

section Exchange
variable [DecidableEq α]

def Links.exchange (h : Links α) (a b : α) : Links α :=
  { next := Function.update (Function.update h.next a (h.next b)) b (h.next a)
    prev := Function.update (Function.update h.prev (h.next a) b) (h.next b) a }

omit [DecidableEq α] in
theorem next_injective (wf : h.WellFormed) (same : h.next a = h.next b) : a = b := by
  rw [← (wf a).1, same, (wf b).1]

theorem exchange_next (h : Links α) (a b p : α) : (h.exchange a b).next p =
    if p = b then h.next a else if p = a then h.next b else h.next p := by
  simp only [Links.exchange, Function.update_apply]

theorem exchange_prev (h : Links α) (a b p : α) : (h.exchange a b).prev p =
    if p = h.next b then a else if p = h.next a then b else h.prev p := by
  simp only [Links.exchange, Function.update_apply]

theorem exchange_wellFormed (wf : h.WellFormed) (a b : α) : (h.exchange a b).WellFormed := by
  intro p
  have here := wf p
  have first := wf a
  have second := wf b
  have only {p q : α} := next_injective (a := p) (b := q) wf
  simp only [exchange_next, exchange_prev]
  grind

theorem exchange_self (wf : h.WellFormed) (a : α) : h.exchange a a = h := by
  have back := (wf a).1
  simp only [Links.exchange, Function.update_idem, Function.update_eq_self]
  rw [Function.update_eq_self_iff.mpr back.symm]

theorem exchange_twice (wf : h.WellFormed) (a b : α) :
    (h.exchange a b).exchange a b = h := by
  have first := wf a
  have second := wf b
  have only {p q : α} := next_injective (a := p) (b := q) wf
  have next : ((h.exchange a b).exchange a b).next = h.next := by
    funext p
    simp only [exchange_next]
    grind
  have prev : ((h.exchange a b).exchange a b).prev = h.prev := by
    funext p
    simp only [exchange_prev, exchange_next]
    grind
  exact congrArg₂ Links.mk next prev

/-- Segments that leave neither place are not affected. -/
theorem exchange_frame (wf : h.WellFormed) (seg : Segment h m zs c) (first : a ∉ m :: zs)
    (second : b ∉ m :: zs) : Segment (h.exchange a b) m zs c := by
  refine segment_congr (fun p member => ?_) (fun p member => ?_) seg
  · rw [exchange_next, if_neg (by grind), if_neg (by grind)]
  · have before := segment_prev seg p member
    rw [exchange_prev, if_neg, if_neg]
    · rintro rfl
      exact first ((wf a).1 ▸ before)
    · rintro rfl
      exact second ((wf b).1 ▸ before)

/-- Each of the two places goes on as the other did. -/
theorem exchange_tails (wf : h.WellFormed) (seg : Segment h b ys d) (apart : a ≠ b)
    (first : a ∉ ys) (second : b ∉ ys) :
    Segment (h.exchange a b) a ys d ∧ Segment (h.exchange b a) a ys d := by
  have other : h.next b ≠ h.next a := fun same => apart (next_injective wf same).symm
  cases ys with
  | nil =>
    obtain ⟨forth,_⟩ := seg
    subst forth
    constructor <;> constructor <;> simp [exchange_next, exchange_prev, apart, other]
  | cons y ys =>
    obtain ⟨forth,_,rest⟩ := seg
    subst forth
    have left := exchange_frame wf rest first second
    have right := exchange_frame wf rest second first
    constructor
    · exact ⟨by simp [exchange_next, apart],by simp [exchange_prev],left⟩
    · exact ⟨by simp [exchange_next],by simp [exchange_prev, other],right⟩

/-- Places on two rings: they become one. -/
theorem ring_join (wf : h.WellFormed) (one : Ring h a xs) (two : Ring h b ys)
    (disjoint : (a :: xs).Disjoint (b :: ys)) : Ring (h.exchange a b) a (ys ++ b :: xs) := by
  have nodup : (a :: xs ++ b :: ys).Nodup := one.nodup.append two.nodup disjoint
  have apart : a ≠ b := by grind
  refine ⟨segment_append.mpr ⟨?_,?_⟩,nodup.perm ?_⟩
  · exact (exchange_tails wf two.linked apart (by grind) (by grind)).1
  · exact (exchange_tails wf one.linked apart.symm (by grind) (by grind)).2
  · grind

/-- Places on one ring: it falls apart. -/
theorem ring_split (wf : h.WellFormed) (ring : Ring h a (xs ++ b :: ys)) :
    Ring (h.exchange a b) a ys ∧ Ring (h.exchange a b) b xs := by
  obtain ⟨first,second⟩ := segment_append.mp ring.linked
  have nodup := ring.nodup
  have apart : a ≠ b := by grind
  refine ⟨⟨?_,by grind⟩,⟨?_,by grind⟩⟩
  · exact (exchange_tails wf second apart (by grind) (by grind)).1
  · exact (exchange_tails wf first apart.symm (by grind) (by grind)).2

/-- The whole of the second ring goes in front of the place that the first ring is seen from. -/
theorem ring_join_back (wf : h.WellFormed) (one : Ring h a xs) (two : Ring h b ys)
    (apart : b ∉ a :: xs) : Ring (h.exchange (h.prev a) b) a (xs ++ (ys ++ [b])) := by
  have disjoint := ring_avoids (ring_closed one) two apart
  rcases ring_last one with ⟨rfl,last⟩ | ⟨zs,z,rfl,last⟩
  · rw [last]
    simpa using ring_join wf one two disjoint
  · rw [last]
    have turned : Ring h z ([] ++ a :: zs) := ring_rotate one
    have joined := ring_join wf turned two (fun p left right => disjoint (by grind) right)
    have again : Ring (h.exchange z b) z ((ys ++ [b]) ++ a :: zs) := by simpa using joined
    simpa using ring_rotate again

/-- A place leaves its ring. -/
theorem ring_remove {x : α} (wf : h.WellFormed) (ring : Ring h a (xs ++ x :: ys)) :
    Ring (h.exchange x (h.prev x)) a (xs ++ ys) ∧ Ring (h.exchange x (h.prev x)) x [] := by
  have turned := ring_rotate ring
  rcases List.eq_nil_or_concat xs with rfl | ⟨zs,z,rfl⟩
  · have last : h.prev x = a := ring.linked.2.1
    rw [last]
    obtain ⟨alone,rest⟩ := ring_split wf turned
    exact ⟨by simpa using rest,alone⟩
  · have last : h.prev x = z := by
      have seam := segment_append.mp (show Segment h a ((zs ++ [z]) ++ x :: ys) a by
        simpa using ring.linked)
      exact (segment_append.mp seam.1).2.2
    rw [last]
    have split : Ring h x ((ys ++ a :: zs) ++ z :: []) := by simpa using turned
    obtain ⟨alone,rest⟩ := ring_split wf split
    exact ⟨by simpa using ring_rotate rest,alone⟩

/-- An exchange within a closed set changes nothing outside it. -/
theorem exchange_outside {S : List α} (closed : Closed h S) (first : a ∈ S) (second : b ∈ S)
    {p : α} (outside : p ∉ S) :
    (h.exchange a b).next p = h.next p ∧ (h.exchange a b).prev p = h.prev p := by
  have one := (closed a first).1
  have two := (closed b second).1
  constructor
  · rw [exchange_next, if_neg (by grind), if_neg (by grind)]
  · rw [exchange_prev, if_neg (by grind), if_neg (by grind)]

end Exchange

section Walks

/-- k steps along the links. -/
theorem segment_walk (wf : h.WellFormed) (k : Nat) : ∀ a,
    Segment h a ((List.range k).map fun j => h.next^[j + 1] a) (h.next^[k + 1] a) := by
  induction k with
  | zero => exact fun a => ⟨rfl,(wf a).1⟩
  | succ k ih =>
    intro a
    rw [List.range_succ_eq_map, List.map_cons, List.map_map]
    exact ⟨rfl,(wf a).1,ih (h.next a)⟩

/-- Of finitely many places each one is on a ring. -/
theorem ring_through [Finite α] (wf : h.WellFormed) (a : α) : ∃ xs, Ring h a xs := by
  have injective : Function.Injective h.next := fun p q => next_injective wf
  have periodic : a ∈ Function.periodicPts h.next := injective.mem_periodicPts a
  have pos := Function.minimalPeriod_pos_of_mem_periodicPts periodic
  obtain ⟨k,period⟩ := Nat.exists_eq_succ_of_ne_zero (Nat.pos_iff_ne_zero.mp pos)
  have back : h.next^[k + 1] a = a := by
    have turn := Function.iterate_minimalPeriod (f := h.next) (x := a)
    rwa [period] at turn
  refine ⟨(List.range k).map fun j => h.next^[j + 1] a,?_,?_⟩
  · have walk := segment_walk wf k a
    rwa [back] at walk
  · have places : a :: (List.range k).map (fun j => h.next^[j + 1] a) =
        (List.range (k + 1)).map fun j => h.next^[j] a := by
      rw [List.range_succ_eq_map, List.map_cons, List.map_map]
      rfl
    rw [places]
    refine List.Nodup.map_on (fun i one j two same => ?_) List.nodup_range
    rw [List.mem_range] at one two
    exact Function.iterate_injOn_Iio_minimalPeriod (by rw [period]; exact one)
      (by rw [period]; exact two) same

end Walks

section Mirror

def Links.mirror (h : Links α) : Links α := { next := h.prev, prev := h.next }

theorem segment_mirror (seg : Segment h a xs b) : Segment h.mirror b xs.reverse a := by
  induction xs generalizing a with
  | nil => exact ⟨seg.2,seg.1⟩
  | cons x xs ih =>
    obtain ⟨forth,back,rest⟩ := seg
    rw [List.reverse_cons]
    exact segment_append.mpr ⟨ih rest,back,forth⟩

theorem ring_mirror (ring : Ring h a xs) : Ring h.mirror a xs.reverse := by
  refine ⟨segment_mirror ring.linked,?_⟩
  have nodup := ring.nodup
  simpa using nodup

end Mirror

section Cycle

/- The numbers up to n on one ring, and the others each alone. -/
def cycle (n : Nat) : Links Nat :=
  { next := fun p => if p < n then p + 1 else if p = n then 0 else p
    prev := fun p => if n < p then p else if p = 0 then n else p - 1 }

theorem cycle_wellFormed (n : Nat) : (cycle n).WellFormed := by
  intro p
  simp only [cycle]
  constructor <;> grind

theorem cycle_segment (n : Nat) : ∀ k a, a + k = n →
    Segment (cycle n) a (List.range' (a + 1) k) 0 := by
  intro k
  induction k with
  | zero =>
    intro a last
    have here : a = n := last
    constructor <;> simp [cycle, here]
  | succ k ih =>
    intro a more
    refine ⟨?_,?_,ih (a + 1) (by omega)⟩
    · simp only [cycle]
      grind
    · simp only [cycle]
      grind

theorem cycle_ring (n : Nat) : Ring (cycle n) 0 (List.range' 1 n) := by
  refine ⟨cycle_segment n n 0 (Nat.zero_add n),List.nodup_cons.mpr ⟨?_,List.nodup_range'⟩⟩
  simp [List.mem_range'_1]

end Cycle
end Rings
