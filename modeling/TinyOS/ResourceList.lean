import TinyOS.Rings

/- The resource lists of util.h: nodes with a key on doubly linked rings. A list is seen from a
   node of its ring that serves as sentinel and stands for the other nodes in their order. Keys
   are compared as obj in rlist_find and as num in rlist_equal, which are one word. -/
namespace ResourceList
open Rings
variable {α κ : Type}

structure Heap (α κ : Type) extends Links α where
  key : α → κ

section Operations
variable [DecidableEq α]

/- rlnode_init, with rlnode_new. -/
def rlnodeInit (h : Heap α κ) (p : α) (ptr : κ) : Heap α κ :=
  { next := Function.update h.next p p
    prev := Function.update h.prev p p
    key := Function.update h.key p ptr }

/- rlnode_swap on the next fields of two nodes. -/
def swapNext (h : Heap α κ) (p q : α) : Heap α κ :=
  { h with next := Function.update (Function.update h.next p (h.next q)) q (h.next p) }

/- rlnode_swap on the prev fields of two nodes. -/
def swapPrev (h : Heap α κ) (p q : α) : Heap α κ :=
  { h with prev := Function.update (Function.update h.prev p (h.prev q)) q (h.prev p) }

def rlSplice (h : Heap α κ) (a b : α) : α × Heap α κ :=
  let h := swapPrev h (h.next a) (h.next b)
  let h := swapNext h a b
  (b, h)

def rlistRemove (h : Heap α κ) (a : α) : α × Heap α κ :=
  let (_, h) := rlSplice h a (h.prev a)
  (a, h)

def isRlistEmpty (h : Heap α κ) (a : α) : Bool := a = h.next a

def rlistPushFront (h : Heap α κ) (list node : α) : Heap α κ := (rlSplice h list node).2

def rlistPushBack (h : Heap α κ) (list node : α) : Heap α κ := (rlSplice h (h.prev list) node).2

def rlistPopFront (h : Heap α κ) (list : α) : α × Heap α κ := rlSplice h list (h.next list)

/- A loop that is still running when the fuel is used up gives none; count is an unsigned int. -/
def lenLoop (h : Heap α κ) (list : α) : Nat → α → UInt32 → Option UInt32
  | 0, _, _ => none
  | fuel + 1, p, count => if p = list then some count else lenLoop h list fuel (h.next p) (count + 1)

def rlistLen (fuel : Nat) (h : Heap α κ) (list : α) : Option Nat :=
  (lenLoop h list fuel (h.next list) 0).map UInt32.toNat

def rlistAppend (h : Heap α κ) (ldest lsrc : α) : Heap α κ :=
  (rlistRemove (rlistPushBack h ldest lsrc) lsrc).2

def rlistPrepend (h : Heap α κ) (ldest lsrc : α) : Heap α κ :=
  (rlistRemove (rlistPushFront h ldest lsrc) lsrc).2

/- rlnode_swap on the two fields of one node. -/
def turnNode (h : Heap α κ) (p : α) : Heap α κ :=
  { h with
    next := Function.update h.next p (h.prev p)
    prev := Function.update h.prev p (h.next p) }

/- The body runs before the test. -/
def reverseLoop (l : α) : Nat → Heap α κ → α → Option (Heap α κ)
  | 0, _, _ => none
  | fuel + 1, h, p =>
    let h := turnNode h p
    let p := h.next p
    if p = l then some h else reverseLoop l fuel h p

def rlistReverse (fuel : Nat) (h : Heap α κ) (l : α) : Option (Heap α κ) := reverseLoop l fuel h l

variable [DecidableEq κ]

def findLoop (h : Heap α κ) (list : α) (key : κ) (fail : α) : Nat → α → Option α
  | 0, _ => none
  | fuel + 1, i =>
    if i = list then some fail
    else if h.key i = key then some i
    else findLoop h list key fail fuel (h.next i)

def rlistFind (fuel : Nat) (h : Heap α κ) (list : α) (key : κ) (fail : α) : Option α :=
  findLoop h list key fail fuel (h.next list)

def equalLoop (h : Heap α κ) (l1 l2 : α) : Nat → α → α → Option Bool
  | 0, _, _ => none
  | fuel + 1, i1, i2 =>
    if i1 = l1 then some (i2 = l2)
    else if i2 = l2 ∨ h.key i1 ≠ h.key i2 then some false
    else equalLoop h l1 l2 fuel (h.next i1) (h.next i2)

def rlistEqual (fuel : Nat) (h : Heap α κ) (l1 l2 : α) : Option Bool :=
  equalLoop h l1 l2 fuel (h.next l1) (h.next l2)

end Operations

/-- The list with sentinel L represents the sequence xs. -/
abbrev IsList (h : Heap α κ) (L : α) (xs : List α) : Prop := Ring h.toLinks L xs

/-- An operation on the named nodes leaves the rings of all other nodes as they are. -/
structure Unnamed (h h' : Heap α κ) (named : List α) : Prop where
  wellFormed : h'.WellFormed
  keys : h'.key = h.key
  rings : ∀ m zs, IsList h m zs → m ∉ named → IsList h' m zs

theorem unnamed_trans {h h' h'' : Heap α κ} {named : List α} (one : Unnamed h h' named)
    (two : Unnamed h' h'' named) : Unnamed h h'' named :=
  ⟨two.wellFormed,two.keys.trans one.keys,
    fun m zs ring apart => two.rings m zs (one.rings m zs ring apart) apart⟩

theorem unnamed_mono {h h' : Heap α κ} {fewer named : List α} (unnamed : Unnamed h h' fewer)
    (more : fewer ⊆ named) : Unnamed h h' named :=
  ⟨unnamed.wellFormed,unnamed.keys,
    fun m zs ring apart => unnamed.rings m zs ring fun inside => apart (more inside)⟩

theorem alone_ring {h : Heap α κ} {x : α} (wf : h.WellFormed) (alone : h.next x = x) :
    IsList h x [] := by
  have back := (wf x).1
  rw [alone] at back
  exact ⟨⟨alone,back⟩,by simp⟩

section Splices
variable [DecidableEq α] {h : Heap α κ} {L n x a b : α} {xs ys l r : List α}

/-- On well-formed rings a splice exchanges what follows the two nodes. -/
theorem rl_splice_links (wf : h.WellFormed) (a b : α) :
    (rlSplice h a b).2 = { h with toLinks := h.toLinks.exchange a b } := by
  simp only [rlSplice, swapNext, swapPrev, Links.exchange, (wf a).1, (wf b).1]

theorem splice_unnamed (wf : h.WellFormed) {named : List α} (closed : Closed h.toLinks named)
    (first : a ∈ named) (second : b ∈ named) : Unnamed h (rlSplice h a b).2 named := by
  rw [rl_splice_links wf]
  refine ⟨exchange_wellFormed wf a b,rfl,fun m zs ring apart => ?_⟩
  refine ring_transport closed (fun p outside => ?_) (fun p outside => ?_) ring apart
  · exact (exchange_outside closed first second outside).1
  · exact (exchange_outside closed first second outside).2

omit [DecidableEq α] in
theorem named_rings (one : IsList h L xs) (two : IsList h n ys) :
    Closed h.toLinks ((L :: xs) ++ (n :: ys)) :=
  closed_append (ring_closed one) (ring_closed two)

/-- The whole ring of the node goes to the head, the node itself last. -/
theorem push_front_ring (wf : h.WellFormed) (list : IsList h L xs) (other : IsList h n ys)
    (apart : n ∉ L :: xs) :
    IsList (rlistPushFront h L n) L (ys ++ n :: xs) ∧
    Unnamed h (rlistPushFront h L n) ((L :: xs) ++ (n :: ys)) := by
  have disjoint := ring_avoids (ring_closed list) other apart
  refine ⟨?_,splice_unnamed wf (named_rings list other) (by simp) (by simp)⟩
  rw [rlistPushFront, rl_splice_links wf]
  exact ring_join wf list other disjoint

theorem push_back_ring (wf : h.WellFormed) (list : IsList h L xs) (other : IsList h n ys)
    (apart : n ∉ L :: xs) :
    IsList (rlistPushBack h L n) L (xs ++ (ys ++ [n])) ∧
    Unnamed h (rlistPushBack h L n) ((L :: xs) ++ (n :: ys)) := by
  have last := ring_prev list List.mem_cons_self
  refine ⟨?_,splice_unnamed wf (named_rings list other) ?_ (by simp)⟩
  · rw [rlistPushBack, rl_splice_links wf]
    exact ring_join_back wf list other apart
  · exact List.mem_append_left _ last

theorem remove_ring (wf : h.WellFormed) (list : IsList h L (l ++ x :: r)) :
    (rlistRemove h x).1 = x ∧ IsList (rlistRemove h x).2 L (l ++ r) ∧
    IsList (rlistRemove h x).2 x [] ∧ Unnamed h (rlistRemove h x).2 (L :: (l ++ x :: r)) := by
  have member : x ∈ L :: (l ++ x :: r) := by simp
  have unnamed : Unnamed h (rlistRemove h x).2 (L :: (l ++ x :: r)) :=
    splice_unnamed wf (ring_closed list) member (ring_prev list member)
  obtain ⟨rest,alone⟩ := ring_remove wf list
  have result : (rlistRemove h x).2 = { h with toLinks := h.toLinks.exchange x (h.prev x) } :=
    rl_splice_links wf x (h.prev x)
  rw [result] at unnamed ⊢
  exact ⟨rfl,rest,alone,unnamed⟩

theorem pop_front_ring (wf : h.WellFormed) (list : IsList h L (x :: xs)) :
    (rlistPopFront h L).1 = x ∧ IsList (rlistPopFront h L).2 L xs ∧
    IsList (rlistPopFront h L).2 x [] ∧ Unnamed h (rlistPopFront h L).2 (L :: x :: xs) := by
  have first : h.next L = x := list.linked.1
  have unnamed : Unnamed h (rlistPopFront h L).2 (L :: x :: xs) :=
    splice_unnamed wf (ring_closed list) List.mem_cons_self (by simp [first])
  have result : (rlistPopFront h L).2 = { h with toLinks := h.toLinks.exchange L x } := by
    rw [rlistPopFront, first, rl_splice_links wf]
  have split : Ring h.toLinks L ([] ++ x :: xs) := list
  obtain ⟨rest,alone⟩ := ring_split wf split
  rw [result] at unnamed ⊢
  exact ⟨first,rest,alone,unnamed⟩

theorem pop_front_empty (wf : h.WellFormed) (list : IsList h L []) :
    rlistPopFront h L = (L,h) := by
  have first : h.next L = L := list.linked.1
  have result : (rlistPopFront h L).2 = h := by
    rw [rlistPopFront, first, rl_splice_links wf, exchange_self wf]
  exact Prod.ext first result

/-- The second sentinel is taken out of the joined ring. -/
theorem taken_out {h' : Heap α κ} (pushed : Unnamed h h' ((L :: xs) ++ (n :: ys)))
    (joined : IsList h' L (l ++ n :: r)) (same : (l ++ r).Perm (xs ++ ys)) :
    IsList (rlistRemove h' n).2 L (l ++ r) ∧ IsList (rlistRemove h' n).2 n [] ∧
    Unnamed h (rlistRemove h' n).2 ((L :: xs) ++ (n :: ys)) := by
  obtain ⟨_,rest,alone,removed⟩ := remove_ring pushed.wellFormed joined
  have names : L :: (l ++ n :: r) ⊆ (L :: xs) ++ (n :: ys) := by
    intro m member
    have others := same.mem_iff (a := m)
    simp only [List.mem_append, List.mem_cons] at others member ⊢
    grind
  exact ⟨rest,alone,unnamed_trans pushed (unnamed_mono removed names)⟩

theorem append_ring (wf : h.WellFormed) (list : IsList h L xs) (other : IsList h n ys)
    (apart : n ∉ L :: xs) :
    IsList (rlistAppend h L n) L (xs ++ ys) ∧ IsList (rlistAppend h L n) n [] ∧
    Unnamed h (rlistAppend h L n) ((L :: xs) ++ (n :: ys)) := by
  obtain ⟨joined,pushed⟩ := push_back_ring wf list other apart
  have whole : IsList (rlistPushBack h L n) L ((xs ++ ys) ++ n :: []) := by simpa using joined
  have out := taken_out pushed whole (by simp)
  rw [List.append_nil] at out
  exact out

theorem prepend_ring (wf : h.WellFormed) (list : IsList h L xs) (other : IsList h n ys)
    (apart : n ∉ L :: xs) :
    IsList (rlistPrepend h L n) L (ys ++ xs) ∧ IsList (rlistPrepend h L n) n [] ∧
    Unnamed h (rlistPrepend h L n) ((L :: xs) ++ (n :: ys)) := by
  obtain ⟨joined,pushed⟩ := push_front_ring wf list other apart
  exact taken_out pushed joined List.perm_append_comm

end Splices

section Loops
variable [DecidableEq α] {h : Heap α κ} {L a b fail : α} {xs ys : List α}

theorem empty_iff (list : IsList h L xs) : isRlistEmpty h L = true ↔ xs = [] := by
  have apart := (List.nodup_cons.mp list.nodup).1
  cases xs with
  | nil => simp [isRlistEmpty, list.linked.1]
  | cons x xs =>
    have first : h.next L = x := list.linked.1
    have other : L ≠ x := by grind
    simp [isRlistEmpty, first, other]

/-- The loop counts the nodes up to the sentinel modulo 2^32. -/
theorem len_loop_spec (apart : L ∉ xs) (seg : Segment h.toLinks a xs L) (count : UInt32) :
    ∀ fuel, xs.length < fuel →
      lenLoop h L fuel (h.next a) count = some (count + UInt32.ofNat xs.length) := by
  induction xs generalizing a count with
  | nil =>
    intro fuel enough
    obtain ⟨fuel,rfl⟩ := Nat.exists_eq_succ_of_ne_zero (Nat.ne_zero_of_lt enough)
    simp [lenLoop, seg.1]
  | cons x xs ih =>
    intro fuel enough
    obtain ⟨fuel,rfl⟩ := Nat.exists_eq_succ_of_ne_zero (Nat.ne_zero_of_lt enough)
    obtain ⟨forth,_,rest⟩ := seg
    have here : x ≠ L := by grind
    have later := ih (fun inside => apart (List.mem_cons_of_mem x inside)) rest (count + 1) fuel
      (by simpa using enough)
    rw [forth, lenLoop, if_neg here, later, List.length_cons, UInt32.ofNat_add]
    rw [UInt32.add_assoc, UInt32.add_comm 1]
    rfl

theorem len_spec (list : IsList h L xs) {fuel : Nat} (enough : xs.length < fuel) :
    rlistLen fuel h L = some (xs.length % 2 ^ 32) := by
  have apart := (List.nodup_cons.mp list.nodup).1
  rw [rlistLen, len_loop_spec apart list.linked 0 fuel enough]
  simp

theorem find_loop_spec [DecidableEq κ] (apart : L ∉ xs) (seg : Segment h.toLinks a xs L) (k : κ) :
    ∀ fuel, xs.length < fuel → findLoop h L k fail fuel (h.next a) =
      some ((xs.find? (fun x => h.key x = k)).getD fail) := by
  induction xs generalizing a with
  | nil =>
    intro fuel enough
    obtain ⟨fuel,rfl⟩ := Nat.exists_eq_succ_of_ne_zero (Nat.ne_zero_of_lt enough)
    simp [findLoop, seg.1]
  | cons x xs ih =>
    intro fuel enough
    obtain ⟨fuel,rfl⟩ := Nat.exists_eq_succ_of_ne_zero (Nat.ne_zero_of_lt enough)
    obtain ⟨forth,_,rest⟩ := seg
    have here : x ≠ L := by grind
    have later := ih (fun inside => apart (List.mem_cons_of_mem x inside)) rest fuel
      (by simpa using enough)
    rw [forth, findLoop, if_neg here]
    by_cases found : h.key x = k
    · simp [found]
    · simp [found, later]

theorem equal_loop_spec [DecidableEq κ] {L' : α} (apart : L ∉ xs) (apart' : L' ∉ ys)
    (seg : Segment h.toLinks a xs L) (seg' : Segment h.toLinks b ys L') :
    ∀ fuel, xs.length < fuel → equalLoop h L L' fuel (h.next a) (h.next b) =
      some (decide (xs.map h.key = ys.map h.key)) := by
  induction xs generalizing a b ys with
  | nil =>
    intro fuel enough
    obtain ⟨fuel,rfl⟩ := Nat.exists_eq_succ_of_ne_zero (Nat.ne_zero_of_lt enough)
    rw [equalLoop, if_pos seg.1]
    cases ys with
    | nil => simp [seg'.1]
    | cons y ys =>
      have other : y ≠ L' := by grind
      simp [seg'.1, other]
  | cons x xs ih =>
    intro fuel enough
    obtain ⟨fuel,rfl⟩ := Nat.exists_eq_succ_of_ne_zero (Nat.ne_zero_of_lt enough)
    obtain ⟨forth,_,rest⟩ := seg
    have here : x ≠ L := by grind
    rw [forth, equalLoop, if_neg here]
    cases ys with
    | nil => simp [seg'.1]
    | cons y ys =>
      obtain ⟨forth',_,rest'⟩ := seg'
      have here' : y ≠ L' := by grind
      have later := ih (fun inside => apart (List.mem_cons_of_mem x inside))
        (fun inside => apart' (List.mem_cons_of_mem y inside)) rest rest' fuel (by simpa using enough)
      rw [forth', later]
      by_cases same : h.key x = h.key y
      · simp [here', same]
      · simp [same]

/-- The nodes of S turned round. -/
def turned (h : Heap α κ) (S : List α) : Heap α κ :=
  { h with
    next := fun p => if p ∈ S then h.prev p else h.next p
    prev := fun p => if p ∈ S then h.next p else h.prev p }

theorem turn_turned (h : Heap α κ) {S : List α} {p : α} (fresh : p ∉ S) :
    turnNode (turned h S) p = turned h (p :: S) := by
  have next : Function.update (turned h S).next p ((turned h S).prev p) =
      (turned h (p :: S)).next := by
    funext q
    by_cases same : q = p
    · simp [turned, same, fresh]
    · simp [turned, same]
  have prev : Function.update (turned h S).prev p ((turned h S).next p) =
      (turned h (p :: S)).prev := by
    funext q
    by_cases same : q = p
    · simp [turned, same, fresh]
    · simp [turned, same]
  simp only [turnNode, next, prev]
  rfl

/-- The loop walks the ring backwards from p to l. -/
theorem reverse_loop_spec {l : α} (xs : List α) : ∀ (p : α) (S : List α),
    Segment h.mirror p xs l → (p :: xs).Nodup → l ∉ xs → (p :: xs).Disjoint S →
    ∀ fuel, xs.length < fuel →
      ∃ T, reverseLoop l fuel (turned h S) p = some (turned h T) ∧ T.Perm (p :: xs ++ S) := by
  induction xs with
  | nil =>
    intro p S seg _ _ apart fuel enough
    obtain ⟨fuel,rfl⟩ := Nat.exists_eq_succ_of_ne_zero (Nat.ne_zero_of_lt enough)
    have fresh : p ∉ S := apart List.mem_cons_self
    have back : (turned h (p :: S)).next p = l := by
      have forth : h.prev p = l := seg.1
      simp [turned, forth]
    refine ⟨p :: S,?_,List.Perm.refl _⟩
    simp only [reverseLoop, turn_turned h fresh, back, if_true]
  | cons x xs ih =>
    intro p S seg distinct outside apart fuel enough
    obtain ⟨fuel,rfl⟩ := Nat.exists_eq_succ_of_ne_zero (Nat.ne_zero_of_lt enough)
    have fresh : p ∉ S := apart List.mem_cons_self
    obtain ⟨forth,_,rest⟩ := seg
    have back : (turned h (p :: S)).next p = x := by
      have forth : h.prev p = x := forth
      simp [turned, forth]
    have other : x ≠ l := by grind
    have apart' : (x :: xs).Disjoint (p :: S) := by
      intro q left right
      rcases List.mem_cons.mp right with rfl | old
      · exact (List.nodup_cons.mp distinct).1 left
      · exact apart (List.mem_cons_of_mem p left) old
    obtain ⟨T,run,perm⟩ := ih x (p :: S) rest (List.nodup_cons.mp distinct).2
      (fun inside => outside (List.mem_cons_of_mem x inside)) apart' fuel (by simpa using enough)
    refine ⟨T,?_,perm.trans ?_⟩
    · simp only [reverseLoop, turn_turned h fresh, back, if_neg other]
      exact run
    · exact List.perm_middle

theorem turned_wellFormed (wf : h.WellFormed) {S : List α} (closed : Closed h.toLinks S) :
    (turned h S).WellFormed := by
  intro p
  obtain ⟨back,forth⟩ := wf p
  have stays := closed p
  have next := closed (h.next p)
  have prev := closed (h.prev p)
  simp only [turned]
  grind

theorem reverse_ring (wf : h.WellFormed) (list : IsList h L xs) {fuel : Nat}
    (enough : xs.length < fuel) : ∃ h', rlistReverse fuel h L = some h' ∧
      IsList h' L xs.reverse ∧ Unnamed h h' (L :: xs) := by
  have mirrored := ring_mirror list
  have apart := (List.nodup_cons.mp mirrored.nodup).1
  have start : turned h [] = h := by simp [turned]
  obtain ⟨T,run,perm⟩ := reverse_loop_spec xs.reverse L [] mirrored.linked mirrored.nodup apart
    (by simp) fuel (by simpa using enough)
  rw [start] at run
  have names (p : α) : p ∈ T ↔ p ∈ L :: xs := by
    rw [perm.mem_iff]
    simp
  have closed : Closed h.toLinks T := by
    intro p member
    obtain ⟨next,prev⟩ := ring_closed list p ((names p).mp member)
    exact ⟨(names _).mpr next,(names _).mpr prev⟩
  refine ⟨turned h T,run,⟨segment_congr (fun p member => ?_) (fun p member => ?_) mirrored.linked,
    mirrored.nodup⟩,turned_wellFormed wf closed,rfl,fun m zs ring outside => ?_⟩
  · have inside : p ∈ T := (names p).mpr (by simpa using member)
    simp [turned, inside, Links.mirror]
  · have inside : p ∈ T := (names p).mpr (by simpa [or_comm] using member)
    simp [turned, inside, Links.mirror]
  · refine ring_transport closed (fun p out => ?_) (fun p out => ?_) ring
      (fun inside => outside ((names m).mp inside))
    · simp [turned, out]
    · simp [turned, out]

end Loops

section Sequences
variable [DecidableEq α] [DecidableEq κ] {h : Heap α κ} {L : α} {xs : List α}

/-- Everything that the operations on a list are for: they act on the sequence that it
    represents, and on nothing else. -/
structure ActsOnSequence (h : Heap α κ) (L : α) (xs : List α) : Prop where
  pushFront : ∀ n, IsList h n [] → n ∉ L :: xs →
    IsList (rlistPushFront h L n) L (n :: xs) ∧
    Unnamed h (rlistPushFront h L n) ((L :: xs) ++ [n])
  pushBack : ∀ n, IsList h n [] → n ∉ L :: xs →
    IsList (rlistPushBack h L n) L (xs ++ [n]) ∧
    Unnamed h (rlistPushBack h L n) ((L :: xs) ++ [n])
  popFront : ∀ x rest, xs = x :: rest → (rlistPopFront h L).1 = x ∧
    IsList (rlistPopFront h L).2 L rest ∧ IsList (rlistPopFront h L).2 x [] ∧
    Unnamed h (rlistPopFront h L).2 (L :: xs)
  popEmpty : xs = [] → rlistPopFront h L = (L,h)
  remove : ∀ l x r, xs = l ++ x :: r → (rlistRemove h x).1 = x ∧
    IsList (rlistRemove h x).2 L (l ++ r) ∧ IsList (rlistRemove h x).2 x [] ∧
    Unnamed h (rlistRemove h x).2 (L :: xs)
  append : ∀ S ys, IsList h S ys → S ∉ L :: xs → IsList (rlistAppend h L S) L (xs ++ ys) ∧
    IsList (rlistAppend h L S) S [] ∧ Unnamed h (rlistAppend h L S) ((L :: xs) ++ (S :: ys))
  prepend : ∀ S ys, IsList h S ys → S ∉ L :: xs → IsList (rlistPrepend h L S) L (ys ++ xs) ∧
    IsList (rlistPrepend h L S) S [] ∧ Unnamed h (rlistPrepend h L S) ((L :: xs) ++ (S :: ys))
  reverse : ∀ fuel, xs.length < fuel → ∃ h', rlistReverse fuel h L = some h' ∧
    IsList h' L xs.reverse ∧ Unnamed h h' (L :: xs)
  len : ∀ fuel, xs.length < fuel → rlistLen fuel h L = some xs.length
  empty : isRlistEmpty h L = true ↔ xs = []
  find : ∀ key fail fuel, xs.length < fuel → rlistFind fuel h L key fail =
    some ((xs.find? (fun x => h.key x = key)).getD fail)
  equal : ∀ M ys, IsList h M ys → ∀ fuel, xs.length < fuel → rlistEqual fuel h L M =
    some (decide (xs.map h.key = ys.map h.key))

/-- The count of rlist_len is too narrow for its result; nothing else goes wrong. -/
theorem list_acts_on_sequence (wf : h.WellFormed) (list : IsList h L xs) :
    ActsOnSequence h L xs ↔ xs.length < 2 ^ 32 := by
  have outside := (List.nodup_cons.mp list.nodup).1
  constructor
  · intro acts
    have counted := acts.len (xs.length + 1) (Nat.lt_succ_self _)
    rw [len_spec list (Nat.lt_succ_self _), Option.some.injEq] at counted
    rw [← counted]
    exact Nat.mod_lt _ (Nat.two_pow_pos 32)
  · intro short
    refine
      { pushFront := fun n single apart => push_front_ring wf list single apart
        pushBack := fun n single apart => push_back_ring wf list single apart
        popFront := ?_
        popEmpty := ?_
        remove := ?_
        append := fun S ys other apart => append_ring wf list other apart
        prepend := fun S ys other apart => prepend_ring wf list other apart
        reverse := fun fuel enough => reverse_ring wf list enough
        len := fun fuel enough => by rw [len_spec list enough, Nat.mod_eq_of_lt short]
        empty := empty_iff list
        find := fun key fail fuel enough => find_loop_spec outside list.linked key fuel enough
        equal := ?_ }
    · rintro x rest rfl
      exact pop_front_ring wf list
    · rintro rfl
      exact pop_front_empty wf list
    · rintro l x r rfl
      exact remove_ring wf list
    · intro M ys other fuel enough
      have outside' := (List.nodup_cons.mp other.nodup).1
      exact equal_loop_spec outside outside' list.linked other.linked fuel enough

/- Nodes 0 to n on one ring. -/
def ringHeap (n : Nat) : Heap Nat Unit := { cycle n with key := fun _ => () }

theorem list_acts_on_sequence_three : ActsOnSequence (ringHeap 3) 0 [1,2,3] :=
  (list_acts_on_sequence (cycle_wellFormed 3) (cycle_ring 3)).mpr (by decide)

/-- rlist_len finds 0 nodes on a list that has 2^32. -/
theorem long_list_not_counted : (ringHeap (2 ^ 32)).WellFormed ∧
    IsList (ringHeap (2 ^ 32)) 0 (List.range' 1 (2 ^ 32)) ∧
    rlistLen (2 ^ 32 + 1) (ringHeap (2 ^ 32)) 0 = some 0 ∧
    ¬ ActsOnSequence (ringHeap (2 ^ 32)) 0 (List.range' 1 (2 ^ 32)) := by
  have list : IsList (ringHeap (2 ^ 32)) 0 (List.range' 1 (2 ^ 32)) := cycle_ring _
  have length : (List.range' 1 (2 ^ 32)).length = 2 ^ 32 := List.length_range'
  have counted : rlistLen (2 ^ 32 + 1) (ringHeap (2 ^ 32)) 0 = some 0 := by
    rw [len_spec list (by rw [length]; exact Nat.lt_succ_self _), length, Nat.mod_self]
  refine ⟨cycle_wellFormed _,list,counted,fun acts => ?_⟩
  have right := acts.len (2 ^ 32 + 1) (by rw [length]; exact Nat.lt_succ_self _)
  rw [counted, length, Option.some.injEq] at right
  exact absurd right.symm (Nat.pow_pos (Nat.succ_pos 1)).ne'

end Sequences
end ResourceList
