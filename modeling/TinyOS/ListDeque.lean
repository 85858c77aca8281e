import TinyOS.ResourceList
import TinyOS.Transition

/- A resource list as a double-ended queue, along any sequence of pushes and pops. -/
namespace ResourceList
open Rings Transition
variable {α κ : Type}

section Runs
variable [DecidableEq α]

def rlistPopBack (h : Heap α κ) (list : α) : α × Heap α κ := rlSplice h list (h.prev list)

inductive DequeOp (α : Type) where
  | pushFront (n : α)
  | pushBack (n : α)
  | popFront
  | popBack

/- The results of the pops so far, the last one at the end. The other fields are history: the ideal
   queue, what it has returned, and the nodes that it held at first or that have been pushed. -/
structure DequeRun (α κ : Type) where
  heap : Heap α κ
  results : List α
  ideal : List α
  expected : List α
  entered : List α

/- An ideal queue, which returns the sentinel where it is empty. -/
def idealStep (L : α) (xs : List α) : DequeOp α → List α × List α
  | .pushFront n => (n :: xs, [])
  | .pushBack n => (xs ++ [n], [])
  | .popFront => (xs.tail, [xs.head?.getD L])
  | .popBack => (xs.dropLast, [xs.getLast?.getD L])

def DequeOp.pushed : DequeOp α → List α
  | .pushFront n | .pushBack n => [n]
  | .popFront | .popBack => []

def listStep (L : α) (h : Heap α κ) : DequeOp α → Heap α κ × List α
  | .pushFront n => (rlistPushFront h L n, [])
  | .pushBack n => (rlistPushBack h L n, [])
  | .popFront =>
    let (x, h) := rlistPopFront h L
    (h, [x])
  | .popBack =>
    let (x, h) := rlistPopBack h L
    (h, [x])

def DequeRun.step (L : α) (s : DequeRun α κ) (op : DequeOp α) : DequeRun α κ :=
  { heap := (listStep L s.heap op).1
    results := s.results ++ (listStep L s.heap op).2
    ideal := (idealStep L s.ideal op).1
    expected := s.expected ++ (idealStep L s.ideal op).2
    entered := s.entered ++ op.pushed }

/- A node that is pushed is a singleton; it is in no list, then, but that of which it is the
   sentinel. -/
def DequeEnabled (L : α) (s : DequeRun α κ) : DequeOp α → Prop
  | .pushFront n | .pushBack n => s.heap.next n = n ∧ n ≠ L
  | .popFront | .popBack => True

def beginDeque (h : Heap α κ) (xs : List α) : DequeRun α κ :=
  { heap := h, results := [], ideal := xs, expected := [], entered := xs }

/- On any list, with the sentinel L. -/
def dequeSystem (κ : Type) (L : α) : Machine (DequeRun α κ) (DequeOp α) where
  start s := ∃ h xs, h.WellFormed ∧ IsList h L xs ∧ s = beginDeque h xs
  enabled := DequeEnabled L
  exec s op := some (s.step L op)

/- The list is what the ideal queue is: so far it has returned the same, it holds the same, what it
   has returned is singleton, and a pop changes nothing where it is empty. Every node that entered is
   still in it or has been returned as often as it has entered more. -/
structure Agrees (L : α) (s : DequeRun α κ) : Prop where
  wellFormed : s.heap.WellFormed
  sentinel : L ∉ s.entered
  contents : IsList s.heap L s.ideal
  results : s.results = s.expected
  singles : ∀ x ∈ s.entered, x ∉ s.ideal → IsList s.heap x []
  empty : s.ideal = [] → rlistPopFront s.heap L = (L,s.heap) ∧ rlistPopBack s.heap L = (L,s.heap)
  conserved : ∀ x, x ≠ L → s.entered.count x = s.ideal.count x + s.results.count x

/- rlist_pop_back meets at most one node. -/
def Short (L : α) (s : DequeRun α κ) : DequeOp α → Prop
  | .popBack => s.heap.next (s.heap.next L) = L
  | _ => True

end Runs

section Ends
variable {h : Heap α κ} {L x : α} {xs : List α}

theorem list_last (list : IsList h L (xs ++ [x])) : h.prev L = x :=
  (segment_append.mp list.linked).2.2

/-- The test reads off the links whether there are two nodes. -/
theorem short_iff (list : IsList h L xs) : h.next (h.next L) = L ↔ xs.length ≤ 1 := by
  have distinct := list.nodup
  match xs, list.linked with
  | [], linked => simp [linked.1]
  | [x], linked => simp [linked.1, linked.2.2.1]
  | x :: y :: zs, linked =>
    have other : y ≠ L := by grind
    simp [linked.1, linked.2.2.1, other]

/-- A node that is alone is not in the list of another. -/
theorem alone_outside (list : IsList h L xs) (alone : h.next x = x) (apart : x ≠ L) :
    x ∉ L :: xs := by
  intro member
  rcases List.mem_cons.mp member with same | inside
  · exact apart same
  · obtain ⟨before,after,rfl⟩ := List.append_of_mem inside
    have seam := (segment_append.mp list.linked).2
    have distinct := list.nodup
    cases after with
    | nil =>
      rw [seam.1] at alone
      exact apart alone.symm
    | cons y ys =>
      rw [seam.1] at alone
      subst alone
      grind

variable [DecidableEq α]

/-- The node at the end is returned, but it takes all the others along. -/
theorem pop_back_ring (wf : h.WellFormed) (list : IsList h L (xs ++ [x])) :
    (rlistPopBack h L).1 = x ∧ IsList (rlistPopBack h L).2 L [] ∧
    IsList (rlistPopBack h L).2 x xs ∧ Unnamed h (rlistPopBack h L).2 (L :: (xs ++ [x])) := by
  have last := list_last list
  have unnamed : Unnamed h (rlistPopBack h L).2 (L :: (xs ++ [x])) :=
    splice_unnamed wf (ring_closed list) List.mem_cons_self (by simp [last])
  have result : (rlistPopBack h L).2 = { h with toLinks := h.toLinks.exchange L x } := by
    rw [rlistPopBack, last, rl_splice_links wf]
  obtain ⟨rest,taken⟩ := ring_split wf list
  rw [result] at unnamed ⊢
  exact ⟨last,rest,taken,unnamed⟩

theorem pop_back_empty (wf : h.WellFormed) (list : IsList h L []) : rlistPopBack h L = (L,h) := by
  have last : h.prev L = L := list.linked.2
  have result : (rlistPopBack h L).2 = h := by
    rw [rlistPopBack, last, rl_splice_links wf, exchange_self wf]
  exact Prod.ext last result

end Ends

section Steps
variable [DecidableEq α] {L : α} {s t : DequeRun α κ} {op : DequeOp α}

theorem agrees_of (wf : s.heap.WellFormed) (sentinel : L ∉ s.entered)
    (contents : IsList s.heap L s.ideal) (results : s.results = s.expected)
    (singles : ∀ x ∈ s.entered, x ∉ s.ideal → IsList s.heap x [])
    (conserved : ∀ x, x ≠ L → s.entered.count x = s.ideal.count x + s.results.count x) :
    Agrees L s := by
  refine ⟨wf,sentinel,contents,results,singles,fun none => ?_,conserved⟩
  rw [none] at contents
  exact ⟨pop_front_empty wf contents,pop_back_empty wf contents⟩

theorem pushed_agrees {n : α} {ys : List α} (agrees : Agrees L s) (apart : n ≠ L)
    (ideal : idealStep L s.ideal op = (ys,[])) (same : ys.Perm (n :: s.ideal))
    (pushed : op.pushed = [n]) (result : (listStep L s.heap op).2 = [])
    (contents : IsList (listStep L s.heap op).1 L ys)
    (unnamed : Unnamed s.heap (listStep L s.heap op).1 ((L :: s.ideal) ++ [n])) :
    Agrees L (s.step L op) := by
  refine agrees_of unnamed.wellFormed ?_ ?_ ?_ (fun x member out => ?_) (fun x other => ?_)
  · simp only [DequeRun.step, pushed, List.mem_append, List.mem_singleton, not_or]
    exact ⟨agrees.sentinel,apart.symm⟩
  · simpa only [DequeRun.step, ideal] using contents
  · simp only [DequeRun.step, ideal, result, List.append_nil, agrees.results]
  · simp only [DequeRun.step, pushed, List.mem_append, List.mem_singleton] at member
    simp only [DequeRun.step, ideal] at out
    rw [same.mem_iff, List.mem_cons, not_or] at out
    have before := member.resolve_right out.1
    refine unnamed.rings x [] (agrees.singles x before out.2) ?_
    simp only [List.cons_append, List.mem_cons, List.mem_append, List.not_mem_nil, or_false, not_or]
    exact ⟨fun here => agrees.sentinel (here ▸ before),out.2,out.1⟩
  · have count := agrees.conserved x other
    have more := same.count_eq x
    simp only [DequeRun.step, ideal, result, pushed, List.append_nil, List.count_append, more,
      List.count_cons, List.count_nil]
    omega

theorem popped_agrees {x : α} {ys : List α} (agrees : Agrees L s)
    (ideal : idealStep L s.ideal op = (ys,[x])) (same : s.ideal.Perm (x :: ys))
    (pushed : op.pushed = []) (result : (listStep L s.heap op).2 = [x])
    (contents : IsList (listStep L s.heap op).1 L ys)
    (alone : IsList (listStep L s.heap op).1 x [])
    (unnamed : Unnamed s.heap (listStep L s.heap op).1 (L :: s.ideal)) :
    Agrees L (s.step L op) := by
  refine agrees_of unnamed.wellFormed ?_ ?_ ?_ (fun y member out => ?_) (fun y other => ?_)
  · simpa only [DequeRun.step, pushed, List.append_nil] using agrees.sentinel
  · simpa only [DequeRun.step, ideal] using contents
  · simp only [DequeRun.step, ideal, result, agrees.results]
  · simp only [DequeRun.step, pushed, List.append_nil] at member
    simp only [DequeRun.step, ideal] at out
    by_cases here : y = x
    · simpa only [DequeRun.step, here] using alone
    · have outside : y ∉ s.ideal := by
        rw [same.mem_iff, List.mem_cons, not_or]
        exact ⟨here,out⟩
      refine unnamed.rings y [] (agrees.singles y member outside) ?_
      rw [List.mem_cons, not_or]
      exact ⟨fun first => agrees.sentinel (first ▸ member),outside⟩
  · have count := agrees.conserved y other
    have fewer := same.count_eq y
    simp only [DequeRun.step, ideal, result, pushed, List.append_nil, List.count_append,
      List.count_cons, List.count_nil] at count fewer ⊢
    omega

theorem empty_pop_agrees (agrees : Agrees L s) (ideal : idealStep L s.ideal op = ([],[L]))
    (none : s.ideal = []) (pushed : op.pushed = []) (same : listStep L s.heap op = (s.heap,[L])) :
    Agrees L (s.step L op) := by
  have contents := agrees.contents
  rw [none] at contents
  refine agrees_of ?_ ?_ ?_ ?_ (fun y member out => ?_) (fun y other => ?_)
  · simpa only [DequeRun.step, same] using agrees.wellFormed
  · simpa only [DequeRun.step, pushed, List.append_nil] using agrees.sentinel
  · simpa only [DequeRun.step, ideal, same] using contents
  · simp only [DequeRun.step, ideal, same, agrees.results]
  · simp only [DequeRun.step, pushed, List.append_nil] at member
    simpa only [DequeRun.step, same] using agrees.singles y member (by simp [none])
  · have count := agrees.conserved y other
    have sentinel : [L].count y = 0 := List.count_eq_zero.mpr (by simpa using other)
    rw [none] at count
    simp only [DequeRun.step, ideal, same, pushed, List.append_nil, List.count_append, sentinel]
    omega

theorem step_agrees (agrees : Agrees L s) (enabled : DequeEnabled L s op)
    (short : Short L s op) : Agrees L (s.step L op) := by
  have wf := agrees.wellFormed
  have list := agrees.contents
  cases op with
  | pushFront n =>
    have single := alone_ring wf enabled.1
    obtain ⟨contents,unnamed⟩ := push_front_ring wf list single
      (alone_outside list enabled.1 enabled.2)
    exact pushed_agrees agrees enabled.2 rfl (List.Perm.refl _) rfl rfl contents unnamed
  | pushBack n =>
    have single := alone_ring wf enabled.1
    obtain ⟨contents,unnamed⟩ := push_back_ring wf list single
      (alone_outside list enabled.1 enabled.2)
    exact pushed_agrees agrees enabled.2 rfl (List.perm_append_singleton n _) rfl rfl contents unnamed
  | popFront =>
    cases ideal : s.ideal with
    | nil =>
      rw [ideal] at list
      refine empty_pop_agrees agrees (by rw [ideal]; rfl) ideal rfl ?_
      simp only [listStep, pop_front_empty wf list]
    | cons x xs =>
      rw [ideal] at list
      obtain ⟨first,rest,alone,unnamed⟩ := pop_front_ring wf list
      refine popped_agrees agrees (by rw [ideal]; rfl) (by rw [ideal]) rfl ?_ rest alone ?_
      · simp only [listStep, first]
      · rwa [ideal]
  | popBack =>
    have few := (short_iff list).mp short
    rcases List.eq_nil_or_concat s.ideal with ideal | ⟨xs,x,ideal⟩
    · rw [ideal] at list
      refine empty_pop_agrees agrees (by rw [ideal]; rfl) ideal rfl ?_
      simp only [listStep, pop_back_empty wf list]
    · have none : xs = [] := by
        rw [ideal, List.concat_eq_append, List.length_append, List.length_singleton] at few
        exact List.length_eq_zero_iff.mp (by omega)
      subst none
      rw [ideal] at list
      have single : IsList s.heap L ([] ++ [x]) := list
      obtain ⟨last,rest,alone,unnamed⟩ := pop_back_ring wf single
      refine popped_agrees agrees (by rw [ideal]; rfl) (by rw [ideal]; rfl) rfl ?_ rest alone ?_
      · simp only [listStep, last]
      · rwa [ideal]

/-- With two nodes, only the one that is returned is not lost. -/
theorem long_pop_disagrees (agrees : Agrees L s) (long : ¬ Short L s op) :
    ¬ Agrees L (s.step L op) := by
  intro after
  cases op with
  | popBack =>
    have list := agrees.contents
    have more : ¬ s.ideal.length ≤ 1 := fun few => long ((short_iff list).mpr few)
    obtain ⟨xs,x,ideal⟩ := (List.eq_nil_or_concat s.ideal).resolve_left fun none => by
      simp [none] at more
    rw [List.concat_eq_append] at ideal
    rw [ideal] at list
    have lost := (pop_back_ring agrees.wellFormed list).2.1
    have contents : IsList (rlistPopBack s.heap L).2 L xs := by
      have now := after.contents
      simp only [DequeRun.step, idealStep, ideal, List.dropLast_concat] at now
      exact now
    have none := (empty_iff contents).mp ((empty_iff lost).mpr rfl)
    simp [ideal, none] at more
  | _ => exact long trivial

end Steps

section Result
variable [DecidableEq α] {L : α} {s t : DequeRun α κ} {as : List (DequeOp α)}

theorem begin_agrees (first : (dequeSystem κ L).start s) : Agrees L s := by
  obtain ⟨h,xs,wf,list,rfl⟩ := first
  have distinct := (List.nodup_cons.mp list.nodup).1
  exact agrees_of wf distinct list rfl (fun x member out => absurd member out) fun x _ => rfl

theorem run_agrees (as : List (DequeOp α)) : ∀ s t : DequeRun α κ, Agrees L s →
    (dequeSystem κ L).Runs s as t →
    ((∀ bs u, bs <+: as → (dequeSystem κ L).Runs s bs u → Agrees L u) ↔
      (dequeSystem κ L).Meets (Short L) s as) := by
  induction as with
  | nil =>
    intro s t agrees _
    refine ⟨fun _ => trivial,fun _ bs u first runs => ?_⟩
    rw [List.prefix_nil.mp first] at runs
    cases runs
    exact agrees
  | cons op as ih =>
    rintro s t agrees (_ | ⟨move,rest⟩)
    obtain ⟨enabled,same⟩ := move
    cases same
    constructor
    · intro all
      have now := all [op] (s.step L op) (by simp) (.cons ⟨enabled,rfl⟩ (.nil _))
      have short : Short L s op := by
        by_contra long
        exact long_pop_disagrees agrees long now
      refine ⟨short,fun s' same => ?_⟩
      cases same
      refine (ih _ t now rest).mp fun bs u first runs => ?_
      exact all (op :: bs) u (List.cons_prefix_cons.mpr ⟨rfl,first⟩) (.cons ⟨enabled,rfl⟩ runs)
    · rintro ⟨short,later⟩ bs u first runs
      have now := step_agrees agrees enabled short
      cases runs with
      | nil => exact agrees
      | cons move runs =>
        obtain ⟨rfl,front⟩ := List.cons_prefix_cons.mp first
        cases move.2
        exact (ih _ t now rest).mpr (later _ rfl) _ u front runs

/-- In every state of a run the list is the ideal queue if and only if no rlist_pop_back of the run
    meets a list with more than one node. -/
theorem deque_ideal_iff (first : (dequeSystem κ L).start s) (runs : (dequeSystem κ L).Runs s as t) :
    (∀ bs u, bs <+: as → (dequeSystem κ L).Runs s bs u → Agrees L u) ↔
      (dequeSystem κ L).Meets (Short L) s as :=
  run_agrees as s t (begin_agrees first) runs

/- Nodes 1 and 2 enter the empty list of node 0, and leave it at the two ends. -/
def pushesAndPops : List (DequeOp Nat) := [.pushBack 1,.pushFront 2,.popFront,.popBack]

theorem empty_ring_start : (dequeSystem Unit 0).start (beginDeque (ringHeap 0) []) :=
  ⟨ringHeap 0,[],cycle_wellFormed 0,cycle_ring 0,rfl⟩

instance (s : DequeRun Nat Unit) (op : DequeOp Nat) :
    Decidable ((dequeSystem Unit 0).enabled s op) :=
  match op with
  | .pushFront n | .pushBack n => inferInstanceAs (Decidable (s.heap.next n = n ∧ n ≠ 0))
  | .popFront | .popBack => inferInstanceAs (Decidable True)

theorem deque_ideal_both_ends : ∃ t,
    (dequeSystem Unit 0).Runs (beginDeque (ringHeap 0) []) pushesAndPops t ∧
    t.results = [2,1] ∧ Agrees 0 t := by
  have runs := play_runs (dequeSystem Unit 0) pushesAndPops (beginDeque (ringHeap 0) []) _ rfl
  refine ⟨_,runs,by decide,?_⟩
  refine (deque_ideal_iff empty_ring_start runs).mpr ?_ _ _ (List.prefix_refl _) runs
  refine ⟨trivial,fun s same => ?_⟩
  cases same
  refine ⟨trivial,fun s same => ?_⟩
  cases same
  refine ⟨trivial,fun s same => ?_⟩
  cases same
  exact ⟨rfl,fun _ _ => trivial⟩

/-- rlist_pop_back on the list 1, 2: it returns 2, the list is empty, and 1 is on the ring of 2. -/
theorem pop_back_loses : (dequeSystem Unit 0).start (beginDeque (ringHeap 2) [1,2]) ∧
    ∃ t, (dequeSystem Unit 0).Runs (beginDeque (ringHeap 2) [1,2]) [.popBack] t ∧
      t.results = [2] ∧ isRlistEmpty t.heap 0 = true ∧ t.heap.next 2 = 1 ∧ ¬ Agrees 0 t := by
  have runs := play_runs (dequeSystem Unit 0) [.popBack] (beginDeque (ringHeap 2) [1,2]) _ rfl
  refine ⟨⟨ringHeap 2,[1,2],cycle_wellFormed 2,cycle_ring 2,rfl⟩,_,runs,by decide,by decide,
    by decide,fun agrees => ?_⟩
  have all := (empty_iff agrees.contents).mp (by decide)
  exact absurd all (by decide)

end Result

end ResourceList
