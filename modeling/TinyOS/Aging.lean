import TinyOS.SchedSections

/- A call of aging on any contents of the queues: the head of each level but the top one goes to
   the end of the next level, and nothing else moves. -/
namespace KernelSched
variable {Core : Type} {s s' : Sched Core} {k top : Nat} {t u : TcbRef Core} {b : TCB}
  {rest : List (TcbRef Core)}

/- &(SCHED[k]) -/
def Sched.level (s : Sched Core) (k : Nat) : List (TcbRef Core) := s.queue k

def Sched.queued (s : Sched Core) : List (TcbRef Core) :=
  (List.range priorityQueues).flatMap s.level

/-- The heads of the levels below top are to go up. -/
def Heads (s : Sched Core) (top : Nat) (t : TcbRef Core) : Prop :=
  ∃ k < top, (s.level k).head? = some t

def staying (s : Sched Core) (top k : Nat) : List (TcbRef Core) :=
  if k < top then (s.level k).tail else s.level k

def arriving (s : Sched Core) (top : Nat) : Nat → List (TcbRef Core)
  | 0 => []
  | k + 1 => if k < top then (s.level k).head?.toList else []

/- Each head has gone up by one level, to the end, and all others stay where they were. -/
structure Aged (top : Nat) (s s' : Sched Core) : Prop where
  levels : ∀ k, s'.level k = staying s top k ++ arriving s top k
  heads : ∀ t, Heads s top t → ∀ b, s.tcb t = some b →
    s'.tcb t = some { b with priority := b.priority + 1 }
  others : ∀ t, ¬ Heads s top t → s'.tcb t = s.tcb t
  frame : s'.timeouts = s.timeouts ∧ s'.cctx = s.cctx ∧ s'.activeThreads = s.activeThreads

section Levels

/-- A thread is in the level of its priority only. -/
theorem level_unique (ok : QueuesOk s) {j : Nat} (one : k < priorityQueues)
    (two : j < priorityQueues) (here : t ∈ s.level k) (there : t ∈ s.level j) : k = j := by
  obtain ⟨b,block,priority⟩ := ok.priority k one t here
  obtain ⟨b',block',priority'⟩ := ok.priority j two t there
  simp_all

theorem queued_nodup (ok : QueuesOk s) : s.queued.Nodup := by
  refine List.nodup_flatMap.mpr ⟨fun k member => ?_,?_⟩
  · exact ok.nodup k (List.mem_range.mp member)
  · refine List.Pairwise.imp_of_mem (fun one two less => ?_) List.pairwise_lt_range
    intro t here there
    have same := level_unique ok (List.mem_range.mp one) (List.mem_range.mp two) here there
    exact absurd same (Nat.ne_of_lt less)

theorem aged_perm (aged : Aged (priorityQueues - 1) s s') [DecidableEq Core] :
    s'.queued.Perm s.queued := by
  refine List.perm_iff_count.mpr fun t => ?_
  have parts (k : Nat) : (s.level k).count t =
      (s.level k).head?.toList.count t + (s.level k).tail.count t := by
    cases s.level k with
    | nil => rfl
    | cons u rest => simp [List.count_cons, Nat.add_comm]
  have zero := parts 0
  have one := parts 1
  have two := parts 2
  have three := parts 3
  have order : List.range priorityQueues = [0,1,2,3,4] := rfl
  rw [Sched.queued, Sched.queued, order]
  simp only [aged.levels, staying, arriving, priorityQueues, List.flatMap_cons, List.flatMap_nil,
    List.count_append, List.count_nil, Nat.reduceSub, Nat.reduceLT, if_true, if_false]
  omega

end Levels

section Turns

theorem aged_empty (none : s.level k = []) (aged : Aged k s s') : Aged (k + 1) s s' := by
  have heads (t : TcbRef Core) : Heads s (k + 1) t ↔ Heads s k t := by
    constructor
    · rintro ⟨j,below,head⟩
      have other : j ≠ k := by
        rintro rfl
        simp [none] at head
      exact ⟨j,by omega,head⟩
    · rintro ⟨j,below,head⟩
      exact ⟨j,by omega,head⟩
  refine ⟨fun j => ?_,fun t moves => aged.heads t ((heads t).mp moves),
    fun t stays => aged.others t (fun moves => stays ((heads t).mpr moves)),aged.frame⟩
  rw [aged.levels]
  cases j <;> grind [staying, arriving]

variable [DecidableEq Core]

theorem promoted_level (s : Sched Core) (k j : Nat) (t : TcbRef Core) (b : TCB)
    (rest : List (TcbRef Core)) : (promoted s k t b rest).level j =
      if j = k + 1 then s.level (k + 1) ++ [t] else if j = k then rest else s.level j := by
  simp only [promoted, Sched.level, Function.update_apply, ← Int.natCast_succ, Int.natCast_inj]

theorem promoted_queues (ok : QueuesOk s) (room : k + 1 < priorityQueues)
    (head : s.level k = t :: rest) (block : s.tcb t = some b) (priority : b.priority = k) :
    QueuesOk (promoted s k t b rest) := by
  have bound : k < priorityQueues := by omega
  have first : t ∈ s.level k := by simp [head]
  have distinct : (t :: rest).Nodup := head ▸ ok.nodup k bound
  have here {j : Nat} (inside : j < priorityQueues) (member : t ∈ s.level j) : j = k :=
    level_unique ok inside bound member first
  have members {j : Nat} {u : TcbRef Core} (inside : j < priorityQueues)
      (member : u ∈ (promoted s k t b rest).level j) :
      u = t ∧ j = k + 1 ∨ u ≠ t ∧ u ∈ s.level j := by
    rw [promoted_level] at member
    grind
  refine ⟨fun j inside => ?_,fun j inside u member => ?_,fun j inside u member => ?_⟩
  · have before := ok.nodup j inside
    have level := promoted_level s k j t b rest
    simp only [Sched.level] at level before here
    rw [level]
    grind
  · rcases members inside member with ⟨rfl,rfl⟩ | ⟨other,before⟩
    · exact ⟨{ b with priority := b.priority + 1 },by simp [promoted],by simp [priority]⟩
    · obtain ⟨b',block',priority'⟩ := ok.priority j inside u before
      exact ⟨b',by simpa [promoted, other] using block',priority'⟩
  · rcases members inside member with ⟨rfl,rfl⟩ | ⟨_,before⟩
    · exact ok.apart k bound u first
    · exact ok.apart j inside u before

/-- What the other turns do after the head t has gone up. -/
theorem aged_head (ok : QueuesOk s) (room : k + 1 < priorityQueues) (head : s.level k = t :: rest)
    (block : s.tcb t = some b) (aged : Aged k (promoted s k t b rest) s') :
    Aged (k + 1) s s' := by
  have bound : k < priorityQueues := by omega
  have first : t ∈ s.level k := by simp [head]
  have level := promoted_level s k
  have heads (u : TcbRef Core) : Heads (promoted s k t b rest) k u ↔ u ≠ t ∧ Heads s (k + 1) u := by
    constructor
    · rintro ⟨j,below,up⟩
      rw [level, if_neg (by omega), if_neg (by omega)] at up
      refine ⟨?_,j,by omega,up⟩
      rintro rfl
      have same := level_unique ok bound (by omega) first (List.mem_of_head? up)
      omega
    · rintro ⟨other,j,below,up⟩
      have lower : j ≠ k := by
        rintro rfl
        simp [head] at up
        exact other up.symm
      refine ⟨j,by omega,?_⟩
      rwa [level, if_neg (by omega), if_neg lower]
  have moved : s'.tcb t = some { b with priority := b.priority + 1 } := by
    rw [aged.others t fun again => ((heads t).mp again).1 rfl]
    simp [promoted]
  have apart (u : TcbRef Core) (other : u ≠ t) : (promoted s k t b rest).tcb u = s.tcb u := by
    simp [promoted, other]
  refine ⟨fun j => ?_,fun u moves b' block' => ?_,fun u stays => ?_,aged.frame⟩
  · rw [aged.levels]
    cases j <;> grind [staying, arriving]
  · by_cases same : u = t
    · subst same
      rw [block] at block'
      cases block'
      exact moved
    · exact aged.heads u ((heads u).mpr ⟨same,moves⟩) b' ((apart u same).trans block')
  · have other : u ≠ t := by
      rintro rfl
      exact stays ⟨k,Nat.lt_succ_self k,by simp [head]⟩
    rw [aged.others u fun moves => stays ((heads u).mp moves).2, apart u other]

theorem aging_loop_aged : ∀ (count : Nat) (s : Sched Core), QueuesOk s → count < priorityQueues →
    ∃ s', agingLoop count s = some s' ∧ QueuesOk s' ∧ Aged count s s' := by
  intro count
  induction count with
  | zero =>
    intro s ok _
    refine ⟨s,rfl,ok,fun k => ?_,?_,fun _ _ => rfl,rfl,rfl,rfl⟩
    · cases k <;> simp [staying, arriving]
    · rintro t ⟨k,below,_⟩
      omega
  | succ count ih =>
    intro s ok bound
    cases head : s.queue count with
    | nil =>
      obtain ⟨s',run,ok',aged⟩ := ih s ok (by omega)
      exact ⟨s',by simpa [agingLoop, head] using run,ok',aged_empty head aged⟩
    | cons t rest =>
      obtain ⟨b,block,priority,turn⟩ := aging_turn ok bound head
      obtain ⟨s',run,ok',aged⟩ := ih _ (promoted_queues ok bound head block priority) (by omega)
      exact ⟨s',turn.trans run,ok',aged_head ok bound head block aged⟩

/-- The same threads are queued as before, each once and each in the level of its priority. -/
theorem aging_moves_heads (ok : QueuesOk s) : ∃ s', aging s = some s' ∧
    Aged (priorityQueues - 1) s s' ∧ QueuesOk s' ∧ s'.queued.Perm s.queued ∧ s'.queued.Nodup ∧
    ((∀ t b, s.tcb t = some b → b.priority < priorityQueues) →
      ∀ t b, s'.tcb t = some b → b.priority < priorityQueues) := by
  obtain ⟨s',run,ok',aged⟩ := aging_loop_aged (priorityQueues - 1) s ok (by decide)
  refine ⟨s',run,aged,ok',aged_perm aged,queued_nodup ok',fun low t b block => ?_⟩
  by_cases moves : Heads s (priorityQueues - 1) t
  · obtain ⟨k,below,head⟩ := moves
    obtain ⟨b',block',priority⟩ := ok.priority k (by omega) t (List.mem_of_head? head)
    have now := aged.heads t ⟨k,below,head⟩ b' block'
    rw [now] at block
    cases block
    simp only [priority]
    omega
  · exact low t b (aged.others t moves ▸ block)

/- Threads 1 and 6 in SCHED[1], and thread 2 in SCHED[2]. -/
def twoLevels : Sched Unit where
  tcb t := match t with
    | .idle _ => none
    | .thread n => some ⟨.normal,.ready,.clean,noTimeout,quantum,0,.user,.user,n % 5⟩
  queue k := if k = 1 then [.thread 1,.thread 6] else if k = 2 then [.thread 2] else []
  timeouts := []
  cctx _ := ⟨none,none,.offline⟩
  yieldCounter := 0
  activeThreads := 3

theorem two_levels_ok : QueuesOk twoLevels := by
  refine ⟨by decide,fun k inside t member => ?_,fun k _ t _ => List.not_mem_nil⟩
  simp only [twoLevels] at member
  split at member
  · rcases List.mem_pair.mp member with rfl | rfl <;> exact ⟨_,rfl,by simp_all⟩
  · split at member
    · cases List.mem_singleton.mp member
      exact ⟨_,rfl,by simp_all⟩
    · cases member

theorem aging_moves_heads_two : ∃ s', aging twoLevels = some s' ∧ s'.level 1 = [.thread 6] ∧
    s'.level 2 = [.thread 1] ∧ s'.level 3 = [.thread 2] := by
  obtain ⟨s',run,aged,_⟩ := aging_moves_heads two_levels_ok
  exact ⟨s',run,(aged.levels 1).trans rfl,(aged.levels 2).trans rfl,(aged.levels 3).trans rfl⟩

/-- yield ages the queues at every maxQuantums-th call. -/
theorem yield_ages (inv : Inv s) (due : s.yieldCounter + 1 = maxQuantums) :
    ∃ s', countYield s = some s' ∧ s'.yieldCounter = 0 ∧ Aged (priorityQueues - 1) s s' := by
  have ok := queues_of_inv (inv_counter inv (s.yieldCounter + 1))
  obtain ⟨s',run,_,aged⟩ := aging_loop_aged (priorityQueues - 1) _ ok (by decide)
  refine ⟨{ s' with yieldCounter := 0 },?_,rfl,aged.levels,aged.heads,aged.others,aged.frame⟩
  rw [countYield, if_pos due, aging, run]
  rfl

end Turns
end KernelSched
