import TinyOS.SchedSections

/- What the scheduler guarantees in every interleaving of its critical sections: where the
   sched_node of every thread is linked, and which threads cores run on and switch to. -/
namespace KernelSched
open Transition
variable {Core : Type} [DecidableEq Core] {s : Sched Core}

omit [DecidableEq Core] in
theorem normal_block (inv : Inv s) {t : TcbRef Core} {b : TCB} (block : s.tcb t = some b)
    (normal : b.type = .normal) : 0 ≤ b.priority ∧ b.priority < priorityQueues := by
  obtain ⟨addr,rfl⟩ := normal_thread inv block normal
  obtain ⟨_,low,high,_⟩ := inv.blocks.thread addr b block
  exact ⟨low,high⟩

omit [DecidableEq Core] in
theorem queued_iff (inv : Inv s) {t : TcbRef Core} {b : TCB} (block : s.tcb t = some b)
    (normal : b.type = .normal) (k : Int) : t ∈ s.queue k ↔
      k = b.priority ∧ b.state = .ready ∧ b.phase = .clean ∧ ¬ Current s t := by
  rw [inv.lists.memQueue k t]
  constructor
  · rintro ⟨b',block',_,priority,rest⟩
    obtain rfl : b = b' := Option.some.inj (block.symm.trans block')
    exact ⟨priority.symm,rest⟩
  · rintro ⟨rfl,rest⟩
    exact ⟨b,block,normal,rfl,rest⟩

omit [DecidableEq Core] in
theorem timed_iff (inv : Inv s) {t : TcbRef Core} {b : TCB} (block : s.tcb t = some b) :
    t ∈ s.timeouts ↔ b.state = .stopped ∧ b.wakeupTime ≠ noTimeout := by
  rw [inv.lists.memTimeouts t]
  constructor
  · rintro ⟨b',block',rest⟩
    obtain rfl : b = b' := Option.some.inj (block.symm.trans block')
    exact rest
  · exact fun rest => ⟨b,block,rest⟩

omit [DecidableEq Core] in
/-- A READY thread is in its queue, or some core has it: it is about to be gained there, or
    its context is about to be saved there and it will be queued by gain. -/
theorem ready_not_lost (inv : Inv s) {t : TcbRef Core} {b : TCB} (block : s.tcb t = some b)
    (normal : b.type = .normal) (ready : b.state = .ready) :
    t ∈ s.queue b.priority ∨ ∃ c, Claims s c t := by
  by_cases claimed : ∃ c, Claims s c t
  · exact Or.inr claimed
  · have free : ∀ c, ¬ Claims s c t := fun c h => claimed ⟨c,h⟩
    obtain ⟨clean,_⟩ := inv.blocks.resting t b block free
    exact Or.inl ((queued_iff inv block normal _).mpr ⟨rfl,ready,clean,current_claimed free⟩)

/-- In every reachable state the queues and the timeout list are exactly determined by the
    threads' states, phases and places on the cores. -/
theorem scheduler_lists_exact (reach : (system Core).Reach s) :
    (∀ t b, s.tcb t = some b → b.type = .normal →
      (0 ≤ b.priority ∧ b.priority < priorityQueues) ∧
      (∀ k, t ∈ s.queue k ↔
        k = b.priority ∧ b.state = .ready ∧ b.phase = .clean ∧ ¬ Current s t) ∧
      (∀ k, (s.queue k).count t ≤ 1) ∧
      (t ∈ s.timeouts ↔ b.state = .stopped ∧ b.wakeupTime ≠ noTimeout) ∧
      s.timeouts.count t ≤ 1 ∧
      (t ∈ s.timeouts → ∀ k, t ∉ s.queue k) ∧
      (b.state = .ready → t ∈ s.queue b.priority ∨ ∃ c, Claims s c t)) ∧
    (∀ t b, s.tcb t = some b → b.type = .idle → t ∉ s.timeouts ∧ ∀ k, t ∉ s.queue k) := by
  have inv := reach_inv reach
  refine ⟨?_,?_⟩
  · intro t b block normal
    have queued := queued_iff inv block normal
    have timed := timed_iff inv block
    refine ⟨normal_block inv block normal,queued,?_,timed,?_,?_,ready_not_lost inv block normal⟩
    · exact fun k => List.nodup_iff_count_le_one.mp (inv.lists.queueNodup k) t
    · exact List.nodup_iff_count_le_one.mp inv.lists.timeoutsNodup t
    · intro waiting k member
      have stopped := (timed.mp waiting).1
      have ready := ((queued k).mp member).2.1
      simp [stopped] at ready
  · intro t b block idle
    constructor
    · intro waiting
      have normal := asleep_not_idle inv block ((timed_iff inv block).mp waiting).1
      simp [idle] at normal
    · intro k member
      obtain ⟨b',block',normal,_⟩ := (inv.lists.memQueue k t).mp member
      obtain rfl : b = b' := Option.some.inj (block.symm.trans block')
      simp [idle] at normal

instance twoCoresNeZero : NeZero 2 := ⟨by decide⟩

/- Two cores and two threads: 7 goes to sleep with a timeout and is woken before core 0, which
   has switched away from it, has gained. -/
def twoCoreRun : List (Action (Fin 2)) :=
  [.runScheduler 0,.runScheduler 1,.spawn 7,.wakeup 7,.spawn 8,.wakeup 8,.yield 0 .idle 0 5,
   .gain 0,.sleep 0 .stopped 6 10,.yield 1 .idle 0 6,.yield 0 .user 0 6,.gain 1,.wakeup 7,.gain 0]

def twoCores : Sched (Fin 2) :=
  ((system (Fin 2)).play (initializeScheduler (Fin 2)) twoCoreRun).getD (initializeScheduler (Fin 2))

theorem two_cores_reach : (system (Fin 2)).Reach twoCores :=
  play_reach rfl twoCoreRun rfl

theorem scheduler_lists_exact_two_cores :
    ¬ Current twoCores (.thread 7) ∧ (twoCores.queue 2).count (.thread 7) ≤ 1 ∧
      TcbRef.thread 7 ∉ twoCores.timeouts := by
  obtain ⟨_,queued,single,timed,_⟩ :=
    (scheduler_lists_exact two_cores_reach).1 (.thread 7) _ rfl rfl
  refine ⟨((queued 2).mp (by decide)).2.2.2,single 2,fun waiting => ?_⟩
  exact absurd (timed.mp waiting).1 (by decide)

/-- No list and no core refers to t, so no section can come across it. -/
def Unreferenced (s : Sched Core) (t : TcbRef Core) : Prop :=
  (∀ k, t ∉ s.queue k) ∧ t ∉ s.timeouts ∧ ∀ c, ¬ Claims s c t

omit [DecidableEq Core] in
theorem freed_unreferenced (inv : Inv s) {t : TcbRef Core} (freed : s.tcb t = none) :
    Unreferenced s t := by
  refine ⟨?_,?_,?_⟩
  · intro k member
    obtain ⟨b,block,_⟩ := (inv.lists.memQueue k t).mp member
    simp [freed] at block
  · intro member
    obtain ⟨b,block,_⟩ := (inv.lists.memTimeouts t).mp member
    simp [freed] at block
  · intro c claimed
    obtain ⟨b,block,_⟩ := claims_state inv claimed
    simp [freed] at block

/-- gain frees only the thread it left, and only one that has exited. -/
theorem gain_releases (inv : Inv s) {c : Core} {s' : Sched Core} {t : TcbRef Core}
    (stage : (s.cctx c).stage = .switching) (run : gain s c = some s') (live : s.tcb t ≠ none)
    (freed : s'.tcb t = none) :
    (s.cctx c).previousThread = some t ∧ (s.cctx c).currentThread ≠ some t ∧
      ∃ q, s.tcb t = some q ∧ q.state = .exited := by
  obtain ⟨u,p,b,q,current,previous,block,was,left,ready,clean⟩ := switching_blocks inv stage
  rw [gain_eq inv current previous block was left] at run
  cases run
  split at freed
  · simp only [resumed, Sched.set, Sched.setCore, Function.update_apply] at freed
    grind
  · rename_i apart
    simp only [gained, resumed, Sched.set, Sched.setCore, Function.update_apply] at freed
    grind

/-- Exclusivity of cores, safe context switches, no failing assertion and no use of a freed
    TCB, in every interleaving. -/
theorem core_switching_safe (reach : (system Core).Reach s) :
    (∀ c c' t, (s.cctx c).currentThread = some t → (s.cctx c').currentThread = some t → c = c') ∧
    (∀ c cause remaining clock s' t next, Enabled s (.yield c cause remaining clock) →
      exec s (.yield c cause remaining clock) = some s' →
      (s.cctx c).currentThread = some t → (s'.cctx c).currentThread = some next → next ≠ t →
      (∃ n, s'.tcb next = some n ∧ n.phase = .clean) ∧ ∀ d, Claims s' d next → d = c) ∧
    (∀ a, Enabled s a → (exec s a).isSome) ∧
    (∀ c s' t, Enabled s (.gain c) → exec s (.gain c) = some s' → s.tcb t ≠ none →
      s'.tcb t = none →
      (∃ q, s.tcb t = some q ∧ q.state = .exited) ∧ (∀ k, t ∉ s.queue k) ∧ t ∉ s.timeouts ∧
        ¬ Current s t ∧ Unreferenced s' t) ∧
    (∀ t, s.tcb t = none → Unreferenced s t) := by
  have inv := reach_inv reach
  refine ⟨?_,?_,?_,?_,fun t freed => freed_unreferenced inv freed⟩
  · intro c c' t h h'
    exact inv.unique c c' t (Or.inl h) (Or.inl h')
  · intro c cause remaining clock s' t next enabled run current current' apart
    obtain ⟨s'',u,v,n,run',inv',is,is',block,clean⟩ := yield_spec inv enabled cause remaining clock
    obtain rfl : s' = s'' := Option.some.inj (run.symm.trans run')
    obtain rfl : t = u := Option.some.inj (current.symm.trans is)
    obtain rfl : next = v := Option.some.inj (current'.symm.trans is')
    exact ⟨⟨n,block,clean apart⟩,fun d claimed => inv'.unique d c next claimed (Or.inl current')⟩
  · intro a enabled
    obtain ⟨s',run,_⟩ := section_spec inv enabled
    simp [run]
  · intro c s' t stage run live freed
    obtain ⟨previous,other,q,block,exited⟩ := gain_releases inv stage run live freed
    obtain ⟨s'',run',inv'⟩ := gain_spec inv stage
    obtain rfl : s' = s'' := Option.some.inj (run.symm.trans run')
    have mine : Claims s c t := Or.inr ⟨stage,previous⟩
    refine ⟨⟨q,block,exited⟩,?_,?_,?_,freed_unreferenced inv' freed⟩
    · intro k member
      obtain ⟨q',block',_,_,ready,_⟩ := (inv.lists.memQueue k t).mp member
      grind
    · intro member
      obtain ⟨q',block',stopped,_⟩ := (inv.lists.memTimeouts t).mp member
      grind
    · rintro ⟨d,is⟩
      obtain rfl := inv.unique d c t (Or.inl is) mine
      exact other is

theorem core_switching_safe_two_cores :
    (twoCores.cctx 0).currentThread ≠ (twoCores.cctx 1).currentThread ∧
      (exec twoCores (.yield 1 .quantum 0 8)).isSome := by
  obtain ⟨exclusive,_,runs,_⟩ := core_switching_safe two_cores_reach
  constructor
  · intro same
    exact absurd (exclusive 0 1 (.thread 8) (same.trans rfl) rfl) (by decide)
  · exact runs _ (by decide)

end KernelSched
