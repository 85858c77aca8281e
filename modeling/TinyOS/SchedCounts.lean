import TinyOS.Aging
import TinyOS.SchedGuarantees

/- The two counters of the scheduler: active_threads is the number of the threads that exist, so that
   idle_thread is left when there are none, and yield_counter comes round. On the way there: what
   every part of a section does to the queues and to the threads. -/
namespace KernelSched
open Transition
variable {Core : Type} {s s' s'' : Sched Core} {t : TcbRef Core} {c : Core}

/- Threads are put behind the others in the queues; none begins or ends to exist. -/
structure Grows (s s' : Sched Core) : Prop where
  queue : ∀ k, s.queue k <+: s'.queue k
  exist : ∀ t, s'.tcb t = none ↔ s.tcb t = none
  active : s'.activeThreads = s.activeThreads
  counter : s'.yieldCounter = s.yieldCounter

/- active_threads counts the threads. -/
structure CountsOk (s : Sched Core) : Prop where
  active : ∃ threads : Finset Nat,
    (∀ addr, addr ∈ threads ↔ s.tcb (.thread addr) ≠ none) ∧ s.activeThreads = threads.card
  counter : s.yieldCounter < maxQuantums

theorem Grows.refl (s : Sched Core) : Grows s s :=
  ⟨fun _ => List.prefix_refl _,fun _ => Iff.rfl,rfl,rfl⟩

theorem Grows.trans (first : Grows s s') (second : Grows s' s'') : Grows s s'' where
  queue k := (first.queue k).trans (second.queue k)
  exist t := (second.exist t).trans (first.exist t)
  active := second.active.trans first.active
  counter := second.counter.trans first.counter

theorem grows_counts (grows : Grows s s') (counts : CountsOk s) : CountsOk s' := by
  obtain ⟨threads,exact,card⟩ := counts.active
  exact ⟨⟨threads,fun addr => (exact addr).trans (not_congr (grows.exist _)).symm,
    grows.active.trans card⟩,grows.counter ▸ counts.counter⟩

theorem initial_counts : CountsOk (initializeScheduler Core) where
  active := ⟨∅,fun addr => by simp [initializeScheduler],rfl⟩
  counter := by simp [initializeScheduler, maxQuantums]

/-- The head of the highest level that is not empty is taken out. -/
theorem pop_highest_top (s : Sched Core) : ∀ counter : Nat,
    (∀ k < counter, s.level k = []) ∧ popHighest s counter = (none,s) ∨
    ∃ k < counter, ∃ u rest, s.level k = u :: rest ∧
      (∀ j < counter, k < j → s.level j = []) ∧
      popHighest s counter = (some u,{ s with queue := Function.update s.queue k rest }) := by
  intro counter
  induction counter with
  | zero => exact .inl ⟨fun k below => absurd below (Nat.not_lt_zero k),rfl⟩
  | succ counter ih =>
    cases head : s.queue counter with
    | cons u rest =>
      refine .inr ⟨counter,Nat.lt_succ_self counter,u,rest,head,fun j below above => ?_,?_⟩
      · omega
      · simp [popHighest, head]
    | nil =>
      have empty : s.level counter = [] := head
      rcases ih with ⟨none,popped⟩ | ⟨k,below,u,rest,first,higher,popped⟩
      · refine .inl ⟨fun k below => ?_,by simp [popHighest, head, popped]⟩
        rcases Nat.lt_succ_iff_lt_or_eq.mp below with lower | rfl
        · exact none k lower
        · exact empty
      · refine .inr ⟨k,by omega,u,rest,first,fun j below' above => ?_,
          by simp [popHighest, head, popped]⟩
        rcases Nat.lt_succ_iff_lt_or_eq.mp below' with lower | rfl
        · exact higher j lower above
        · exact empty

/- The end of yield: core c goes on to the head of the highest level that is not empty. -/
structure Selects (c : Core) (s s' : Sched Core) : Prop where
  exist : ∀ t, s'.tcb t = none ↔ s.tcb t = none
  active : s'.activeThreads = s.activeThreads
  counter : s'.yieldCounter = s.yieldCounter
  levels : (∀ k < priorityQueues, s.level k = []) ∧ s'.queue = s.queue ∨
    ∃ k < priorityQueues, ∃ u rest, s.level k = u :: rest ∧
      (∀ j < priorityQueues, k < j → s.level j = []) ∧
      s'.queue = Function.update s.queue k rest ∧ (s'.cctx c).currentThread = some u

theorem selects_counts (selects : Selects c s s') (counts : CountsOk s) : CountsOk s' := by
  obtain ⟨threads,exact,card⟩ := counts.active
  exact ⟨⟨threads,fun addr => (exact addr).trans (not_congr (selects.exist _)).symm,
    selects.active.trans card⟩,selects.counter ▸ counts.counter⟩

variable [DecidableEq Core] {b : TCB}

theorem spawn_counts {addr : Nat} (fresh : s.tcb (.thread addr) = none) (counts : CountsOk s) :
    CountsOk (spawnThread s addr) := by
  obtain ⟨threads,exact,card⟩ := counts.active
  have out : addr ∉ threads := fun member => (exact addr).mp member fresh
  refine ⟨⟨insert addr threads,fun other => ?_,?_⟩,counts.counter⟩
  · by_cases same : other = addr
    · simp [spawnThread, same]
    · simp [spawnThread, same, exact other]
  · simp [spawnThread, card, Finset.card_insert_of_notMem out]

theorem freed_counts {addr : Nat} (there : s.tcb (.thread addr) ≠ none) (counts : CountsOk s) :
    CountsOk (releaseTCB s (.thread addr)) := by
  obtain ⟨threads,exact,card⟩ := counts.active
  have inside := (exact addr).mpr there
  refine ⟨⟨threads.erase addr,fun other => ?_,?_⟩,counts.counter⟩
  · by_cases same : other = addr
    · simp [releaseTCB, same]
    · simp [releaseTCB, same, exact other]
  · simp [releaseTCB, card, Finset.card_erase_of_mem inside]

theorem grows_set (block : s.tcb t = some b) (b' : TCB) : Grows s (s.set t b') := by
  refine ⟨fun _ => List.prefix_refl _,fun u => ?_,rfl,rfl⟩
  by_cases same : u = t
  · simp [Sched.set, same, block]
  · simp [Sched.set, same]

omit [DecidableEq Core] in
theorem grows_cores (cctx : Core → CCB Core) (timeouts : List (TcbRef Core)) :
    Grows s { s with cctx := cctx, timeouts := timeouts } :=
  ⟨fun _ => List.prefix_refl _,fun _ => Iff.rfl,rfl,rfl⟩

theorem readied_grows (block : s.tcb t = some b) : Grows s (readied s t b) := by
  refine ⟨fun k => ?_,fun u => ?_,rfl,rfl⟩
  · simp only [readied]
    split
    · by_cases same : k = b.priority
      · simp [same]
      · simp [same]
    · exact List.prefix_refl _
  · by_cases same : u = t
    · simp [readied, same, block]
    · simp [readied, same]

theorem expiry_loop_grows (clock : Nat) : ∀ (turns : Nat) (s s' : Sched Core), Inv s →
    expiryLoop clock turns s = some s' → Grows s s' := by
  intro turns
  induction turns with
  | zero =>
    intro s s' _ run
    simp only [expiryLoop] at run
    split at run
    · cases run
      exact .refl s
    · cases run
  | succ turns ih =>
    intro s s' inv run
    cases entries : s.timeouts with
    | nil =>
      simp only [expiryLoop, entries, Option.some.injEq] at run
      exact run ▸ .refl s
    | cons t rest =>
      obtain ⟨b,block,stopped,armed⟩ := (inv.lists.memTimeouts t).mp (by simp [entries])
      by_cases late : clock < b.wakeupTime
      · simp only [expiryLoop, entries, block, Option.bind_eq_bind, Option.bind_some, late, if_true,
          Option.some.injEq] at run
        exact run ▸ .refl s
      · have normal := asleep_not_idle inv block stopped
        have ready := make_ready_eq inv block normal (Or.inl stopped)
        simp only [expiryLoop, entries, block, Option.bind_eq_bind, Option.bind_some, late, if_false,
          ready] at run
        exact (readied_grows block).trans (ih _ s' (readied_inv inv block normal (.inl stopped)) run)

theorem wakeup_grows (inv : Inv s) {addr : Nat} {woken : Bool}
    (run : wakeup s (.thread addr) = some (s',woken)) : Grows s s' := by
  simp only [wakeup, Option.bind_eq_bind, Option.bind_eq_some_iff] at run
  obtain ⟨b,block,run⟩ := run
  split at run
  · rename_i asleep
    have ready := make_ready_eq inv block (inv.blocks.thread addr b block).1 asleep
    simp only [ready, Option.map_some, Option.some.injEq, Prod.mk.injEq] at run
    exact run.1 ▸ readied_grows block
  · cases run
    exact .refl s

theorem stop_current_grows {cause : SchedCause} {remaining : Nat}
    (run : stopCurrent s c t cause remaining = some s') : Grows s s' := by
  simp only [stopCurrent, Option.bind_eq_bind, Option.bind_eq_some_iff, Option.some.injEq] at run
  obtain ⟨b,block,rfl⟩ := run
  exact (grows_set block _).trans (grows_cores _ _)

theorem register_grows {clock timeout : Nat}
    (run : schedRegisterTimeout s t clock timeout = some s') : Grows s s' := by
  unfold schedRegisterTimeout at run
  split at run
  · cases run
    exact .refl s
  · simp only [Option.bind_eq_bind, Option.bind_eq_some_iff] at run
    obtain ⟨b,block,run⟩ := run
    split at run
    · cases run
    · simp only [Option.bind_eq_some_iff, Option.some.injEq] at run
      obtain ⟨entries,_,rfl⟩ := run
      exact (grows_set block _).trans (grows_cores _ _)

theorem sleep_grows {state : ThreadState} {clock timeout : Nat}
    (run : sleepReleasing s c state clock timeout = some s') : Grows s s' := by
  unfold sleepReleasing at run
  split at run
  · simp only [Option.bind_eq_bind, Option.bind_eq_some_iff] at run
    obtain ⟨t,_,b,block,run⟩ := run
    have stopped := (grows_set block { b with state := state }).trans
      (grows_cores (Function.update s.cctx c { s.cctx c with stage := .stopping }) s.timeouts)
    split at run
    · exact stopped.trans (register_grows run)
    · cases run
      exact stopped
  · cases run

theorem run_scheduler_grows (run : runScheduler s c = some s') : Grows s s' := by
  simp only [runScheduler, Option.bind_eq_bind, Option.bind_eq_some_iff, Option.some.injEq] at run
  obtain ⟨b,block,rfl⟩ := run
  exact (grows_set block _).trans (grows_cores _ _)

theorem resumed_grows (block : s.tcb t = some b) : Grows s (resumed s c t b) :=
  (grows_set block _).trans (grows_cores _ _)

theorem gained_queue (s : Sched Core) (c : Core) (t p : TcbRef Core) (b q : TCB) (k : Int) :
    s.queue k <+: (gained s c t p b q).queue k := by
  simp only [gained]
  split
  · by_cases same : k = q.priority
    · simp [same]
    · simp [same]
  · exact List.prefix_refl _

theorem gained_counts {p : TcbRef Core} {q : TCB} (inv : Inv s) (block : s.tcb t = some b)
    (was : s.tcb p = some q) (counts : CountsOk s) : CountsOk (gained s c t p b q) := by
  have resumed' := grows_counts (resumed_grows (c := c) block) counts
  by_cases exited : q.state = .exited
  · obtain ⟨addr,rfl⟩ : ∃ addr, p = .thread addr := by
      cases p with
      | thread addr => exact ⟨addr,rfl⟩
      | idle d =>
        obtain ⟨b',block',_,state⟩ := inv.blocks.idle d
        simp_all
    have there : (resumed s c t b).tcb (.thread addr) ≠ none := by
      rw [Ne, (resumed_grows (c := c) block).exist, was]
      exact Option.some_ne_none q
    have freed := freed_counts there resumed'
    have active := (resumed_grows (c := c) block).active
    refine ⟨?_,freed.counter⟩
    simpa [gained, exited, releaseTCB, active] using freed.active
  · refine grows_counts (s := resumed s c t b) ⟨?_,fun u => ?_,?_,rfl⟩ resumed'
    · exact gained_queue s c t p b q
    · by_cases same : u = p
      · simp [gained, same, exited, (resumed_grows (c := c) block).exist, was]
      · simp [gained, same]
    · simp [gained, exited, resumed, Sched.set, Sched.setCore]

theorem gain_moves (inv : Inv s) (stage : (s.cctx c).stage = .switching)
    (run : gain s c = some s') : (∀ k, s.queue k <+: s'.queue k) ∧
      s'.yieldCounter = s.yieldCounter ∧ (CountsOk s → CountsOk s') := by
  obtain ⟨t,p,b,q,current,previous,block,was,left,_⟩ := switching_blocks inv stage
  rw [gain_eq inv current previous block was left, Option.some.injEq] at run
  subst run
  split
  · have grows := resumed_grows (c := c) block
    exact ⟨grows.queue,grows.counter,grows_counts grows⟩
  · exact ⟨gained_queue s c t p b q,rfl,gained_counts inv block was⟩

theorem count_yield_counts (inv : Inv s) (counts : CountsOk s) (run : countYield s = some s') :
    CountsOk s' := by
  by_cases due : s.yieldCounter + 1 = maxQuantums
  · obtain ⟨s'',run',counter,aged⟩ := yield_ages inv due
    cases run.symm.trans run'
    obtain ⟨threads,exact,card⟩ := counts.active
    refine ⟨⟨threads,fun addr => (exact addr).trans (not_congr ?_),aged.frame.2.2.trans card⟩,
      by simp [counter, maxQuantums]⟩
    by_cases moves : Heads s (priorityQueues - 1) (.thread addr)
    · obtain ⟨k,below,head⟩ := moves
      obtain ⟨b,block,_⟩ := (queues_of_inv inv).priority k (by omega) _ (List.mem_of_head? head)
      simp [aged.heads _ ⟨k,below,head⟩ b block, block]
    · rw [aged.others _ moves]
  · simp only [countYield, due, if_false, Option.some.injEq] at run
    subst run
    have below := counts.counter
    exact ⟨counts.active,by simp only; omega⟩

theorem select_selects {current next : TcbRef Core} {cause : SchedCause}
    (runs : (s.cctx c).currentThread = some current)
    (select : schedQueueSelect s c current = some (next,s')) (block : s'.tcb current = some b) :
    Selects c s (switchTo (s'.set current (adjustPriority cause b)) c current next) := by
  simp only [schedQueueSelect, Option.bind_eq_bind, Option.bind_eq_some_iff, Option.some.injEq,
    Prod.mk.injEq] at select
  obtain ⟨b',_,n,found,is,rfl⟩ := select
  rw [is] at found
  have grows : Grows (popHighest s priorityQueues).2
      (switchTo (((popHighest s priorityQueues).2.set next { n with its := quantum }).set current
        (adjustPriority cause b)) c current next) :=
    ((grows_set found _).trans (grows_set (is ▸ block) _)).trans (grows_cores _ _)
  rw [is]
  rcases pop_highest_top s priorityQueues with ⟨none,popped⟩ | ⟨k,below,u,rest,head,higher,popped⟩
  · rw [popped] at grows ⊢
    exact ⟨grows.exist,grows.active,grows.counter,.inl ⟨none,rfl⟩⟩
  · rw [popped] at grows is ⊢
    refine ⟨grows.exist,grows.active,grows.counter,.inr ⟨k,below,u,rest,head,higher,rfl,?_⟩⟩
    have chosen : u = next := is
    by_cases stay : current = next
    · simp [switchTo, Sched.setCore, Sched.set, stay, runs, chosen]
    · simp [switchTo, Sched.setCore, stay, chosen]

/-- yield counts itself and ages the queues if that is due, puts the threads whose timeout has
    passed behind the others, and goes on to the head of the highest level. -/
theorem yield_moves (inv : Inv s)
    (stage : (s.cctx c).stage = .running ∨ (s.cctx c).stage = .stopping) {cause : SchedCause}
    {remaining clock : Nat} (run : yield s c cause remaining clock = some s') :
    ∃ s₁ s₂, countYield s = some s₁ ∧ Grows s₁ s₂ ∧ Selects c s₂ s' := by
  obtain ⟨s₁,counted,inv₁,cores₁⟩ := count_yield_spec inv
  simp only [yield, Option.bind_eq_bind, Option.bind_eq_some_iff, counted, Option.some.injEq,
    exists_eq_left', Prod.exists] at run
  obtain ⟨current,runs,s₂,stopped,s₃,expired,next,s₄,selected,b,block,rfl⟩ := run
  obtain ⟨s₂',stopped',inv₂,stage₂,current₂⟩ := stop_current_spec inv₁ (cores₁ ▸ stage)
    (cores₁ ▸ runs) cause remaining
  cases stopped.symm.trans stopped'
  obtain ⟨s₃',expired',_,cores₃⟩ := expired_timeouts_spec inv₂ clock
  cases expired.symm.trans expired'
  exact ⟨s₁,s₃,counted,(stop_current_grows stopped).trans (expiry_loop_grows clock _ _ _ inv₂ expired),
    select_selects (cores₃ ▸ current₂) selected block⟩

theorem section_counts (inv : Inv s) (counts : CountsOk s) {a : Action Core}
    (enabled : Enabled s a) (run : exec s a = some s') : CountsOk s' := by
  cases a with
  | runScheduler c => exact grows_counts (run_scheduler_grows run) counts
  | spawn addr =>
    cases run
    exact spawn_counts enabled counts
  | wakeup addr =>
    simp only [exec, Option.map_eq_some_iff] at run
    obtain ⟨⟨v,woken⟩,run,rfl⟩ := run
    exact grows_counts (wakeup_grows inv run) counts
  | sleep c state clock timeout => exact grows_counts (sleep_grows run) counts
  | yield c cause remaining clock =>
    obtain ⟨s₁,s₂,counted,grows,selects⟩ := yield_moves inv enabled run
    exact selects_counts selects (grows_counts grows (count_yield_counts inv counts counted))
  | gain c => exact (gain_moves inv enabled run).2.2 counts

theorem counts_inductive : (system Core).Inductive (fun s => Inv s ∧ CountsOk s) where
  start := by
    rintro s rfl
    exact ⟨initial_inv,initial_counts⟩
  step s a s' inv move :=
    ⟨system_inductive.step s a s' inv.1 move,section_counts inv.1 inv.2 move.1 move.2⟩

/-- active_threads is the number of the threads that have been spawned and not released, so that
    idle_thread finds it 0 only when there is no thread in any list or on any core; and the queues
    are aged at one of every maxQuantums yields. -/
theorem active_threads_exact (reach : (system Core).Reach s) :
    (∃ threads : Finset Nat, (∀ addr, addr ∈ threads ↔ s.tcb (.thread addr) ≠ none) ∧
      s.activeThreads = threads.card) ∧
    (s.activeThreads = 0 → (∀ k, s.queue k = []) ∧ s.timeouts = [] ∧
      ∀ c t, Claims s c t → t = .idle c) ∧
    s.yieldCounter < maxQuantums := by
  obtain ⟨inv,counts⟩ := inductive_reach counts_inductive reach
  refine ⟨counts.active,fun zero => ?_,counts.counter⟩
  obtain ⟨threads,exact,card⟩ := counts.active
  have none (addr : Nat) : s.tcb (.thread addr) = none := by
    have empty : threads = ∅ := Finset.card_eq_zero.mp (card ▸ zero)
    by_contra there
    simpa [empty] using (exact addr).mpr there
  have idle {t : TcbRef Core} {b : TCB} (block : s.tcb t = some b) (normal : b.type = .normal) :
      False := by
    obtain ⟨addr,rfl⟩ := normal_thread inv block normal
    simp [none addr] at block
  refine ⟨fun k => ?_,?_,fun c t claims => ?_⟩
  · refine List.eq_nil_iff_forall_not_mem.mpr fun t member => ?_
    obtain ⟨b,block,normal,_⟩ := (inv.lists.memQueue k t).mp member
    exact idle block normal
  · refine List.eq_nil_iff_forall_not_mem.mpr fun t member => ?_
    obtain ⟨b,block,stopped,_⟩ := (inv.lists.memTimeouts t).mp member
    exact idle block (asleep_not_idle inv block stopped)
  · cases t with
    | thread addr =>
      obtain ⟨b,block,_⟩ := claims_state inv claims
      simp [none addr] at block
    | idle d => rw [inv.home c d claims]

theorem active_threads_exact_two_cores : twoCores.activeThreads = 2 ∧ ∃ threads : Finset Nat,
    (∀ addr, addr ∈ threads ↔ twoCores.tcb (.thread addr) ≠ none) ∧
      twoCores.activeThreads = threads.card :=
  ⟨by decide,(active_threads_exact two_cores_reach).1⟩

end KernelSched
