import TinyOS.Sched

/- The inductive invariant of the scheduler. It strengthens "in the queue iff READY and CLEAN"
   to the pairs of threads each core is responsible for: its current thread and, between yield
   and gain, the thread it has switched away from. -/
namespace KernelSched
open Transition
variable {Core : Type}

/-- Core c runs on t's stack, or did when yield switched away and gain has not run yet. -/
def Claims (s : Sched Core) (c : Core) (t : TcbRef Core) : Prop :=
  (s.cctx c).currentThread = some t ∨
    ((s.cctx c).stage = .switching ∧ (s.cctx c).previousThread = some t)

def Current (s : Sched Core) (t : TcbRef Core) : Prop :=
  ∃ c, (s.cctx c).currentThread = some t

def Queueable (s : Sched Core) (k : Int) (t : TcbRef Core) : Prop :=
  ∃ b, s.tcb t = some b ∧ b.type = .normal ∧ b.priority = k ∧ b.state = .ready ∧
    b.phase = .clean ∧ ¬ Current s t

structure ListsOk (s : Sched Core) : Prop where
  queueNodup : ∀ k, (s.queue k).Nodup
  timeoutsNodup : s.timeouts.Nodup
  memQueue : ∀ k t, t ∈ s.queue k ↔ Queueable s k t
  memTimeouts : ∀ t, t ∈ s.timeouts ↔
    ∃ b, s.tcb t = some b ∧ b.state = .stopped ∧ b.wakeupTime ≠ noTimeout

structure BlocksOk (s : Sched Core) : Prop where
  thread : ∀ addr b, s.tcb (.thread addr) = some b →
    b.type = .normal ∧ 0 ≤ b.priority ∧ b.priority < priorityQueues ∧
      (b.wakeupTime ≠ noTimeout → b.state = .stopped)
  idle : ∀ c, ∃ b, s.tcb (.idle c) = some b ∧ b.type = .idle ∧
    ((b.state = .init ∧ (s.cctx c).stage = .offline) ∨ b.state = .ready ∨ b.state = .running)
  resting : ∀ t b, s.tcb t = some b → (∀ c, ¬ Claims s c t) →
    b.phase = .clean ∧ (b.state = .init ∨ b.state = .ready ∨ b.state = .stopped)

/-- A thread that no longer runs but whose context has not been saved yet. -/
def Left (b : TCB) : Prop :=
  b.phase = .dirty ∧ (b.state = .ready ∨ b.state = .stopped ∨ b.state = .exited)

def CoreOk (s : Sched Core) (c : Core) : Prop :=
  match (s.cctx c).stage with
  | .offline => (s.cctx c).currentThread = none
  | .running => ∃ t b, (s.cctx c).currentThread = some t ∧ s.tcb t = some b ∧
      b.state = .running ∧ b.phase = .dirty
  | .stopping => ∃ t b, (s.cctx c).currentThread = some t ∧ s.tcb t = some b ∧ Left b
  | .switching => ∃ t p b q, (s.cctx c).currentThread = some t ∧
      (s.cctx c).previousThread = some p ∧ s.tcb t = some b ∧ s.tcb p = some q ∧ Left q ∧
      b.state = .ready ∧ (t ≠ p → b.phase = .clean)

structure Inv (s : Sched Core) : Prop where
  lists : ListsOk s
  blocks : BlocksOk s
  core : ∀ c, CoreOk s c
  unique : ∀ c c' t, Claims s c t → Claims s c' t → c = c'
  home : ∀ c c', Claims s c (.idle c') → c = c'

theorem claims_state {s : Sched Core} (inv : Inv s) {c : Core} {t : TcbRef Core}
    (claimed : Claims s c t) : ∃ b, s.tcb t = some b ∧
      (b.phase = .clean → b.state = .ready) ∧ b.state ≠ .init := by
  have ok := inv.core c
  unfold CoreOk at ok
  unfold Claims at claimed
  cases stage : (s.cctx c).stage <;> simp only [stage] at ok claimed <;> grind [Left]

theorem current_claimed {s : Sched Core} {t : TcbRef Core} (free : ∀ c, ¬ Claims s c t) :
    ¬ Current s t := by
  rintro ⟨c,current⟩
  exact free c (Or.inl current)

theorem asleep_not_idle {s : Sched Core} (inv : Inv s) {t : TcbRef Core} {b : TCB}
    (block : s.tcb t = some b) (asleep : b.state = .stopped) : b.type = .normal := by
  cases t with
  | thread addr => exact (inv.blocks.thread addr b block).1
  | idle c =>
    obtain ⟨b',block',_,state⟩ := inv.blocks.idle c
    grind

theorem not_linked {s : Sched Core} (inv : Inv s) {t : TcbRef Core} {b : TCB}
    (block : s.tcb t = some b)
    (unready : b.state = .ready → b.phase = .clean → Current s t)
    (awake : b.state = .stopped → b.wakeupTime = noTimeout) : ¬ s.Linked t := by
  rintro (timed | ⟨k,_,queued⟩)
  · obtain ⟨b',block',stopped,armed⟩ := (inv.lists.memTimeouts t).mp timed
    grind
  · obtain ⟨b',block',_,_,ready,clean,absent⟩ := (inv.lists.memQueue k t).mp queued
    grind

section MakeReady
variable [DecidableEq Core]

/-- The effect of sched_make_ready on a blocked thread. -/
def readied (s : Sched Core) (t : TcbRef Core) (b : TCB) : Sched Core :=
  { s with
    tcb := Function.update s.tcb t (some { b with state := .ready, wakeupTime := noTimeout })
    timeouts := s.timeouts.erase t
    queue := if b.phase = .clean then
        Function.update s.queue b.priority (s.queue b.priority ++ [t]) else s.queue }

variable {s : Sched Core} {t : TcbRef Core} {b : TCB}

omit [DecidableEq Core] in
theorem asleep_not_queued (inv : Inv s) (block : s.tcb t = some b)
    (asleep : b.state = .stopped ∨ b.state = .init) (k : Int) : t ∉ s.queue k := by
  intro member
  obtain ⟨b',block',_,_,ready,_⟩ := (inv.lists.memQueue k t).mp member
  grind

/-- Linking an unlinked thread at the back of the queue of its priority. -/
theorem queue_add_eq (s : Sched Core) (b : TCB) {addr : Nat} (block : s.tcb (.thread addr) = some b)
    (low : 0 ≤ b.priority) (high : b.priority < priorityQueues)
    (unqueued : ∀ k, .thread addr ∉ s.queue k) (untimed : .thread addr ∉ s.timeouts) :
    schedQueueAdd s (.thread addr) = some
      { s with queue := Function.update s.queue b.priority
                          (s.queue b.priority ++ [.thread addr]) } := by
  have unlinked : ¬ s.Linked (.thread addr) := by
    rintro (timed | ⟨k,_,queued⟩)
    · exact untimed timed
    · exact unqueued k queued
  simp [schedQueueAdd, block, Sched.pushBack, low, high, unlinked]

omit [DecidableEq Core] in
theorem normal_thread (inv : Inv s) (block : s.tcb t = some b) (normal : b.type = .normal) :
    ∃ addr, t = .thread addr := by
  cases t with
  | thread addr => exact ⟨addr,rfl⟩
  | idle c =>
    obtain ⟨b',block',idle,_⟩ := inv.blocks.idle c
    simp_all

theorem make_ready_eq (inv : Inv s) (block : s.tcb t = some b) (normal : b.type = .normal)
    (asleep : b.state = .stopped ∨ b.state = .init) :
    schedMakeReady s t = some (readied s t b) := by
  have unqueued := asleep_not_queued inv block asleep
  obtain ⟨addr,rfl⟩ := normal_thread inv block normal
  obtain ⟨_,low,high,armed⟩ := inv.blocks.thread addr b block
  by_cases waiting : b.wakeupTime = noTimeout
  · have out : .thread addr ∉ s.timeouts := by
      have timed := inv.lists.memTimeouts (.thread addr)
      grind
    have kept : s.timeouts.erase (.thread addr) = s.timeouts := List.erase_of_not_mem out
    cases phase : b.phase with
    | dirty =>
      simp [schedMakeReady, block, asleep, waiting, readied, kept, phase, Sched.set]
    | clean =>
      have added := queue_add_eq (s.set (.thread addr) { b with state := .ready })
        { b with state := .ready } (by simp [Sched.set]) low high unqueued out
      simp only [waiting, phase] at added
      simp [schedMakeReady, block, asleep, waiting, readied, kept, phase, added]
      simp [Sched.set]
  · have stopped := armed waiting
    have linked : s.Linked (.thread addr) :=
      Or.inl ((inv.lists.memTimeouts _).mpr ⟨b,block,stopped,waiting⟩)
    have queues : (fun k => (s.queue k).erase (.thread addr)) = s.queue := by
      funext k
      exact List.erase_of_not_mem (unqueued k)
    have left : .thread addr ∉ s.timeouts.erase (.thread addr) :=
      inv.lists.timeoutsNodup.not_mem_erase
    cases phase : b.phase with
    | dirty =>
      simp [schedMakeReady, block, stopped, waiting, linked, readied, phase, Sched.set,
        Sched.unlink, queues]
    | clean =>
      have added := queue_add_eq
        ((s.unlink (.thread addr)).set (.thread addr)
          { b with wakeupTime := noTimeout, state := .ready })
        { b with wakeupTime := noTimeout, state := .ready } (by simp [Sched.set]) low high
        (by simpa [Sched.set, Sched.unlink, queues] using unqueued)
        left
      simp only [phase] at added
      simp [schedMakeReady, block, stopped, waiting, linked, readied, phase, added]
      simp [Sched.set, Sched.unlink, queues]

theorem readied_core (inv : Inv s) (block : s.tcb t = some b)
    (asleep : b.state = .stopped ∨ b.state = .init) (c : Core) :
    CoreOk (readied s t b) c := by
  have ok := inv.core c
  unfold CoreOk at ok ⊢
  cases stage : (s.cctx c).stage <;> simp only [stage, readied] at ok ⊢
  · exact ok
  all_goals grind [Left]

theorem readied_lists (inv : Inv s) (block : s.tcb t = some b) (normal : b.type = .normal)
    (asleep : b.state = .stopped ∨ b.state = .init) : ListsOk (readied s t b) := by
  have unqueued := asleep_not_queued inv block asleep
  have free : b.phase = .clean → ¬ Current s t := by
    rintro clean ⟨c,current⟩
    obtain ⟨b',block',ready,_⟩ := claims_state inv (Or.inl current)
    grind
  constructor
  · intro k
    have nodup := inv.lists.queueNodup k
    have := unqueued k
    simp only [readied]
    grind [List.nodup_append]
  · exact inv.lists.timeoutsNodup.erase t
  · intro k u
    have member := inv.lists.memQueue k u
    simp only [Queueable, readied, Current] at member free ⊢
    grind
  · intro u
    have member := inv.lists.memTimeouts u
    simp only [readied, inv.lists.timeoutsNodup.mem_erase_iff]
    grind

theorem readied_blocks (inv : Inv s) (block : s.tcb t = some b) (normal : b.type = .normal)
    (asleep : b.state = .stopped ∨ b.state = .init) : BlocksOk (readied s t b) := by
  obtain ⟨thread,idle,resting⟩ := inv.blocks
  constructor
  · intro addr u
    have := thread addr
    simp only [readied]
    grind
  · intro c
    obtain ⟨u,found,type,state⟩ := idle c
    simp only [readied]
    exact ⟨u,by grind,type,state⟩
  · intro u v found free
    have clean := resting u
    have : ∀ c, ¬ Claims s c u := free
    simp only [readied] at found
    grind

theorem readied_inv (inv : Inv s) (block : s.tcb t = some b) (normal : b.type = .normal)
    (asleep : b.state = .stopped ∨ b.state = .init) : Inv (readied s t b) where
  lists := readied_lists inv block normal asleep
  blocks := readied_blocks inv block normal asleep
  core := readied_core inv block asleep
  unique := inv.unique
  home := inv.home

/-- Every expired entry is made ready in turn; each turn shortens the list, so the loop ends. -/
theorem expiry_loop_spec (clock : Nat) : ∀ (turns : Nat) (s : Sched Core), Inv s →
    s.timeouts.length ≤ turns →
    ∃ s', expiryLoop clock turns s = some s' ∧ Inv s' ∧ s'.cctx = s.cctx := by
  intro turns
  induction turns with
  | zero =>
    intro s inv short
    have empty : s.timeouts = [] := List.length_eq_zero_iff.mp (by omega)
    exact ⟨s,by simp [expiryLoop, empty],inv,rfl⟩
  | succ turns ih =>
    intro s inv short
    cases entries : s.timeouts with
    | nil => exact ⟨s,by simp [expiryLoop, entries],inv,rfl⟩
    | cons t rest =>
      obtain ⟨b,block,stopped,armed⟩ := (inv.lists.memTimeouts t).mp (by simp [entries])
      by_cases late : clock < b.wakeupTime
      · exact ⟨s,by simp [expiryLoop, entries, block, late],inv,rfl⟩
      · have normal := asleep_not_idle inv block stopped
        have ready := make_ready_eq inv block normal (Or.inl stopped)
        have shorter : (readied s t b).timeouts.length ≤ turns := by
          simp [readied, entries] at short ⊢
          exact short
        obtain ⟨s',run,inv',cores⟩ := ih _ (readied_inv inv block normal (Or.inl stopped)) shorter
        refine ⟨s',?_,inv',cores⟩
        simpa [expiryLoop, entries, block, late, ready] using run

theorem expired_timeouts_spec (inv : Inv s) (clock : Nat) :
    ∃ s', schedWakeupExpiredTimeouts s clock = some s' ∧ Inv s' ∧ s'.cctx = s.cctx :=
  expiry_loop_spec clock s.timeouts.length s inv (Nat.le_refl _)

theorem wakeup_spec (inv : Inv s) {addr : Nat} (block : s.tcb (.thread addr) = some b) :
    ∃ s' woken, wakeup s (.thread addr) = some (s',woken) ∧ Inv s' ∧ s'.cctx = s.cctx := by
  by_cases asleep : b.state = .stopped ∨ b.state = .init
  · have normal := (inv.blocks.thread addr b block).1
    have ready := make_ready_eq inv block normal asleep
    exact ⟨_,true,by simp [wakeup, block, asleep, ready],readied_inv inv block normal asleep,rfl⟩
  · exact ⟨s,false,by simp [wakeup, block, asleep],inv,rfl⟩

end MakeReady
end KernelSched
