import TinyOS.SchedInvariant

/- Every critical section keeps the scheduler's invariant and never faults. -/
namespace KernelSched
open Transition
variable {Core : Type} [DecidableEq Core] {s : Sched Core}

section Aging

/-- The head t of queue k moved to the back of queue k + 1. -/
def promoted (s : Sched Core) (k : Int) (t : TcbRef Core) (b : TCB) (rest : List (TcbRef Core)) :
    Sched Core :=
  { s with
    tcb := Function.update s.tcb t (some { b with priority := b.priority + 1 })
    queue := Function.update (Function.update s.queue k rest) (k + 1)
      (s.queue (k + 1) ++ [t]) }

theorem promoted_inv (inv : Inv s) {k : Int} {t : TcbRef Core} {b : TCB}
    {rest : List (TcbRef Core)} (head : s.queue k = t :: rest) (block : s.tcb t = some b)
    (room : k + 1 < priorityQueues) : Inv (promoted s k t b rest) := by
  have queued := inv.lists.memQueue
  obtain ⟨b',block',normal,priority,ready,clean,absent⟩ := (queued k t).mp (by simp [head])
  obtain rfl : b = b' := by simp_all
  have nodup := inv.lists.queueNodup k
  have other : t ∉ s.queue (k + 1) := by
    intro member
    obtain ⟨b',block',_,priority',_⟩ := (queued _ t).mp member
    grind
  have member_rest : ∀ u, u ∈ rest ↔ u ≠ t ∧ u ∈ s.queue k := by
    intro u
    rw [head] at nodup ⊢
    grind
  obtain ⟨thread,idle,resting⟩ := inv.blocks
  refine ⟨⟨?_,inv.lists.timeoutsNodup,?_,?_⟩,⟨?_,?_,?_⟩,?_,inv.unique,inv.home⟩
  · intro j
    by_cases up : j = k + 1
    · subst up
      simp only [promoted, Function.update_self, List.nodup_append, List.mem_singleton]
      refine ⟨inv.lists.queueNodup (k + 1),List.nodup_singleton t,?_⟩
      rintro a member _ rfl rfl
      exact other member
    · by_cases same : j = k
      · subst same
        rw [head] at nodup
        simpa [promoted, up] using (List.nodup_cons.mp nodup).2
      · simpa [promoted, up, same] using inv.lists.queueNodup j
  · intro j u
    have := queued j u
    simp only [Queueable, promoted, Current, Function.update_apply] at this absent ⊢
    grind
  · intro u
    have := inv.lists.memTimeouts u
    simp only [promoted, Function.update_apply]
    grind
  · intro addr u
    have := thread addr
    simp only [promoted, Function.update_apply]
    grind
  · intro c
    obtain ⟨u,found,type,state⟩ := idle c
    have differ : TcbRef.idle c ≠ t := by
      rintro rfl
      rw [block] at found
      cases found
      rw [normal] at type
      cases type
    exact ⟨u,by simp [promoted, differ, found],type,state⟩
  · intro u v found free
    have := resting u
    have unclaimed : ∀ c, ¬ Claims s c u := free
    simp only [promoted, Function.update_apply] at found
    grind
  · intro c
    have ok := inv.core c
    unfold CoreOk at ok ⊢
    cases stage : (s.cctx c).stage <;> simp only [stage, promoted, Function.update_apply] at ok ⊢
    · exact ok
    all_goals grind [Left]

/-- Every queued thread is in SCHED[its priority], and its one sched_node in no other place. -/
structure QueuesOk (s : Sched Core) : Prop where
  nodup : ∀ k : Nat, k < priorityQueues → (s.queue k).Nodup
  priority : ∀ k : Nat, k < priorityQueues → ∀ t ∈ s.queue k,
    ∃ b, s.tcb t = some b ∧ b.priority = k
  apart : ∀ k : Nat, k < priorityQueues → ∀ t ∈ s.queue k, t ∉ s.timeouts

omit [DecidableEq Core] in
theorem queues_of_inv (inv : Inv s) : QueuesOk s := by
  refine ⟨fun k _ => inv.lists.queueNodup k,fun k _ t member => ?_,fun k _ t member timed => ?_⟩
  · obtain ⟨b,block,_,priority,_⟩ := (inv.lists.memQueue k t).mp member
    exact ⟨b,block,priority⟩
  · obtain ⟨b,block,_,_,ready,_⟩ := (inv.lists.memQueue k t).mp member
    obtain ⟨b',block',stopped,_⟩ := (inv.lists.memTimeouts t).mp timed
    simp_all

/-- The turn for a queue that is not empty: the node that was popped is in no list. -/
theorem aging_turn (ok : QueuesOk s) {count : Nat} {t : TcbRef Core} {rest : List (TcbRef Core)}
    (room : count + 1 < priorityQueues) (head : s.queue count = t :: rest) :
    ∃ b, s.tcb t = some b ∧ b.priority = count ∧
      agingLoop (count + 1) s = agingLoop count (promoted s count t b rest) := by
  have bound : count < priorityQueues := by omega
  have first : t ∈ s.queue count := by simp [head]
  obtain ⟨b,block,priority⟩ := ok.priority count bound t first
  have unlinked : ¬ (({ s with queue := Function.update s.queue count rest } : Sched Core).set t
      { b with priority := b.priority + 1 }).Linked t := by
    rintro (timed | ⟨j,inside,member⟩)
    · exact ok.apart count bound t first timed
    · have nodup := ok.nodup count bound
      simp only [Sched.set] at member
      by_cases same : (j : Int) = count
      · simp_all
      · rw [Function.update_of_ne same] at member
        obtain ⟨b',block',priority'⟩ := ok.priority j inside t member
        simp_all
  have pushed : (({ s with queue := Function.update s.queue count rest } : Sched Core).set t
      { b with priority := b.priority + 1 }).pushBack (count + 1) t =
        some (promoted s count t b rest) := by
    have low : (0 : Int) ≤ (count : Int) + 1 := by omega
    have high : (count : Int) + 1 < priorityQueues := by omega
    simp only [Sched.pushBack, low, high, unlinked, not_false_eq_true, and_self, if_true]
    simp [Sched.set, promoted]
  exact ⟨b,block,priority,by simp [agingLoop, head, block, pushed]⟩

theorem aging_loop_spec : ∀ (count : Nat) (s : Sched Core), Inv s → count < priorityQueues →
    ∃ s', agingLoop count s = some s' ∧ Inv s' ∧ s'.cctx = s.cctx := by
  intro count
  induction count with
  | zero => intro s inv _; exact ⟨s,rfl,inv,rfl⟩
  | succ count ih =>
    intro s inv bound
    cases head : s.queue count with
    | nil =>
      obtain ⟨s',run,post⟩ := ih s inv (by omega)
      exact ⟨s',by simpa [agingLoop, head] using run,post⟩
    | cons t rest =>
      obtain ⟨b,block,_,turn⟩ := aging_turn (queues_of_inv inv) bound head
      have inv' := promoted_inv inv head block (by omega)
      obtain ⟨s',run,inv'',cores⟩ := ih _ inv' (by omega)
      exact ⟨s',turn.trans run,inv'',cores⟩

omit [DecidableEq Core] in
theorem inv_counter (inv : Inv s) (n : Nat) : Inv { s with yieldCounter := n } := by
  obtain ⟨⟨nodup,timed,queued,timeouts⟩,⟨thread,idle,resting⟩,core,unique,home⟩ := inv
  exact ⟨⟨nodup,timed,queued,timeouts⟩,⟨thread,idle,resting⟩,core,unique,home⟩

theorem count_yield_spec (inv : Inv s) :
    ∃ s', countYield s = some s' ∧ Inv s' ∧ s'.cctx = s.cctx := by
  have counted := inv_counter inv (s.yieldCounter + 1)
  by_cases due : s.yieldCounter + 1 = maxQuantums
  · obtain ⟨s',run,inv',cores⟩ := aging_loop_spec (priorityQueues - 1) _ counted (by decide)
    refine ⟨{ s' with yieldCounter := 0 },?_,inv_counter inv' 0,cores⟩
    simp only [countYield, due, if_true, aging]
    rw [due] at run
    simp [run]
  · exact ⟨_,by simp [countYield, due],counted,rfl⟩

end Aging
section Stopping
variable {c : Core} {t : TcbRef Core} {b b' : TCB}

/-- The current thread of a core stops running, or is touched again on its way to yield. -/
theorem stop_inv (inv : Inv s) (stage : (s.cctx c).stage = .running ∨ (s.cctx c).stage = .stopping)
    (current : (s.cctx c).currentThread = some t) (block : s.tcb t = some b)
    (kept : b'.type = b.type ∧ b'.priority = b.priority ∧ b'.wakeupTime = b.wakeupTime)
    (left : Left b')
    (move : b'.state = b.state ∨
      (b.state = .running ∧ (b'.state = .ready ∨ ∃ addr, t = .thread addr))) :
    Inv ((s.set t b').setCore c { s.cctx c with stage := .stopping }) := by
  obtain ⟨⟨nodup,timed,queued,timeouts⟩,⟨thread,idle,resting⟩,core,unique,home⟩ := inv
  have dirty : b.phase = .dirty := by
    have ok := core c
    unfold CoreOk at ok
    rcases stage with stage | stage <;> simp only [stage] at ok <;> grind [Left]
  have claims : ∀ d u, Claims ((s.set t b').setCore c { s.cctx c with stage := .stopping }) d u →
      Claims s d u := by
    intro d u
    simp only [Claims, Sched.set, Sched.setCore, Function.update_apply]
    grind
  have claims' : ∀ d u, Claims s d u →
      Claims ((s.set t b').setCore c { s.cctx c with stage := .stopping }) d u := by
    intro d u
    simp only [Claims, Sched.set, Sched.setCore, Function.update_apply]
    grind
  have mine : Claims s c t := Or.inl current
  refine ⟨⟨nodup,timed,?_,?_⟩,⟨?_,?_,?_⟩,?_,?_,?_⟩
  · intro k u
    have := queued k u
    simp only [Queueable, Current, Sched.set, Sched.setCore, Function.update_apply] at this ⊢
    have same : (∃ d, (if d = c then { s.cctx c with stage := Stage.stopping }
        else s.cctx d).currentThread = some u) ↔ ∃ d, (s.cctx d).currentThread = some u := by
      constructor <;> rintro ⟨d,h⟩ <;> exact ⟨d,by grind⟩
    rw [same]
    grind [Left]
  · intro u
    have := timeouts u
    simp only [Sched.set, Sched.setCore, Function.update_apply]
    grind [Left]
  · intro addr u found
    have := thread addr
    simp only [Sched.set, Sched.setCore, Function.update_apply] at found
    grind [Left]
  · intro d
    obtain ⟨u,found,type,state⟩ := idle d
    simp only [Sched.set, Sched.setCore, Function.update_apply]
    by_cases same : TcbRef.idle d = t
    · subst same
      obtain rfl : b = u := by simp_all
      have home : c = d := home c d mine
      refine ⟨b',by simp,kept.1.trans type,?_⟩
      grind
    · exact ⟨u,by simp [same, found],type,by grind⟩
  · intro u v found free
    have calm := resting u
    have unclaimed : ∀ d, ¬ Claims s d u := fun d claimed => free d (claims' d u claimed)
    simp only [Sched.set, Sched.setCore, Function.update_apply] at found
    grind
  · intro d
    have ok := core d
    by_cases same : d = c
    · subst same
      simp only [CoreOk, Sched.setCore, Sched.set, Function.update_self]
      exact ⟨t,b',current,by simp,left⟩
    · have apart : ∀ u, Claims s d u → u ≠ t := by
        rintro u claimed rfl
        exact same (unique d c u claimed mine)
      unfold CoreOk at ok ⊢
      unfold Claims at apart
      simp only [Sched.setCore, Sched.set, Function.update_apply, same, if_false]
      cases hs : (s.cctx d).stage <;> simp only [hs] at ok apart ⊢
      · exact ok
      all_goals grind
  · intro d d' u h h'
    exact unique d d' u (claims d u h) (claims d' u h')
  · intro d d' h
    exact home d d' (claims d _ h)

theorem stop_current_spec (inv : Inv s)
    (stage : (s.cctx c).stage = .running ∨ (s.cctx c).stage = .stopping)
    (current : (s.cctx c).currentThread = some t) (cause : SchedCause) (remaining : Nat) :
    ∃ s', stopCurrent s c t cause remaining = some s' ∧ Inv s' ∧
      (s'.cctx c).stage = .stopping ∧ (s'.cctx c).currentThread = some t := by
  obtain ⟨b,block,live⟩ : ∃ b, s.tcb t = some b ∧ (b.state = .running ∧ b.phase = .dirty ∨
      Left b) := by
    have ok := inv.core c
    unfold CoreOk at ok
    rcases stage with stage | stage <;> simp only [stage] at ok <;> grind
  have stopped := @stop_inv _ _ s c t b
    { b with state := if b.state = .running then .ready else b.state, rts := remaining,
             lastCause := b.currCause, currCause := cause }
    inv stage current block ⟨rfl,rfl,rfl⟩ (by simp only [Left]; grind [Left]) (by grind)
  exact ⟨_,by simp [stopCurrent, block, Sched.setCore, Sched.set],stopped,
    by simp [Sched.setCore],by simpa [Sched.setCore] using current⟩

omit [DecidableEq Core] in
/- The walk along TIMEOUT_LIST only reads allocated entries and inserts one node. -/
theorem insert_timeout_spec (deadline : Nat) : ∀ entries : List (TcbRef Core),
    (∀ u ∈ entries, ∃ v, s.tcb u = some v) →
    ∃ out, insertTimeout s t deadline entries = some out ∧ out.Perm (t :: entries) := by
  intro entries
  induction entries with
  | nil => intro _; exact ⟨[t],rfl,List.Perm.refl _⟩
  | cons n rest ih =>
    intro allocated
    obtain ⟨v,block⟩ := allocated n (by simp)
    obtain ⟨out,run,perm⟩ := ih (fun u member => allocated u (by simp [member]))
    by_cases early : deadline < v.wakeupTime
    · exact ⟨t :: n :: rest,by simp [insertTimeout, block, early],List.Perm.refl _⟩
    · exact ⟨n :: out,by simp [insertTimeout, block, early, run],
        (perm.cons n).trans (List.Perm.swap t n rest)⟩

theorem armed_inv (inv : Inv s) {addr : Nat} (block : s.tcb (.thread addr) = some b)
    (stopped : b.state = .stopped) (unarmed : b.wakeupTime = noTimeout) {deadline : Nat}
    (finite : deadline ≠ noTimeout) {out : List (TcbRef Core)}
    (perm : out.Perm (.thread addr :: s.timeouts)) :
    Inv { s.set (.thread addr) { b with wakeupTime := deadline } with timeouts := out } := by
  obtain ⟨⟨nodup,timed,queued,timeouts⟩,⟨thread,idle,resting⟩,core,unique,home⟩ := inv
  have absent : .thread addr ∉ s.timeouts := by
    intro member
    obtain ⟨b',block',_,armed⟩ := (timeouts _).mp member
    grind
  refine ⟨⟨nodup,?_,?_,?_⟩,⟨?_,?_,?_⟩,?_,unique,home⟩
  · exact perm.nodup_iff.mpr (List.nodup_cons.mpr ⟨absent,timed⟩)
  · intro k u
    have := queued k u
    simp only [Queueable, Current, Sched.set, Function.update_apply] at this ⊢
    grind
  · intro u
    have := timeouts u
    simp only [perm.mem_iff, Sched.set, Function.update_apply, List.mem_cons]
    grind
  · intro a u found
    have := thread a
    simp only [Sched.set, Function.update_apply] at found
    grind
  · intro d
    obtain ⟨u,found,type,state⟩ := idle d
    exact ⟨u,by simp [Sched.set, found],type,state⟩
  · intro u v found free
    have := resting u
    have unclaimed : ∀ d, ¬ Claims s d u := free
    simp only [Sched.set, Function.update_apply] at found
    grind
  · intro d
    have ok := core d
    unfold CoreOk at ok ⊢
    cases hs : (s.cctx d).stage <;> simp only [hs, Sched.set, Function.update_apply] at ok ⊢
    · exact ok
    all_goals grind [Left]

theorem deadline_exact {clock timeout : Nat} (below : clock + timeout < noTimeout) :
    (clock + timeout) % timerModulus = clock + timeout :=
  Nat.mod_eq_of_lt (by simp only [noTimeout, timerModulus] at below ⊢; omega)

theorem register_timeout_eq (inv : Inv s) {addr : Nat} (block : s.tcb (.thread addr) = some b)
    (stopped : b.state = .stopped) (unarmed : b.wakeupTime = noTimeout) (clock : Nat)
    {timeout : Nat} (finite : timeout ≠ noTimeout) : ∃ out,
      insertTimeout (s.set (.thread addr) { b with wakeupTime := (clock + timeout) % timerModulus })
        (.thread addr) ((clock + timeout) % timerModulus) s.timeouts = some out ∧
      out.Perm (.thread addr :: s.timeouts) ∧
      schedRegisterTimeout s (.thread addr) clock timeout = some
        { s.set (.thread addr) { b with wakeupTime := (clock + timeout) % timerModulus } with
          timeouts := out } := by
  have unlinked : ¬ s.Linked (.thread addr) :=
    not_linked inv block (by simp [stopped]) (fun _ => unarmed)
  have unlinked' : ¬ (s.set (.thread addr)
      { b with wakeupTime := (clock + timeout) % timerModulus }).Linked (.thread addr) := unlinked
  obtain ⟨out,run,perm⟩ := @insert_timeout_spec _
    (s.set (.thread addr) { b with wakeupTime := (clock + timeout) % timerModulus }) (.thread addr)
    ((clock + timeout) % timerModulus) s.timeouts (by
      intro u member
      obtain ⟨v,found,_⟩ := (inv.lists.memTimeouts u).mp member
      simp only [Sched.set, Function.update_apply]
      grind)
  refine ⟨out,run,perm,?_⟩
  simp only [Sched.set] at run unlinked'
  simp [schedRegisterTimeout, finite, block, unlinked', Sched.set, run]

theorem register_timeout_spec (inv : Inv s) {addr : Nat} (block : s.tcb (.thread addr) = some b)
    (stopped : b.state = .stopped) (unarmed : b.wakeupTime = noTimeout) {clock timeout : Nat}
    (bound : timeout = noTimeout ∨ (clock + timeout) % timerModulus ≠ noTimeout) :
    ∃ s', schedRegisterTimeout s (.thread addr) clock timeout = some s' ∧ Inv s' := by
  by_cases forever : timeout = noTimeout
  · exact ⟨s,by simp [schedRegisterTimeout, forever],inv⟩
  · obtain ⟨out,_,perm,run⟩ := register_timeout_eq inv block stopped unarmed clock forever
    exact ⟨_,run,armed_inv inv block stopped unarmed (bound.resolve_left forever) perm⟩

/-- sleep_releasing before it registers the timeout. -/
def stoppedAt (s : Sched Core) (c : Core) (t : TcbRef Core) (b : TCB) : Sched Core :=
  (s.set t { b with state := .stopped }).setCore c { s.cctx c with stage := .stopping }

theorem sleep_register (current : (s.cctx c).currentThread = some t) (block : s.tcb t = some b)
    (clock timeout : Nat) : sleepReleasing s c .stopped clock timeout =
      schedRegisterTimeout (stoppedAt s c t b) t clock timeout := by
  simp [sleepReleasing, current, block, stoppedAt, Sched.set, Sched.setCore]

omit [DecidableEq Core] in
/-- The thread that a core runs is not armed. -/
theorem running_unarmed (inv : Inv s) {addr : Nat} (stage : (s.cctx c).stage = .running)
    (current : (s.cctx c).currentThread = some (.thread addr)) :
    ∃ b, s.tcb (.thread addr) = some b ∧ b.state = .running ∧ b.phase = .dirty ∧
      b.wakeupTime = noTimeout := by
  obtain ⟨b,block,running,dirty⟩ : ∃ b, s.tcb (.thread addr) = some b ∧ b.state = .running ∧
      b.phase = .dirty := by
    have ok := inv.core c
    simp only [CoreOk, stage] at ok
    grind
  refine ⟨b,block,running,dirty,?_⟩
  have := (inv.blocks.thread addr b block).2.2.2
  grind

theorem stopped_at_inv (inv : Inv s) {addr : Nat} (stage : (s.cctx c).stage = .running)
    (current : (s.cctx c).currentThread = some (.thread addr))
    (block : s.tcb (.thread addr) = some b) (running : b.state = .running)
    (dirty : b.phase = .dirty) : Inv (stoppedAt s c (.thread addr) b) :=
  @stop_inv _ _ s c _ b { b with state := .stopped } inv (Or.inl stage) current block
    ⟨rfl,rfl,rfl⟩ (by simp only [Left]; grind) (Or.inr ⟨running,Or.inr ⟨addr,rfl⟩⟩)

theorem sleep_spec (inv : Inv s) {addr : Nat} (stage : (s.cctx c).stage = .running)
    (current : (s.cctx c).currentThread = some (.thread addr)) {state : ThreadState}
    (final : state = .stopped ∨ state = .exited) {clock timeout : Nat}
    (bound : timeout = noTimeout ∨ (clock + timeout) % timerModulus ≠ noTimeout) :
    ∃ s', sleepReleasing s c state clock timeout = some s' ∧ Inv s' := by
  obtain ⟨b,block,running,dirty,unarmed⟩ := running_unarmed inv stage current
  rcases final with rfl | rfl
  · rw [sleep_register current block]
    have asleep : (stoppedAt s c (.thread addr) b).tcb (.thread addr) =
        some { b with state := .stopped } := by simp [stoppedAt, Sched.set, Sched.setCore]
    exact register_timeout_spec (stopped_at_inv inv stage current block running dirty) asleep rfl
      unarmed bound
  · have stopped := @stop_inv _ _ s c _ b { b with state := .exited } inv (Or.inl stage) current
      block ⟨rfl,rfl,rfl⟩ (by simp only [Left]; grind) (Or.inr ⟨running,Or.inr ⟨addr,rfl⟩⟩)
    exact ⟨_,by simp [sleepReleasing, current, block, Sched.set, Sched.setCore],stopped⟩

end Stopping

section Switching
variable {c : Core} {t next : TcbRef Core} {b n : TCB}

/-- What yield may switch to: the thread it left, or one that no core claims. -/
def Pickable (s : Sched Core) (c : Core) (t next : TcbRef Core) (n : TCB) : Prop :=
  n.state = .ready ∧ (next = t ∨
    (n.phase = .clean ∧ (∀ d, ¬ Claims s d next) ∧ ∀ d, next = .idle d → d = c))

theorem adjust_kept (cause : SchedCause) (b : TCB) :
    (adjustPriority cause b).type = b.type ∧ (adjustPriority cause b).state = b.state ∧
      (adjustPriority cause b).phase = b.phase ∧
      (adjustPriority cause b).wakeupTime = b.wakeupTime := by
  unfold adjustPriority
  split <;> (try split) <;> simp

theorem adjust_bounds (cause : SchedCause) (b : TCB) (low : 0 ≤ b.priority)
    (high : b.priority < priorityQueues) :
    0 ≤ (adjustPriority cause b).priority ∧
      (adjustPriority cause b).priority < priorityQueues := by
  unfold adjustPriority
  split <;> (try split) <;> grind

/-- The state yield leaves: next is out of the queues and current on c, t awaits gain. -/
def switched (s : Sched Core) (c : Core) (t next : TcbRef Core) (b n : TCB) : Sched Core :=
  switchTo { s with
    queue := fun k => (s.queue k).erase next
    tcb := Function.update (Function.update s.tcb next (some n)) t (some b) } c t next

/- The blocks that a switch writes: t's with another priority, and next's with another its. -/
structure Switch (s : Sched Core) (c : Core) (t next : TcbRef Core) (b n b' n' : TCB) : Prop where
  stage : (s.cctx c).stage = .stopping
  current : (s.cctx c).currentThread = some t
  block : s.tcb t = some b
  found : s.tcb next = some n
  pick : Pickable s c t next n
  keptT : b'.type = b.type ∧ b'.state = b.state ∧ b'.phase = b.phase ∧
    b'.wakeupTime = b.wakeupTime
  keptN : n'.type = n.type ∧ n'.state = n.state ∧ n'.phase = n.phase ∧
    n'.wakeupTime = n.wakeupTime ∧ n'.priority = n.priority
  bounds : ∀ addr, t = .thread addr → 0 ≤ b'.priority ∧ b'.priority < priorityQueues

variable {b' n' : TCB}

theorem switched_claims (switch : Switch s c t next b n b' n') (d : Core) (u : TcbRef Core) :
    Claims (switched s c t next b' n') d u ↔ Claims s d u ∨ (d = c ∧ u = next) := by
  have stage := switch.stage
  have current := switch.current
  simp only [Claims, switched, switchTo, Sched.setCore, Function.update_apply]
  grind

theorem switched_current (inv : Inv s) (switch : Switch s c t next b n b' n')
    (u : TcbRef Core) :
    Current (switched s c t next b' n') u ↔ u = next ∨ (u ≠ t ∧ Current s u) := by
  have current := switch.current
  have mine : Claims s c t := Or.inl current
  have unique := inv.unique
  simp only [Current, switched, switchTo, Sched.setCore, Function.update_apply]
  constructor
  · rintro ⟨d,h⟩
    by_cases same : d = c
    · grind
    · have apart : u ≠ t := by
        rintro rfl
        exact same (unique d c u (Or.inl (by grind)) mine)
      exact Or.inr ⟨apart,d,by grind⟩
  · rintro (rfl | ⟨apart,d,h⟩)
    · exact ⟨c,by grind⟩
    · exact ⟨d,by grind⟩

omit [DecidableEq Core] in
theorem stopping_left (inv : Inv s) (stage : (s.cctx c).stage = .stopping)
    (current : (s.cctx c).currentThread = some t) (block : s.tcb t = some b) : Left b := by
  have ok := inv.core c
  simp only [CoreOk, stage] at ok
  grind

theorem switched_lists (inv : Inv s) (switch : Switch s c t next b n b' n') :
    ListsOk (switched s c t next b' n') := by
  have currents := switched_current inv switch
  obtain ⟨stage,current,block,found,pick,keptT,keptN,_⟩ := switch
  have left := stopping_left inv stage current block
  obtain ⟨nodup,timed,queued,timeouts⟩ := inv.lists
  obtain ⟨ready,choice⟩ := pick
  refine ⟨fun k => (nodup k).erase next,timed,?_,?_⟩
  · intro k u
    have member := queued k u
    have free : u ≠ next → (Current (switched s c t next b' n') u ↔ u ≠ t ∧ Current s u) := by
      intro apart
      simp [currents, apart]
    have taken : Current (switched s c t next b' n') next := (currents next).mpr (Or.inl rfl)
    have old : u = t → Current s u := by rintro rfl; exact ⟨c,current⟩
    rw [show (switched s c t next b' n').queue k = (s.queue k).erase next from rfl,
      (nodup k).mem_erase_iff]
    simp only [Queueable] at member ⊢
    simp only [switched, switchTo, Sched.setCore, Function.update_apply] at free taken ⊢
    grind [Left]
  · intro u
    have member := timeouts u
    simp only [switched, switchTo, Sched.setCore, Function.update_apply]
    grind [Left]

theorem switched_blocks (inv : Inv s) (switch : Switch s c t next b n b' n') :
    BlocksOk (switched s c t next b' n') := by
  have claims := switched_claims switch
  obtain ⟨stage,current,block,found,pick,keptT,keptN,bounds⟩ := switch
  have left := stopping_left inv stage current block
  obtain ⟨thread,idle,resting⟩ := inv.blocks
  obtain ⟨ready,choice⟩ := pick
  refine ⟨?_,?_,?_⟩
  · intro addr u is
    have := thread addr
    simp only [switched, switchTo, Sched.setCore, Function.update_apply] at is
    grind
  · intro d
    obtain ⟨u,is,type,state⟩ := idle d
    have offline : d = c → u.state ≠ .init := by
      rintro rfl
      have ok := stage
      grind
    simp only [switched, switchTo, Sched.setCore, Function.update_apply]
    by_cases asT : TcbRef.idle d = t
    · exact ⟨b',by simp [asT],by grind,by grind⟩
    · by_cases asN : TcbRef.idle d = next
      · exact ⟨n',by simp [asN ▸ asT, asN],by grind,by grind⟩
      · exact ⟨u,by simp [asT, asN, is],type,by grind⟩
  · intro u v is free
    have calm := resting u
    have unclaimed : ∀ d, ¬ Claims s d u := fun d h => free d ((claims d u).mpr (Or.inl h))
    have apart : u ≠ next := fun h => free c ((claims c u).mpr (Or.inr ⟨rfl,h⟩))
    simp only [switched, switchTo, Sched.setCore, Function.update_apply] at is
    grind

theorem switched_core (inv : Inv s) (switch : Switch s c t next b n b' n') (d : Core) :
    CoreOk (switched s c t next b' n') d := by
  obtain ⟨stage,current,block,found,pick,keptT,keptN,_⟩ := switch
  have left := stopping_left inv stage current block
  have unique := inv.unique
  have mine : Claims s c t := Or.inl current
  have ok := inv.core d
  obtain ⟨ready,choice⟩ := pick
  by_cases same : d = c
  · subst same
    simp only [CoreOk, switched, switchTo, Sched.setCore, Function.update_apply]
    simp only [Left] at left ⊢
    by_cases stay : next = t
    · subst stay
      exact ⟨next,next,b',b',by grind⟩
    · exact ⟨next,t,n',b',by grind⟩
  · have apart : ∀ u, Claims s d u → u ≠ t ∧ u ≠ next := by
      intro u claimed
      have notT : u ≠ t := by
        rintro rfl
        exact same (unique d c u claimed mine)
      refine ⟨notT,?_⟩
      rintro rfl
      rcases choice with h | ⟨_,free,_⟩
      · exact notT h
      · exact free d claimed
    unfold CoreOk at ok ⊢
    unfold Claims at apart
    simp only [switched, switchTo, Sched.setCore, Function.update_apply, same, if_false]
    cases hs : (s.cctx d).stage <;> simp only [hs] at ok apart ⊢
    · exact ok
    all_goals grind

theorem switched_unique (inv : Inv s) (switch : Switch s c t next b n b' n') (d d' : Core)
    (u : TcbRef Core) (h : Claims (switched s c t next b' n') d u)
    (h' : Claims (switched s c t next b' n') d' u) : d = d' := by
  rw [switched_claims switch] at h h'
  have both := inv.unique d d' u
  have alone : u = next → ∀ e, Claims s e u → e = c := by
    rintro rfl e claimed
    rcases switch.pick.2 with rfl | ⟨_,free,_⟩
    · exact inv.unique e c u claimed (Or.inl switch.current)
    · exact absurd claimed (free e)
  grind

theorem switched_home (inv : Inv s) (switch : Switch s c t next b n b' n') (d d' : Core)
    (h : Claims (switched s c t next b' n') d (.idle d')) : d = d' := by
  rw [switched_claims switch] at h
  have own := inv.home d d'
  have mineHome := inv.home c d'
  have mine : Claims s c t := Or.inl switch.current
  have choice := switch.pick.2
  grind

theorem switched_inv (inv : Inv s) (switch : Switch s c t next b n b' n') :
    Inv (switched s c t next b' n') where
  lists := switched_lists inv switch
  blocks := switched_blocks inv switch
  core := switched_core inv switch
  unique := switched_unique inv switch
  home := switched_home inv switch

/- Popping the highest non-empty queue unlinks its head; the other queues do not hold it. -/
theorem pop_highest_spec (inv : Inv s) : ∀ counter : Nat,
    popHighest s counter = (none,s) ∨
    ∃ k u, u ∈ s.queue k ∧
      popHighest s counter = (some u,{ s with queue := fun k => (s.queue k).erase u }) := by
  intro counter
  induction counter with
  | zero => exact Or.inl rfl
  | succ counter ih =>
    cases head : s.queue counter with
    | nil => simpa [popHighest, head] using ih
    | cons u rest =>
      refine Or.inr ⟨counter,u,by simp [head],?_⟩
      have queues : Function.update s.queue counter rest = fun k => (s.queue k).erase u := by
        funext k
        by_cases same : k = counter
        · subst same
          simp [head]
        · have elsewhere : u ∉ s.queue k := by
            intro member
            obtain ⟨_,_,_,p,_⟩ := (inv.lists.memQueue k u).mp member
            obtain ⟨_,_,_,q,_⟩ := (inv.lists.memQueue counter u).mp (by simp [head])
            grind
          simp [same, List.erase_of_not_mem elsewhere]
      simp [popHighest, head, queues]

theorem queue_select_spec (inv : Inv s) (stage : (s.cctx c).stage = .stopping)
    (current : (s.cctx c).currentThread = some t) :
    ∃ next n, s.tcb next = some n ∧ Pickable s c t next n ∧
      schedQueueSelect s c t = some (next,{ s with
        queue := fun k => (s.queue k).erase next
        tcb := Function.update s.tcb next (some { n with its := quantum }) }) := by
  obtain ⟨b,block,left⟩ : ∃ b, s.tcb t = some b ∧ Left b := by
    have ok := inv.core c
    simp only [CoreOk, stage] at ok
    grind
  have mine : Claims s c t := Or.inl current
  have fallback : ∀ u, (∀ k, u ∉ s.queue k) → (fun k => (s.queue k).erase u) = s.queue := by
    intro u absent
    funext k
    exact List.erase_of_not_mem (absent k)
  rcases pop_highest_spec inv priorityQueues with empty | ⟨k,u,member,popped⟩
  · by_cases ready : b.state = .ready
    · refine ⟨t,b,block,⟨ready,Or.inl rfl⟩,?_⟩
      have queues := fallback t (by
        intro k queued
        obtain ⟨b',block',_,_,_,clean,_⟩ := (inv.lists.memQueue k t).mp queued
        grind [Left])
      simp [schedQueueSelect, empty, block, ready, Sched.set, queues]
    · obtain ⟨n,found,type,state⟩ := inv.blocks.idle c
      have apart : TcbRef.idle c ≠ t := by rintro rfl; grind [Left]
      have free : ∀ d, ¬ Claims s d (.idle c) := by
        intro d claimed
        obtain rfl := inv.home d c claimed
        simp only [Claims, stage] at claimed
        grind
      obtain ⟨clean,calm⟩ := inv.blocks.resting _ n found free
      refine ⟨.idle c,n,found,⟨by grind,Or.inr ⟨clean,free,by grind⟩⟩,?_⟩
      have queues := fallback (.idle c) (by
        intro k queued
        obtain ⟨b',block',normal,_⟩ := (inv.lists.memQueue k _).mp queued
        grind)
      simp [schedQueueSelect, empty, block, ready, found, Sched.set, queues]
  · obtain ⟨n,found,normal,priority,ready,clean,absent⟩ := (inv.lists.memQueue k u).mp member
    have free : ∀ d, ¬ Claims s d u := by
      rintro d (is | ⟨switching,was⟩)
      · exact absent ⟨d,is⟩
      · have ok := inv.core d
        simp only [CoreOk, switching] at ok
        grind [Left]
    have thread : ∀ d, u = .idle d → d = c := by
      rintro d rfl
      obtain ⟨v,is,type,_⟩ := inv.blocks.idle d
      simp_all
    refine ⟨u,n,found,⟨ready,Or.inr ⟨clean,free,thread⟩⟩,?_⟩
    simp [schedQueueSelect, popped, block, found, Sched.set]

/-- What one yield does: the outgoing thread is left dirty, the incoming one is clean and no
    other core is on it. -/
theorem yield_spec (inv : Inv s)
    (stage : (s.cctx c).stage = .running ∨ (s.cctx c).stage = .stopping) (cause : SchedCause)
    (remaining clock : Nat) :
    ∃ s' t next n, yield s c cause remaining clock = some s' ∧ Inv s' ∧
      (s.cctx c).currentThread = some t ∧ (s'.cctx c).currentThread = some next ∧
      s'.tcb next = some n ∧ (next ≠ t → n.phase = .clean) := by
  obtain ⟨t,current⟩ : ∃ t, (s.cctx c).currentThread = some t := by
    have ok := inv.core c
    unfold CoreOk at ok
    rcases stage with stage | stage <;> simp only [stage] at ok <;> grind
  obtain ⟨s1,counted,inv1,cores1⟩ := count_yield_spec inv
  obtain ⟨s2,stopped,inv2,stage2,current2⟩ := stop_current_spec inv1 (cores1 ▸ stage)
    (cores1 ▸ current) cause remaining
  obtain ⟨s3,expired,inv3,cores3⟩ := expired_timeouts_spec inv2 clock
  rw [← cores3] at stage2 current2
  obtain ⟨next,n,found,pick,selected⟩ := queue_select_spec inv3 stage2 current2
  obtain ⟨b,block⟩ : ∃ b, s3.tcb t = some b := by
    have ok := inv3.core c
    simp only [CoreOk, stage2] at ok
    grind
  have bounds : ∀ addr, t = .thread addr → 0 ≤ b.priority ∧ b.priority < priorityQueues := by
    rintro addr rfl
    have := inv3.blocks.thread addr b block
    exact ⟨this.2.1,this.2.2.1⟩
  let touched : TCB := if next = t then { n with its := quantum } else b
  have same : next = t → n = b := by rintro rfl; simp_all
  have final : yield s c cause remaining clock =
      some (switched s3 c t next (adjustPriority cause touched) { n with its := quantum }) := by
    by_cases stay : next = t
    · subst stay
      simp [yield, current, counted, stopped, expired, selected, switched, Sched.set, touched]
    · simp [yield, current, counted, stopped, expired, selected, switched, Sched.set, touched,
        Ne.symm stay, stay, block]
  have kept := adjust_kept cause touched
  have touchedKept : touched.type = b.type ∧ touched.state = b.state ∧ touched.phase = b.phase ∧
      touched.wakeupTime = b.wakeupTime ∧ touched.priority = b.priority := by
    simp only [touched]
    grind
  have switch : Switch s3 c t next b n (adjustPriority cause touched) { n with its := quantum } :=
    { stage := stage2
      current := current2
      block := block
      found := found
      pick := pick
      keptT := by grind
      keptN := by simp
      bounds := fun addr is => by
        obtain ⟨low,high⟩ := bounds addr is
        exact adjust_bounds cause touched (by grind) (by grind) }
  have inv' := switched_inv inv3 switch
  by_cases stay : next = t
  · subst stay
    refine ⟨_,next,next,adjustPriority cause touched,final,inv',current,?_,?_,by simp⟩ <;>
      simp [switched, switchTo, Sched.setCore, current2]
  · refine ⟨_,t,next,{ n with its := quantum },final,inv',current,?_,?_,?_⟩
    · simp [switched, switchTo, Sched.setCore, Ne.symm stay]
    · simp [switched, switchTo, Sched.setCore, stay]
    · intro _
      rcases pick.2 with h | ⟨clean,_⟩
      · exact absurd h stay
      · exact clean

end Switching

section Gaining
variable {c : Core} {t p : TcbRef Core} {b q : TCB}

/-- The core takes up the thread it had chosen. -/
def resumed (s : Sched Core) (c : Core) (t : TcbRef Core) (b : TCB) : Sched Core :=
  (s.set t { b with state := .running, phase := .dirty, rts := b.its }).setCore c
    { s.cctx c with stage := .running }

/-- It also lets go of the thread it left: clean from now on, queued if READY, freed if EXITED. -/
def gained (s : Sched Core) (c : Core) (t p : TcbRef Core) (b q : TCB) : Sched Core :=
  { resumed s c t b with
    tcb := Function.update (resumed s c t b).tcb p
      (if q.state = .exited then none else some { q with phase := .clean })
    queue := if q.state = .ready ∧ q.type = .normal then
        Function.update s.queue q.priority (s.queue q.priority ++ [p]) else s.queue
    activeThreads := if q.state = .exited then s.activeThreads - 1 else s.activeThreads }

omit [DecidableEq Core] in
theorem switching_blocks (inv : Inv s) (stage : (s.cctx c).stage = .switching) :
    ∃ t p b q, (s.cctx c).currentThread = some t ∧ (s.cctx c).previousThread = some p ∧
      s.tcb t = some b ∧ s.tcb p = some q ∧ Left q ∧ b.state = .ready ∧
      (t ≠ p → b.phase = .clean) := by
  have ok := inv.core c
  simpa only [CoreOk, stage] using ok

theorem gained_claims (v : Sched Core) (current : (s.cctx c).currentThread = some t)
    (cores : v.cctx = Function.update s.cctx c { s.cctx c with stage := .running })
    (d : Core) (u : TcbRef Core) :
    Claims v d u ↔ if d = c then u = t else Claims s d u := by
  simp only [Claims, cores, Function.update_apply]
  grind

theorem gained_current (s v : Sched Core)
    (cores : v.cctx = Function.update s.cctx c { s.cctx c with stage := .running })
    (u : TcbRef Core) : Current v u ↔ Current s u := by
  simp only [Current, cores, Function.update_apply]
  constructor <;> rintro ⟨d,h⟩ <;> exact ⟨d,by grind⟩

/-- The parts of the invariant that gain keeps whatever it does to the previous thread. -/
theorem gained_cores (inv : Inv s) (stage : (s.cctx c).stage = .switching) (v : Sched Core)
    (current : (s.cctx c).currentThread = some t) (previous : (s.cctx c).previousThread = some p)
    (block : s.tcb t = some b)
    (cores : v.cctx = Function.update s.cctx c { s.cctx c with stage := .running })
    (runs : v.tcb t = some { b with state := .running, phase := .dirty, rts := b.its })
    (frame : ∀ u, u ≠ t → u ≠ p → v.tcb u = s.tcb u) :
    (∀ d, CoreOk v d) ∧ (∀ d d' u, Claims v d u → Claims v d' u → d = d') ∧
      (∀ d d', Claims v d (.idle d') → d = d') := by
  have mine : Claims s c t := Or.inl current
  have mineP : Claims s c p := Or.inr ⟨stage,previous⟩
  have claims := gained_claims v current cores
  refine ⟨?_,?_,?_⟩
  · intro d
    have ok := inv.core d
    by_cases same : d = c
    · subst same
      simp only [CoreOk, cores, Function.update_self]
      exact ⟨t,_,current,runs,rfl,rfl⟩
    · have apart : ∀ u, Claims s d u → v.tcb u = s.tcb u := by
        intro u claimed
        refine frame u ?_ ?_
        · rintro rfl
          exact same (inv.unique d c u claimed mine)
        · rintro rfl
          exact same (inv.unique d c u claimed mineP)
      unfold CoreOk at ok ⊢
      unfold Claims at apart
      simp only [cores, Function.update_apply, same, if_false]
      cases hs : (s.cctx d).stage <;> simp only [hs] at ok apart ⊢
      · exact ok
      all_goals grind
  · intro d d' u h h'
    rw [claims] at h h'
    have := inv.unique d d' u
    have := inv.unique d c t
    have := inv.unique d' c t
    grind
  · intro d d' h
    rw [claims] at h
    have := inv.home d d'
    have := inv.home c d'
    grind

omit [DecidableEq Core] in
theorem left_unlinked (inv : Inv s) (block : s.tcb p = some q) (left : Left q) :
    ∀ k, p ∉ s.queue k := by
  intro k member
  obtain ⟨q',block',_,_,_,clean,_⟩ := (inv.lists.memQueue k p).mp member
  grind [Left]

theorem gained_lists (inv : Inv s) (stage : (s.cctx c).stage = .switching)
    (current : (s.cctx c).currentThread = some t) (previous : (s.cctx c).previousThread = some p)
    (block : s.tcb t = some b) (ready : b.state = .ready) (was : s.tcb p = some q) (left : Left q)
    (apart : t ≠ p) : ListsOk (gained s c t p b q) := by
  have mineT : Claims s c t := Or.inl current
  have mineP : Claims s c p := Or.inr ⟨stage,previous⟩
  have currents := gained_current s (gained s c t p b q) rfl
  have absent : ¬ Current s p := by
    rintro ⟨d,h⟩
    obtain rfl := inv.unique d c p (Or.inl h) mineP
    grind
  have present : Current s t := ⟨c,current⟩
  have unqueued := left_unlinked inv was left
  refine ⟨?_,inv.lists.timeoutsNodup,?_,?_⟩
  · intro k
    have nodup := inv.lists.queueNodup k
    have := unqueued k
    simp only [gained]
    split
    · simp only [Function.update_apply]
      grind [List.nodup_append]
    · exact nodup
  · intro k u
    have member := inv.lists.memQueue k u
    have := unqueued k
    simp only [Queueable, currents] at member ⊢
    simp only [gained, resumed, Sched.set, Sched.setCore, Function.update_apply]
    grind [Left]
  · intro u
    have member := inv.lists.memTimeouts u
    simp only [gained, resumed, Sched.set, Sched.setCore, Function.update_apply]
    grind

theorem gained_blocks (inv : Inv s) (stage : (s.cctx c).stage = .switching)
    (current : (s.cctx c).currentThread = some t) (previous : (s.cctx c).previousThread = some p)
    (block : s.tcb t = some b) (ready : b.state = .ready) (was : s.tcb p = some q) (left : Left q)
    (apart : t ≠ p) : BlocksOk (gained s c t p b q) := by
  have claims := gained_claims (gained s c t p b q) current rfl
  have online : ∀ d, (s.cctx d).stage = .offline →
      ((gained s c t p b q).cctx d).stage = .offline := by
    intro d off
    simp only [gained, resumed, Sched.set, Sched.setCore, Function.update_apply]
    grind
  obtain ⟨thread,idle,resting⟩ := inv.blocks
  refine ⟨?_,?_,?_⟩
  · intro addr u found
    have := thread addr
    simp only [gained, resumed, Sched.set, Sched.setCore, Function.update_apply] at found
    grind [Left]
  · intro d
    obtain ⟨u,found,type,state⟩ := idle d
    have off := online d
    have isT : TcbRef.idle d = t → u = b := by rintro rfl; simp_all
    have isP : TcbRef.idle d = p → u = q := by rintro rfl; simp_all
    generalize ((gained s c t p b q).cctx d).stage = stage' at off
    simp only [gained, resumed, Sched.set, Sched.setCore, Function.update_apply]
    by_cases onT : TcbRef.idle d = t
    · exact ⟨{ b with state := .running, phase := .dirty, rts := b.its },by grind,by grind,
        by grind⟩
    · by_cases onP : TcbRef.idle d = p
      · exact ⟨{ q with phase := .clean },by grind,by grind,by grind⟩
      · exact ⟨u,by grind,type,by grind⟩
  · intro u v found free
    have calm := resting u
    have unclaimed := fun d => free d
    simp only [claims] at unclaimed
    have notT : u ≠ t := by simpa using unclaimed c
    have others : u ≠ p → ∀ d, ¬ Claims s d u := by
      intro notP d claimed
      by_cases same : d = c
      · subst same
        simp only [Claims, stage] at claimed
        grind
      · have := unclaimed d
        simp only [same, if_false] at this
        exact this claimed
    simp only [gained, resumed, Sched.set, Sched.setCore, Function.update_apply] at found
    grind [Left]

theorem gained_inv (inv : Inv s) (stage : (s.cctx c).stage = .switching)
    (current : (s.cctx c).currentThread = some t) (previous : (s.cctx c).previousThread = some p)
    (block : s.tcb t = some b) (ready : b.state = .ready) (was : s.tcb p = some q) (left : Left q)
    (apart : t ≠ p) : Inv (gained s c t p b q) := by
  obtain ⟨core,unique,home⟩ := gained_cores inv stage (gained s c t p b q) current previous block
    rfl (by simp [gained, resumed, Sched.set, Sched.setCore, apart])
    (by intro u notT notP; simp [gained, resumed, Sched.set, Sched.setCore, notT, notP])
  exact ⟨gained_lists inv stage current previous block ready was left apart,
    gained_blocks inv stage current previous block ready was left apart,core,unique,home⟩

/-- When yield renewed the time slice of its caller only that thread is touched. -/
theorem resumed_inv (inv : Inv s) (stage : (s.cctx c).stage = .switching)
    (current : (s.cctx c).currentThread = some t) (previous : (s.cctx c).previousThread = some t)
    (block : s.tcb t = some b) (ready : b.state = .ready) : Inv (resumed s c t b) := by
  obtain ⟨core,unique,home⟩ := gained_cores inv stage (resumed s c t b) current previous block
    rfl (by simp [resumed, Sched.set, Sched.setCore])
    (by intro u notT _; simp [resumed, Sched.set, Sched.setCore, notT])
  have claims := gained_claims (resumed s c t b) current rfl
  have currents := gained_current s (resumed s c t b) rfl
  have present : Current s t := ⟨c,current⟩
  obtain ⟨thread,idle,resting⟩ := inv.blocks
  refine ⟨⟨inv.lists.queueNodup,inv.lists.timeoutsNodup,?_,?_⟩,⟨?_,?_,?_⟩,core,unique,home⟩
  · intro k u
    have member := inv.lists.memQueue k u
    simp only [Queueable, currents] at member ⊢
    simp only [resumed, Sched.set, Sched.setCore, Function.update_apply]
    grind
  · intro u
    have member := inv.lists.memTimeouts u
    simp only [resumed, Sched.set, Sched.setCore, Function.update_apply]
    grind
  · intro addr u found
    have := thread addr
    simp only [resumed, Sched.set, Sched.setCore, Function.update_apply] at found
    grind
  · intro d
    obtain ⟨u,found,type,state⟩ := idle d
    simp only [resumed, Sched.set, Sched.setCore, Function.update_apply]
    by_cases onT : TcbRef.idle d = t
    · exact ⟨{ b with state := .running, phase := .dirty, rts := b.its },by grind,by grind,
        by grind⟩
    · exact ⟨u,by grind,type,by grind⟩
  · intro u v found free
    have calm := resting u
    have unclaimed := fun d => free d
    simp only [claims] at unclaimed
    have notT : u ≠ t := by simpa using unclaimed c
    have others : ∀ d, ¬ Claims s d u := by
      intro d claimed
      by_cases same : d = c
      · subst same
        simp only [Claims, stage] at claimed
        grind
      · have := unclaimed d
        simp only [same, if_false] at this
        exact this claimed
    simp only [resumed, Sched.set, Sched.setCore, Function.update_apply] at found
    grind

theorem gain_eq (inv : Inv s)
    (current : (s.cctx c).currentThread = some t) (previous : (s.cctx c).previousThread = some p)
    (block : s.tcb t = some b) (was : s.tcb p = some q) (left : Left q) :
    gain s c = some (if t = p then resumed s c t b else gained s c t p b q) := by
  by_cases same : t = p
  · subst same
    simp [gain, current, previous, block, resumed, Sched.set, Sched.setCore]
  · rcases left.2 with ready | stopped | exited
    · cases type : q.type with
      | idle =>
        simp [gain, current, previous, block, same, Ne.symm same, was, ready, type, gained, resumed,
          Sched.set, Sched.setCore]
      | normal =>
        obtain ⟨addr,rfl⟩ := normal_thread inv was type
        obtain ⟨_,low,high,_⟩ := inv.blocks.thread addr q was
        have untimed : .thread addr ∉ s.timeouts := by
          intro member
          obtain ⟨q',block',stopped,_⟩ := (inv.lists.memTimeouts _).mp member
          simp_all
        have unqueued := left_unlinked inv was left
        have added := queue_add_eq
          ((resumed s c t b).set (.thread addr) { q with phase := .clean })
          { q with phase := .clean } (by simp [Sched.set]) low high unqueued untimed
        simp only [resumed, Sched.set, Sched.setCore] at added
        simp [gain, current, previous, block, same, Ne.symm same, was, ready, type, gained, resumed,
          Sched.set, Sched.setCore] at added ⊢
        exact added
    · simp [gain, current, previous, block, same, Ne.symm same, was, stopped, gained, resumed,
        Sched.set, Sched.setCore]
    · simp [gain, current, previous, block, same, Ne.symm same, was, exited, gained, resumed,
        Sched.set, Sched.setCore, releaseTCB]

theorem gain_spec (inv : Inv s) (stage : (s.cctx c).stage = .switching) :
    ∃ s', gain s c = some s' ∧ Inv s' := by
  obtain ⟨t,p,b,q,current,previous,block,was,left,ready,clean⟩ := switching_blocks inv stage
  refine ⟨_,gain_eq inv current previous block was left,?_⟩
  split
  · rename_i same
    subst same
    exact resumed_inv inv stage current previous block ready
  · rename_i apart
    exact gained_inv inv stage current previous block ready was left apart

end Gaining

section Running

omit [DecidableEq Core] in
theorem initial_inv : Inv (initializeScheduler Core) := by
  refine ⟨⟨?_,?_,?_,?_⟩,⟨?_,?_,?_⟩,?_,?_,?_⟩
  · intro k; exact List.nodup_nil
  · exact List.nodup_nil
  · intro k t
    constructor
    · intro member; cases member
    · rintro ⟨b,block,normal,_⟩
      cases t with
      | idle c => cases block; cases normal
      | thread addr => cases block
  · intro t
    constructor
    · intro member; cases member
    · rintro ⟨b,block,stopped,_⟩
      cases t with
      | idle c => cases block; cases stopped
      | thread addr => cases block
  · intro addr b block; cases block
  · intro c; exact ⟨zeroTCB,rfl,rfl,Or.inl ⟨rfl,rfl⟩⟩
  · intro t b block _
    cases t with
    | idle c => cases block; exact ⟨rfl,Or.inl rfl⟩
    | thread addr => cases block
  · intro c; exact rfl
  · rintro c c' t (h | ⟨h,_⟩) _ <;> cases h
  · rintro c c' (h | ⟨h,_⟩) <;> cases h

theorem spawn_inv (inv : Inv s) {addr : Nat} (fresh : s.tcb (.thread addr) = none) :
    Inv (spawnThread s addr) := by
  obtain ⟨⟨nodup,timed,queued,timeouts⟩,⟨thread,idle,resting⟩,core,unique,home⟩ := inv
  refine ⟨⟨nodup,timed,?_,?_⟩,⟨?_,?_,?_⟩,?_,unique,home⟩
  · intro k t
    have := queued k t
    simp only [Queueable, Current, spawnThread, Function.update_apply] at this ⊢
    grind
  · intro t
    have := timeouts t
    simp only [spawnThread, Function.update_apply]
    grind
  · intro a b found
    have := thread a b
    simp only [spawnThread, Function.update_apply, priorityQueues] at found this ⊢
    grind
  · intro c
    obtain ⟨b,found,type,state⟩ := idle c
    exact ⟨b,by simp [spawnThread, found],type,state⟩
  · intro t b found free
    have := resting t b
    have unclaimed : ∀ c, ¬ Claims s c t := free
    simp only [spawnThread, Function.update_apply] at found
    grind
  · intro c
    have ok := core c
    unfold CoreOk at ok ⊢
    cases hs : (s.cctx c).stage <;> simp only [hs, spawnThread, Function.update_apply] at ok ⊢
    · exact ok
    all_goals grind

/-- The state run_scheduler leaves on its core. -/
def started (s : Sched Core) (c : Core) (b : TCB) : Sched Core :=
  { s with
    tcb := Function.update s.tcb (.idle c) (some
      { b with type := .idle, state := .running, phase := .dirty, wakeupTime := noTimeout,
               its := quantum, rts := quantum, currCause := .idle, lastCause := .idle })
    cctx := Function.update s.cctx c
      { s.cctx c with currentThread := some (.idle c), stage := .running } }

theorem run_scheduler_spec (inv : Inv s) {c : Core} (stage : (s.cctx c).stage = .offline) :
    ∃ s', runScheduler s c = some s' ∧ Inv s' := by
  obtain ⟨⟨nodup,timed,queued,timeouts⟩,⟨thread,idle,resting⟩,core,unique,home⟩ := inv
  obtain ⟨b,block,type,state⟩ := idle c
  have vacant : (s.cctx c).currentThread = none := by
    have ok := core c
    simpa only [CoreOk, stage] using ok
  have free : ∀ d, ¬ Claims s d (.idle c) := by
    intro d claimed
    obtain rfl := home d c claimed
    simp only [Claims, stage, vacant] at claimed
    grind
  have empty : ∀ u, ¬ Claims s c u := by
    intro u claimed
    simp only [Claims, stage, vacant] at claimed
    grind
  refine ⟨started s c b,by simp [runScheduler, block, started, Sched.set, Sched.setCore],?_⟩
  have claims : ∀ d u, Claims (started s c b) d u ↔
      if d = c then u = .idle c else Claims s d u := by
    intro d u
    simp only [Claims, started, Function.update_apply]
    grind
  refine ⟨⟨nodup,timed,?_,?_⟩,⟨?_,?_,?_⟩,?_,?_,?_⟩
  · intro k t
    have member := queued k t
    have same : t ≠ .idle c → (Current (started s c b) t ↔ Current s t) := by
      intro apart
      simp only [Current, started, Function.update_apply]
      constructor <;> rintro ⟨d,h⟩ <;> exact ⟨d,by grind⟩
    have idles : s.tcb t = some b → b.type = .idle := fun _ => type
    simp only [Queueable] at member ⊢
    by_cases isIdle : t = .idle c
    · subst isIdle
      simp only [started, Function.update_self]
      grind
    · rw [same isIdle]
      simpa [started, isIdle] using member
  · intro t
    have := timeouts t
    simp only [started, Function.update_apply]
    grind
  · intro addr u found
    have := thread addr u
    simp only [started, Function.update_apply] at found
    grind
  · intro d
    obtain ⟨u,found,type',state'⟩ := idle d
    simp only [started, Function.update_apply]
    by_cases same : d = c
    · subst same
      exact ⟨{ b with type := .idle, state := .running, phase := .dirty, wakeupTime := noTimeout,
                      its := quantum, rts := quantum, currCause := .idle, lastCause := .idle },
        by simp,rfl,Or.inr (Or.inr rfl)⟩
    · exact ⟨u,by simp [same, found],type',by simpa [same] using state'⟩
  · intro t u found unclaimed
    simp only [claims] at unclaimed
    have := resting t u
    have apart : t ≠ .idle c := by simpa using unclaimed c
    have others : ∀ d, ¬ Claims s d t := by
      intro d
      by_cases same : d = c
      · subst same
        exact empty t
      · simpa [same] using unclaimed d
    simp only [started, Function.update_apply] at found
    grind
  · intro d
    have ok := core d
    by_cases same : d = c
    · subst same
      simp only [CoreOk, started, Function.update_self]
      exact ⟨.idle d,{ b with
        type := .idle, state := .running, phase := .dirty, wakeupTime := noTimeout,
        its := quantum, rts := quantum, currCause := .idle, lastCause := .idle },rfl,by simp,rfl,rfl⟩
    · have apart : ∀ u, Claims s d u → u ≠ .idle c := by
        rintro u claimed rfl
        exact free d claimed
      unfold CoreOk at ok ⊢
      unfold Claims at apart
      simp only [started, Function.update_apply, same, if_false]
      cases hs : (s.cctx d).stage <;> simp only [hs] at ok apart ⊢
      · exact ok
      all_goals grind
  · intro d d' u h h'
    rw [claims] at h h'
    have := unique d d' u
    grind
  · intro d d' h
    rw [claims] at h
    have := home d d'
    grind

/-- An enabled section of an invariant state runs to its end and keeps the invariant. -/
theorem section_spec (inv : Inv s) {a : Action Core} (enabled : Enabled s a) :
    ∃ s', exec s a = some s' ∧ Inv s' := by
  cases a with
  | runScheduler c => exact run_scheduler_spec inv enabled
  | spawn addr => exact ⟨_,rfl,spawn_inv inv enabled⟩
  | wakeup addr =>
    obtain ⟨b,block⟩ := Option.ne_none_iff_exists'.mp enabled
    obtain ⟨s',woken,run,inv',_⟩ := wakeup_spec inv block
    exact ⟨s',by simp [exec, run],inv'⟩
  | sleep c state clock timeout =>
    obtain ⟨stage,⟨addr,current⟩,final,bound⟩ := enabled
    refine sleep_spec inv stage current final (bound.imp_right fun below => ?_)
    rw [deadline_exact below]
    exact Nat.ne_of_lt below
  | yield c cause remaining clock =>
    obtain ⟨s',t,next,n,run,inv',_⟩ := yield_spec inv enabled cause remaining clock
    exact ⟨s',run,inv'⟩
  | gain c => exact gain_spec inv enabled

theorem system_inductive : (system Core).Inductive Inv where
  start := by rintro s rfl; exact initial_inv
  step := by
    rintro s a s' inv ⟨enabled,run⟩
    obtain ⟨s'',run',inv'⟩ := section_spec inv enabled
    obtain rfl : s' = s'' := Option.some.inj (run.symm.trans run')
    exact inv'

theorem reach_inv (reach : (system Core).Reach s) : Inv s := inductive_reach system_inductive reach

end Running
end KernelSched
