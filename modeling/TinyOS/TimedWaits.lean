import TinyOS.Timeouts

/- The waits with a timeout, from their API down to the deadline: Cond_TimedWait of kernel_cc.c and
   Connect of kernel_socket.c. Times are of bios_clock, in microseconds; both calls are given
   milliseconds. -/
namespace KernelSched
open Transition

inductive WaitCall where
  | condTimedWait | connect
  deriving DecidableEq, Repr

/- A call with its timeout_t and the clock at which sched_register_timeout runs. -/
structure TimedWait where
  call : WaitCall
  timeout : Fin timerModulus
  since : Fin timerModulus

/- The timeout that reaches sleep_releasing: Cond_TimedWait multiplies by 1000ul, and Connect hands
   its own to kernel_timedwait. -/
def TimedWait.passed (w : TimedWait) : Nat :=
  match w.call with
  | .condTimedWait => w.timeout.val * 1000 % timerModulus
  | .connect => w.timeout.val

def TimedWait.deadline (w : TimedWait) : Nat := (w.since.val + w.passed) % timerModulus

/- A deadline of NO_TIMEOUT would be taken for none. -/
def TimedWait.Apart (w : TimedWait) : Prop := w.passed = noTimeout ∨ w.deadline ≠ noTimeout

/- The time at which the caller may first be told of a timeout. -/
def TimedWait.due (w : TimedWait) : Nat := w.since.val + 1000 * w.timeout.val

/- A negative timeout of Connect stands for none. -/
def TimedWait.Endless (w : TimedWait) : Prop := w.call = .connect ∧ 2 ^ 63 ≤ w.timeout.val

section System
variable {Core : Type} [DecidableEq Core]

/- `asked` is the last call of each thread that has put it to sleep with a timeout, and `now` is
   the last reading of the clock. -/
structure WaitRun (Core : Type) where
  sched : Sched Core
  asked : TcbRef Core → Option TimedWait
  now : Nat

inductive WaitAction (Core : Type) where
  | timedWait (c : Core) (w : TimedWait)
  | sched (a : Action Core)

def clockOf : Action Core → Option Nat
  | .sleep _ _ clock _ | .yield _ _ _ clock => some clock
  | _ => none

def sleeper (s : Sched Core) : Action Core → Option (TcbRef Core)
  | .sleep c _ _ _ => (s.cctx c).currentThread
  | _ => none

/- The clock does not go back. All other calls of sleep_releasing are without a timeout. -/
def WaitEnabled (r : WaitRun Core) : WaitAction Core → Prop
  | .timedWait c w =>
    Enabled r.sched (.sleep c .stopped 0 noTimeout) ∧ r.now ≤ w.since.val ∧ w.Apart
  | .sched a =>
    Enabled r.sched a ∧ ¬ Arms a ∧ ∀ clock ∈ clockOf a, r.now ≤ clock ∧ clock < timerModulus

def ask (r : WaitRun Core) (t : Option (TcbRef Core)) (w : Option TimedWait) :
    TcbRef Core → Option TimedWait :=
  match t with
  | none => r.asked
  | some t => Function.update r.asked t w

def waitExec (r : WaitRun Core) : WaitAction Core → Option (WaitRun Core)
  | .timedWait c w =>
    (sleepReleasing r.sched c .stopped w.since.val w.passed).map fun s =>
      { sched := s, asked := ask r (r.sched.cctx c).currentThread (some w), now := w.since.val }
  | .sched a =>
    (exec r.sched a).map fun s =>
      { sched := s, asked := ask r (sleeper r.sched a) none, now := (clockOf a).getD r.now }

def waitSystem (Core : Type) [DecidableEq Core] : Machine (WaitRun Core) (WaitAction Core) where
  start r := r = { sched := initializeScheduler Core, asked := fun _ => none, now := 0 }
  enabled := WaitEnabled
  exec := waitExec

instance (w : TimedWait) : Decidable w.Apart := inferInstanceAs (Decidable (_ ∨ _))

instance (r : WaitRun Core) (a : WaitAction Core) : Decidable ((waitSystem Core).enabled r a) :=
  match a with
  | .timedWait c w => inferInstanceAs (Decidable
      (Enabled r.sched (.sleep c .stopped 0 noTimeout) ∧ r.now ≤ w.since.val ∧ w.Apart))
  | .sched a => inferInstanceAs (Decidable (Enabled r.sched a ∧ ¬ Arms a ∧
      ∀ clock ∈ clockOf a, r.now ≤ clock ∧ clock < timerModulus))

/- A yield at the clock makes a sleeping thread READY with sched_wakeup_expired_timeouts. -/
def TimedOut (r : WaitRun Core) (t : TcbRef Core) (clock : Nat) : Prop :=
  r.now ≤ clock ∧ clock < timerModulus ∧ ∃ c cause remaining s₁ s₂ b b',
    Enabled r.sched (.yield c cause remaining clock) ∧
    yieldStops r.sched c cause remaining = some s₁ ∧
    schedWakeupExpiredTimeouts s₁ clock = some s₂ ∧
    s₁.tcb t = some b ∧ b.state = .stopped ∧ s₂.tcb t = some b' ∧ b'.state = .ready

/- The deadline is not taken for NO_TIMEOUT, and in no run the thread of this call is made READY too
   early. -/
def TimedWait.Honest (w : TimedWait) : Prop :=
  w.Apart ∧ ∀ (Core : Type) [DecidableEq Core] (r : WaitRun Core) (t : TcbRef Core) (clock : Nat),
    (waitSystem Core).Reach r → r.asked t = some w → TimedOut r t clock →
      w.due ≤ clock ∧ ¬ w.Endless

/- No sum wraps, and Connect has nothing to convert. -/
def TimedWait.Exact (w : TimedWait) : Prop :=
  match w.call with
  | .condTimedWait => w.due < noTimeout
  | .connect => w.timeout.val = noTimeout ∨ w.timeout.val = 0 ∧ w.since.val < noTimeout

end System

section Waits
variable {Core : Type} [DecidableEq Core] {s s' : Sched Core} {r r' : WaitRun Core}
  {t : TcbRef Core} {b b' : TCB} {w : TimedWait}

/-- Expiry wakes only a thread whose deadline has come. -/
theorem expiry_woken {clock : Nat} : ∀ (turns : Nat) (s : Sched Core), Inv s →
    expiryLoop clock turns s = some s' → s.tcb t = some b → b.state = .stopped →
    s'.tcb t = some b' → b'.state = .ready →
    b.wakeupTime ≠ noTimeout ∧ b.wakeupTime ≤ clock := by
  have kept (block : s'.tcb t = some b) (stopped : b.state = .stopped)
      (block' : s'.tcb t = some b') (woken : b'.state = .ready) : False := by
    cases block.symm.trans block'
    cases stopped.symm.trans woken
  intro turns
  induction turns with
  | zero =>
    intro s _ run block stopped block' woken
    unfold expiryLoop at run
    split at run
    · cases run
      exact (kept block stopped block' woken).elim
    · cases run
  | succ turns ih =>
    intro s inv run block stopped block' woken
    cases entries : s.timeouts with
    | nil =>
      simp only [expiryLoop, entries, Option.some.injEq] at run
      cases run
      exact (kept block stopped block' woken).elim
    | cons u rest =>
      obtain ⟨v,found,asleep,armed⟩ := (inv.lists.memTimeouts u).mp (by simp [entries])
      simp only [expiryLoop, entries, found, Option.bind_eq_bind, Option.bind_some] at run
      split at run
      · cases run
        exact (kept block stopped block' woken).elim
      · rename_i due
        by_cases here : t = u
        · subst here
          cases found.symm.trans block
          exact ⟨armed,Nat.not_lt.mp due⟩
        · have normal := asleep_not_idle inv found asleep
          rw [make_ready_eq inv found normal (Or.inl asleep), Option.bind_some] at run
          have block₁ : (readied s u v).tcb t = some b := by simpa [readied, here] using block
          exact ih _ (readied_inv inv found normal (Or.inl asleep)) run block₁ stopped block' woken

/-- A finite wakeup_time is the deadline of the call that has put the thread to sleep. -/
structure WaitInv (r : WaitRun Core) : Prop where
  inv : Inv r.sched
  asked : ∀ addr b, r.sched.tcb (.thread addr) = some b → b.wakeupTime ≠ noTimeout →
    ∃ w, r.asked (.thread addr) = some w ∧ w.passed ≠ noTimeout ∧ b.wakeupTime = w.deadline

/-- A call that arms its thread, which was not armed before. -/
theorem timed_wait_armed (inv : Inv s) {c : Core} {addr : Nat}
    (stage : (s.cctx c).stage = .running)
    (current : (s.cctx c).currentThread = some (.thread addr)) (finite : w.passed ≠ noTimeout) :
    ∃ b out s', b.state = .stopped ∧ b.wakeupTime = w.deadline ∧
      out.Perm (.thread addr :: s.timeouts) ∧
      sleepReleasing s c .stopped w.since.val w.passed = some s' ∧ s'.timeouts = out ∧
      s'.tcb = Function.update s.tcb (.thread addr) (some b) ∧ (s'.cctx c).stage = .stopping := by
  obtain ⟨b,block,running,dirty,unarmed⟩ := running_unarmed inv stage current
  have stopped := stopped_at_inv inv stage current block running dirty
  have asleep : (stoppedAt s c (.thread addr) b).tcb (.thread addr) =
      some { b with state := .stopped } := by simp [stoppedAt, Sched.set, Sched.setCore]
  obtain ⟨out,_,perm,registered⟩ :=
    register_timeout_eq stopped asleep rfl unarmed w.since.val finite
  refine ⟨{ b with state := .stopped, wakeupTime := w.deadline },out,_,rfl,rfl,perm,
    (sleep_register current block _ _).trans registered,rfl,?_,?_⟩
  · simp [stoppedAt, Sched.set, Sched.setCore, TimedWait.deadline]
  · simp [stoppedAt, Sched.set, Sched.setCore]

theorem timed_wait_inv (inv : WaitInv r) {c : Core} {now : Nat}
    (enabled : Enabled r.sched (.sleep c .stopped 0 noTimeout)) (apart : w.Apart)
    (run : sleepReleasing r.sched c .stopped w.since.val w.passed = some s') :
    WaitInv
      { sched := s', asked := ask r (r.sched.cctx c).currentThread (some w), now := now } := by
  obtain ⟨stage,⟨addr,current⟩,_,_⟩ := enabled
  have inv' : Inv s' := by
    obtain ⟨s'',again,inv''⟩ := sleep_spec inv.inv stage current (Or.inl rfl) apart
    cases run.symm.trans again
    exact inv''
  refine ⟨inv',fun u v found armed => ?_⟩
  simp only [current, ask]
  by_cases finite : w.passed = noTimeout
  · have quiet : ¬ Arms (.sleep c .stopped w.since.val w.passed) := fun arms => arms.2 finite
    have keeps := section_keeps (a := .sleep c .stopped w.since.val w.passed) run quiet
    rcases keeps.times (.thread u) v found with reset | ⟨x,block,same⟩
    · exact absurd reset armed
    · by_cases here : (.thread u : TcbRef Core) = .thread addr
      · obtain ⟨b,block',_,_,unarmed⟩ := running_unarmed inv.inv stage current
        rw [here] at block
        cases block.symm.trans block'
        exact absurd (same.symm.trans unarmed) armed
      · rw [Function.update_of_ne here, ← same]
        exact inv.asked u x block (by rw [same]; exact armed)
  · obtain ⟨b,out,s'',_,deadline,_,again,_,tcb,_⟩ := timed_wait_armed inv.inv stage current finite
    cases run.symm.trans again
    rw [tcb] at found
    by_cases here : (.thread u : TcbRef Core) = .thread addr
    · rw [here, Function.update_self] at found
      rw [here]
      cases found
      exact ⟨w,Function.update_self ..,finite,deadline⟩
    · rw [Function.update_of_ne here] at found ⊢
      exact inv.asked u v found armed

theorem quiet_inv (inv : WaitInv r) {a : Action Core} {now : Nat} (enabled : Enabled r.sched a)
    (quiet : ¬ Arms a) (run : exec r.sched a = some s') :
    WaitInv { sched := s', asked := ask r (sleeper r.sched a) none, now := now } := by
  refine ⟨system_inductive.step r.sched a s' inv.inv ⟨enabled,run⟩,fun u v found armed => ?_⟩
  rcases (section_keeps run quiet).times (.thread u) v found with reset | ⟨x,block,same⟩
  · exact absurd reset armed
  · have before := inv.asked u x block (by rw [same]; exact armed)
    rw [same] at before
    -- the thread that goes to sleep was not armed
    have other : sleeper r.sched a ≠ some (.thread u) := by
      intro sleeps
      cases a with
      | sleep c state clock timeout =>
        obtain ⟨stage,⟨addr,current⟩,_⟩ := enabled
        have here : TcbRef.thread u = .thread addr := Option.some.inj (sleeps.symm.trans current)
        obtain ⟨b,block',_,_,unarmed⟩ := running_unarmed inv.inv stage current
        rw [here] at block
        cases block.symm.trans block'
        exact armed (same.symm.trans unarmed)
      | _ => cases sleeps
    cases who : sleeper r.sched a with
    | none => exact before
    | some u' =>
      have apart : .thread u ≠ u' := by
        rintro rfl
        exact other who
      simpa only [ask, Function.update_of_ne apart] using before

theorem wait_step {a : WaitAction Core} (inv : WaitInv r)
    (move : (waitSystem Core).Step r a r') : WaitInv r' := by
  obtain ⟨enabled,run⟩ := move
  cases a with
  | timedWait c w =>
    obtain ⟨s',ran,rfl⟩ := Option.map_eq_some_iff.mp run
    exact timed_wait_inv inv enabled.1 enabled.2.2 ran
  | sched a =>
    obtain ⟨s',ran,rfl⟩ := Option.map_eq_some_iff.mp run
    exact quiet_inv inv enabled.1 enabled.2.1 ran

theorem wait_reach (reach : (waitSystem Core).Reach r) : WaitInv r := by
  refine inductive_reach ⟨?_,fun r a r' inv move => wait_step inv move⟩ reach
  rintro r rfl
  exact ⟨initial_inv,fun addr b block => (by cases block)⟩

/-- A thread that times out has been asked to, and its deadline has come. -/
theorem timed_out_deadline (inv : WaitInv r) {clock : Nat} (asked : r.asked t = some w)
    (out : TimedOut r t clock) : w.passed ≠ noTimeout ∧ w.deadline ≤ clock := by
  obtain ⟨_,_,c,cause,remaining,s₁,s₂,b,b',enabled,run,expired,block,stopped,block',woken⟩ := out
  obtain ⟨s₁',run',inv₁,_⟩ := yield_stops_spec inv.inv enabled cause remaining
  cases run.symm.trans run'
  obtain ⟨armed,due⟩ := expiry_woken _ s₁ inv₁ expired block stopped block' woken
  rcases (yield_stops_keeps run).times t b block with reset | ⟨x,before,same⟩
  · exact absurd reset armed
  · obtain ⟨addr,rfl⟩ := normal_thread inv₁ block (asleep_not_idle inv₁ block stopped)
    obtain ⟨w',asked',finite,deadline⟩ := inv.asked addr x before (by rw [same]; exact armed)
    cases asked.symm.trans asked'
    exact ⟨finite,by rw [← deadline, same]; exact due⟩

end Waits

section Early
variable {w : TimedWait}

def oneThreadRun : List (WaitAction Unit) :=
  [.sched (.runScheduler ()),.sched (.spawn 7),.sched (.wakeup 7),.sched (.yield () .idle 0 0),
    .sched (.gain ())]

def oneThread : WaitRun Unit :=
  ((waitSystem Unit).play { sched := initializeScheduler Unit, asked := fun _ => none, now := 0 }
    oneThreadRun).get rfl

theorem one_thread_reach : (waitSystem Unit).Reach oneThread := play_reach rfl oneThreadRun rfl

/-- A thread that sleeps alone times out as soon as its deadline has come. -/
theorem alone_times_out (clock : Nat) (finite : w.passed ≠ noTimeout) (apart : w.deadline ≠ noTimeout)
    (after : w.since.val ≤ clock) (due : w.deadline ≤ clock) (range : clock < timerModulus) :
    ∃ r : WaitRun Unit, (waitSystem Unit).Reach r ∧ r.asked (.thread 7) = some w ∧
      TimedOut r (.thread 7) clock := by
  have enabled : Enabled oneThread.sched (.sleep () .stopped 0 noTimeout) := by decide
  have inv := wait_reach one_thread_reach
  obtain ⟨b,out,s',stopped,deadline,perm,run,timeouts,tcb,stage⟩ :=
    timed_wait_armed inv.inv (c := ()) rfl
      (show (oneThread.sched.cctx ()).currentThread = some (.thread 7) from rfl) finite
  have move : (waitSystem Unit).Step oneThread (.timedWait () w)
      { sched := s', asked := ask oneThread (some (.thread 7)) (some w), now := w.since.val } :=
    ⟨⟨enabled,Nat.zero_le _,Or.inr apart⟩,Option.map_eq_some_iff.mpr ⟨s',run,rfl⟩⟩
  have reach := one_thread_reach.step move
  have inv' := (wait_reach reach).inv
  have alone : s'.timeouts = [.thread 7] := by
    rw [timeouts]
    exact List.perm_singleton.mp perm
  have yields : Enabled s' (.yield () .user 0 clock) := Or.inr stage
  obtain ⟨s₁,stops,inv₁,same⟩ := yield_stops_spec inv' yields .user 0
  rw [alone] at same
  obtain ⟨s₂,expired,expires⟩ := expiry_exact clock _ s₁ inv₁ (by
    rw [same]
    exact List.pairwise_singleton ..) (Nat.le_refl _)
  obtain ⟨b₁,block₁,asleep,armed⟩ := (inv₁.lists.memTimeouts (.thread 7)).mp (by simp [same])
  have time : b₁.wakeupTime = w.deadline := by
    rcases (yield_stops_keeps stops).times _ b₁ block₁ with reset | ⟨x,before,kept⟩
    · exact absurd reset armed
    · rw [tcb, Function.update_self, Option.some.injEq] at before
      rw [← kept, ← before, deadline]
  have member : .thread 7 ∈ s₁.expired clock := by
    refine List.mem_filter.mpr ⟨by simp [same],(due_iff block₁ clock).mpr ?_⟩
    rw [time]
    exact due
  obtain ⟨b₂,block₂,_,woken⟩ := expires.readied _ member
  refine ⟨_,reach,by simp [ask],after,range,(),.user,0,s₁,s₂,b₁,_,yields,stops,expired,
    block₁,asleep,woken,rfl⟩

/-- No multiple of 1000 is NO_TIMEOUT. -/
theorem passed_finite (call : w.call = .condTimedWait) : w.passed ≠ noTimeout := by
  simp only [TimedWait.passed, call, noTimeout, timerModulus]
  omega

theorem exact_condTimedWait (call : w.call = .condTimedWait) (exact : w.due < noTimeout) :
    w.deadline = w.due := by
  simp only [TimedWait.deadline, TimedWait.passed, TimedWait.due, call, noTimeout,
    timerModulus] at exact ⊢
  omega

/-- Where a call is not exact, its deadline is no time of NO_TIMEOUT or comes too early. -/
theorem inexact_early (apart : w.Apart) (inexact : ¬ w.Exact) : w.passed ≠ noTimeout ∧
    w.deadline < w.due ∧ w.since.val < w.due := by
  have range := w.timeout.isLt
  have range' := w.since.isLt
  have finite : w.passed ≠ noTimeout := by
    cases call : w.call with
    | condTimedWait => exact passed_finite call
    | connect =>
      intro forever
      simp only [TimedWait.passed, call] at forever
      simp only [TimedWait.Exact, call] at inexact
      exact inexact (Or.inl forever)
  have apart' := apart.resolve_left finite
  refine ⟨finite,?_⟩
  cases call : w.call with
  | condTimedWait =>
    simp only [TimedWait.Exact, call] at inexact
    simp only [TimedWait.deadline, TimedWait.passed, TimedWait.due, call, noTimeout,
      timerModulus] at *
    omega
  | connect =>
    simp only [TimedWait.Exact, call] at inexact
    simp only [TimedWait.deadline, TimedWait.passed, TimedWait.due, call, noTimeout,
      timerModulus] at *
    omega

/-- A wait is honest exactly if Cond_TimedWait does not overflow, or Connect has no time to wait
    or none to end. -/
theorem timed_wait_honest_iff (w : TimedWait) : w.Honest ↔ w.Exact := by
  constructor
  · rintro ⟨apart,never⟩
    by_contra inexact
    obtain ⟨finite,early,now⟩ := inexact_early apart inexact
    -- at the deadline, or at once if the sum has wrapped
    have deadline : w.deadline < timerModulus := Nat.mod_lt _ (by decide)
    obtain ⟨r,reach,asked,out⟩ := alone_times_out (max w.since.val w.deadline) finite
      (apart.resolve_left finite) (Nat.le_max_left ..) (Nat.le_max_right ..)
      (max_lt w.since.isLt deadline)
    have late := (never Unit r (.thread 7) _ reach asked out).1
    exact absurd late (Nat.not_le.mpr (max_lt now early))
  · intro exact
    cases call : w.call with
    | condTimedWait =>
      simp only [TimedWait.Exact, call] at exact
      have same := exact_condTimedWait call exact
      refine ⟨Or.inr (by rw [same]; exact Nat.ne_of_lt exact),
        fun Core _ r t clock reach asked out => ?_⟩
      obtain ⟨_,due⟩ := timed_out_deadline (wait_reach reach) asked out
      exact ⟨same ▸ due,fun endless => by simp [TimedWait.Endless, call] at endless⟩
    | connect =>
      simp only [TimedWait.Exact, call] at exact
      rcases exact with forever | ⟨none,range⟩
      · have passed : w.passed = noTimeout := by simpa only [TimedWait.passed, call] using forever
        refine ⟨Or.inl passed,fun Core _ r t clock reach asked out => ?_⟩
        exact absurd passed (timed_out_deadline (wait_reach reach) asked out).1
      · have same : w.deadline = w.due := by
          simp only [TimedWait.deadline, TimedWait.passed, TimedWait.due, call, none, noTimeout,
            timerModulus] at *
          omega
        have now : w.due = w.since.val := by simp [TimedWait.due, none]
        refine ⟨Or.inr (by rw [same, now]; exact Nat.ne_of_lt range),
          fun Core _ r t clock reach asked out => ?_⟩
        obtain ⟨_,due⟩ := timed_out_deadline (wait_reach reach) asked out
        exact ⟨same ▸ due,fun endless => by simp [TimedWait.Endless, none] at endless⟩

def connectSecond : TimedWait :=
  { call := .connect, timeout := ⟨1000,by decide⟩, since := ⟨0,by decide⟩ }

/-- It gives up after 1000 microseconds. -/
theorem connect_gives_up_early : ¬ connectSecond.Honest := by
  intro honest
  obtain ⟨r,reach,asked,out⟩ := alone_times_out (w := connectSecond) 1000 (by decide)
    (by decide) (by decide) (by decide) (by decide)
  have late := (honest.2 Unit r (.thread 7) 1000 reach asked out).1
  exact absurd late (by decide)

end Early
end KernelSched
