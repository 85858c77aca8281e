import TinyOS.SchedGuarantees

/- TIMEOUT_LIST along the runs of the scheduler: it is in the order of the deadlines, equal ones in
   the order of their registration, and expiry takes off its front. -/
namespace KernelSched
open Transition
variable {Core : Type} {s s' s'' : Sched Core} {t : TcbRef Core} {b : TCB}

/-- Nothing is linked into TIMEOUT_LIST, and no wakeup_time changes but to NO_TIMEOUT. -/
structure Keeps (s s' : Sched Core) : Prop where
  timeouts : s'.timeouts.Sublist s.timeouts
  times : ∀ t b', s'.tcb t = some b' → b'.wakeupTime = noTimeout ∨
    ∃ b, s.tcb t = some b ∧ b.wakeupTime = b'.wakeupTime

theorem keeps_same (tcb : s'.tcb = s.tcb) (timeouts : s'.timeouts = s.timeouts) : Keeps s s' :=
  ⟨timeouts ▸ List.Sublist.refl _,fun _ b' block => Or.inr ⟨b',tcb ▸ block,rfl⟩⟩

theorem keeps_refl (s : Sched Core) : Keeps s s := keeps_same rfl rfl

theorem keeps_trans (first : Keeps s s') (second : Keeps s' s'') : Keeps s s'' := by
  refine ⟨second.timeouts.trans first.timeouts,fun t b'' block => ?_⟩
  rcases second.times t b'' block with reset | ⟨b',block',same⟩
  · exact Or.inl reset
  · rcases first.times t b' block' with reset | ⟨b,before,same'⟩
    · exact Or.inl (same ▸ reset)
    · exact Or.inr ⟨b,before,same'.trans same⟩

section Operations
variable [DecidableEq Core]

theorem keeps_set (b' : TCB) (block : s.tcb t = some b)
    (time : b'.wakeupTime = noTimeout ∨ b'.wakeupTime = b.wakeupTime) : Keeps s (s.set t b') := by
  refine ⟨List.Sublist.refl _,fun u v found => ?_⟩
  simp only [Sched.set, Function.update_apply] at found
  split at found
  · rename_i here
    cases found
    exact time.imp_right fun same => ⟨b,here ▸ block,same.symm⟩
  · exact Or.inr ⟨v,found,rfl⟩

theorem keeps_set_core (s : Sched Core) (c : Core) (b : CCB Core) : Keeps s (s.setCore c b) :=
  keeps_same rfl rfl

theorem push_back_keeps {k : Int} (run : s.pushBack k t = some s') : Keeps s s' := by
  unfold Sched.pushBack at run
  split at run
  · cases run
    exact keeps_same rfl rfl
  · cases run

theorem queue_add_keeps (run : schedQueueAdd s t = some s') : Keeps s s' := by
  simp only [schedQueueAdd, Option.bind_eq_bind, Option.bind_eq_some_iff] at run
  obtain ⟨b,_,run⟩ := run
  exact push_back_keeps run

theorem make_ready_keeps (run : schedMakeReady s t = some s') : Keeps s s' := by
  simp only [schedMakeReady, Option.bind_eq_bind, Option.bind_eq_some_iff] at run
  obtain ⟨b,block,run⟩ := run
  have add {s₁ : Sched Core} (kept : Keeps s s₁)
      (run : (if b.phase = .clean then schedQueueAdd s₁ t else some s₁) = some s') :
      Keeps s s' := by
    split at run
    · exact keeps_trans kept (queue_add_keeps run)
    · cases run
      exact kept
  have unlinked : Keeps s (s.unlink t) :=
    ⟨List.erase_sublist,fun _ b' found => Or.inr ⟨b',found,rfl⟩⟩
  split at run
  · split at run
    · split at run
      · exact add (keeps_trans unlinked (keeps_set (s := s.unlink t) _ block (Or.inl rfl))) run
      · cases run
    · exact add (keeps_set { b with state := .ready } block (Or.inr rfl)) run
  · cases run

theorem expiry_keeps {clock : Nat} : ∀ (turns : Nat) (s : Sched Core),
    expiryLoop clock turns s = some s' → Keeps s s' := by
  intro turns
  induction turns with
  | zero =>
    intro s run
    unfold expiryLoop at run
    split at run
    · cases run
      exact keeps_refl _
    · cases run
  | succ turns ih =>
    intro s run
    unfold expiryLoop at run
    split at run
    · cases run
      exact keeps_refl _
    · simp only [Option.bind_eq_bind, Option.bind_eq_some_iff] at run
      obtain ⟨b,_,run⟩ := run
      split at run
      · cases run
        exact keeps_refl _
      · simp only [Option.bind_eq_some_iff] at run
        obtain ⟨s₁,ready,run⟩ := run
        exact keeps_trans (make_ready_keeps ready) (ih s₁ run)

theorem aging_keeps : ∀ (count : Nat) (s : Sched Core), agingLoop count s = some s' →
    Keeps s s' := by
  intro count
  induction count with
  | zero =>
    intro s run
    cases run
    exact keeps_refl _
  | succ count ih =>
    intro s run
    unfold agingLoop at run
    split at run
    · exact ih s run
    · rename_i t rest _
      simp only [Option.bind_eq_bind, Option.bind_eq_some_iff] at run
      obtain ⟨b,block,s₁,pushed,run⟩ := run
      have popped : Keeps s { s with queue := Function.update s.queue count rest } :=
        keeps_same rfl rfl
      have promoted := keeps_trans popped
        (keeps_set { b with priority := b.priority + 1 } block (Or.inr rfl))
      exact keeps_trans promoted (keeps_trans (push_back_keeps pushed) (ih s₁ run))

theorem count_yield_keeps (run : countYield s = some s') : Keeps s s' := by
  unfold countYield at run
  have counted : Keeps s { s with yieldCounter := s.yieldCounter + 1 } := keeps_same rfl rfl
  simp only at run
  split at run
  · obtain ⟨s₁,aged,rfl⟩ := Option.map_eq_some_iff.mp run
    exact keeps_trans counted (keeps_trans (aging_keeps _ _ aged) (keeps_same rfl rfl))
  · cases run
    exact counted

theorem stop_current_keeps {c : Core} {cause : SchedCause} {remaining : Nat}
    (run : stopCurrent s c t cause remaining = some s') : Keeps s s' := by
  simp only [stopCurrent, Option.bind_eq_bind, Option.bind_eq_some_iff, Option.some.injEq] at run
  obtain ⟨b,block,rfl⟩ := run
  have touched := keeps_set
    { b with
      state := if b.state = .running then .ready else b.state
      rts := remaining, lastCause := b.currCause, currCause := cause } block (Or.inr rfl)
  exact keeps_trans touched (keeps_same rfl rfl)

omit [DecidableEq Core] in
theorem pop_highest_keeps (s : Sched Core) : ∀ counter, Keeps s (popHighest s counter).2 := by
  intro counter
  induction counter with
  | zero => exact keeps_refl _
  | succ counter ih =>
    unfold popHighest
    split
    · exact ih
    · exact keeps_same rfl rfl

theorem queue_select_keeps {c : Core} {next : TcbRef Core}
    (run : schedQueueSelect s c t = some (next,s')) : Keeps s s' := by
  simp only [schedQueueSelect, Option.bind_eq_bind, Option.bind_eq_some_iff, Option.some.injEq,
    Prod.mk.injEq] at run
  obtain ⟨b,_,n,block,_,rfl⟩ := run
  exact keeps_trans (pop_highest_keeps s _) (keeps_set _ block (Or.inr rfl))

/- yield up to its call of sched_wakeup_expired_timeouts, and from there on. -/
def yieldStops (s : Sched Core) (c : Core) (cause : SchedCause) (remaining : Nat) :
    Option (Sched Core) := do
  let current ← (s.cctx c).currentThread
  let s ← countYield s
  stopCurrent s c current cause remaining

def yieldSwitches (s : Sched Core) (c : Core) (current : TcbRef Core) (cause : SchedCause) :
    Option (Sched Core) := do
  let (next, s) ← schedQueueSelect s c current
  let b ← s.tcb current
  some (switchTo (s.set current (adjustPriority cause b)) c current next)

theorem yield_eq {c : Core} (current : (s.cctx c).currentThread = some t) (cause : SchedCause)
    (remaining clock : Nat) : yield s c cause remaining clock =
      ((yieldStops s c cause remaining).bind fun s => schedWakeupExpiredTimeouts s clock).bind
        fun s => yieldSwitches s c t cause := by
  simp only [yield, yieldStops, yieldSwitches, current, Option.bind_eq_bind, Option.bind_some,
    Option.bind_assoc]

theorem yield_stops_keeps {c : Core} {cause : SchedCause} {remaining : Nat}
    (run : yieldStops s c cause remaining = some s') : Keeps s s' := by
  simp only [yieldStops, Option.bind_eq_bind, Option.bind_eq_some_iff] at run
  obtain ⟨current,_,s₁,counted,stopped⟩ := run
  exact keeps_trans (count_yield_keeps counted) (stop_current_keeps stopped)

theorem yield_switches_keeps {c : Core} {cause : SchedCause}
    (run : yieldSwitches s c t cause = some s') : Keeps s s' := by
  simp only [yieldSwitches, Option.bind_eq_bind, Option.bind_eq_some_iff, Option.some.injEq] at run
  obtain ⟨⟨next,s₁⟩,selected,b,block,rfl⟩ := run
  have adjusted := keeps_set (adjustPriority cause b) block (Or.inr (adjust_kept cause b).2.2.2)
  exact keeps_trans (queue_select_keeps selected) (keeps_trans adjusted (keeps_same rfl rfl))

theorem yield_keeps {c : Core} {cause : SchedCause} {remaining clock : Nat}
    (run : yield s c cause remaining clock = some s') : Keeps s s' := by
  obtain ⟨t,current⟩ : ∃ t, (s.cctx c).currentThread = some t := by
    cases current : (s.cctx c).currentThread with
    | none => simp [yield, current] at run
    | some t => exact ⟨t,rfl⟩
  rw [yield_eq current] at run
  simp only [Option.bind_eq_some_iff] at run
  obtain ⟨s₂,⟨s₁,stopped,expired⟩,switched⟩ := run
  exact keeps_trans (yield_stops_keeps stopped)
    (keeps_trans (expiry_keeps _ s₁ expired) (yield_switches_keeps switched))

theorem gain_keeps {c : Core} (run : gain s c = some s') : Keeps s s' := by
  simp only [gain, Option.bind_eq_bind, Option.bind_eq_some_iff] at run
  obtain ⟨current,_,b,block,prev,_,run⟩ := run
  have resumed := keeps_set { b with state := .running, phase := .dirty, rts := b.its } block
    (Or.inr rfl)
  split at run
  · cases run
    exact keeps_trans resumed (keeps_same rfl rfl)
  · simp only [Option.bind_eq_some_iff] at run
    obtain ⟨p,was,run⟩ := run
    have left := keeps_trans (keeps_trans resumed (keeps_set_core _ c _))
      (keeps_set { p with phase := .clean } was (Or.inr rfl))
    split at run
    · split at run
      · exact keeps_trans left (queue_add_keeps run)
      · cases run
        exact left
    · cases run
      refine keeps_trans left ⟨List.Sublist.refl _,fun t v found => ?_⟩
      simp only [releaseTCB, Function.update_apply] at found
      split at found
      · cases found
      · exact Or.inr ⟨v,found,rfl⟩
    · cases run
      exact left
    · cases run

theorem wakeup_keeps {woken : Bool} (run : wakeup s t = some (s',woken)) : Keeps s s' := by
  simp only [wakeup, Option.bind_eq_bind, Option.bind_eq_some_iff] at run
  obtain ⟨b,_,run⟩ := run
  split at run
  · obtain ⟨s₁,ready,same⟩ := Option.map_eq_some_iff.mp run
    cases same
    exact make_ready_keeps ready
  · cases run
    exact keeps_refl _

def Arms : Action Core → Prop
  | .sleep _ state _ timeout => state = .stopped ∧ timeout ≠ noTimeout
  | _ => False

instance (a : Action Core) : Decidable (Arms a) :=
  match a with
  | .sleep _ state _ timeout => inferInstanceAs (Decidable (state = .stopped ∧ timeout ≠ noTimeout))
  | .runScheduler _ | .spawn _ | .wakeup _ | .yield .. | .gain _ => instDecidableFalse

theorem section_keeps {a : Action Core} (run : exec s a = some s') (quiet : ¬ Arms a) :
    Keeps s s' := by
  cases a with
  | runScheduler c =>
    simp only [exec, runScheduler, Option.bind_eq_bind, Option.bind_eq_some_iff,
      Option.some.injEq] at run
    obtain ⟨b,block,rfl⟩ := run
    have idle := keeps_set
      { b with
        type := .idle, state := .running, phase := .dirty, wakeupTime := noTimeout
        its := quantum, rts := quantum, currCause := .idle, lastCause := .idle } block (Or.inl rfl)
    exact keeps_trans idle (keeps_same rfl rfl)
  | spawn addr =>
    cases run
    refine ⟨List.Sublist.refl _,fun t v found => ?_⟩
    simp only [spawnThread, Function.update_apply] at found
    split at found
    · cases found
      exact Or.inl rfl
    · exact Or.inr ⟨v,found,rfl⟩
  | wakeup addr =>
    obtain ⟨⟨s₁,woken⟩,woke,rfl⟩ := Option.map_eq_some_iff.mp run
    exact wakeup_keeps woke
  | sleep c state clock timeout =>
    simp only [exec, sleepReleasing, Option.bind_eq_bind] at run
    split at run
    · rename_i final
      simp only [Option.bind_eq_some_iff] at run
      obtain ⟨t,_,b,block,run⟩ := run
      have stopped := keeps_trans (keeps_set { b with state := state } block (Or.inr rfl))
        (keeps_set_core _ c
          { (s.set t { b with state := state }).cctx c with stage := .stopping })
      split at run
      · rename_i apart
        have forever : timeout = noTimeout := by
          by_contra finite
          exact quiet ⟨final.resolve_right apart,finite⟩
        rw [schedRegisterTimeout, if_pos forever] at run
        cases run
        exact stopped
      · cases run
        exact stopped
    · cases run
  | yield c cause remaining clock => exact yield_keeps run
  | gain c => exact gain_keeps run

end Operations

def Sooner (s : Sched Core) (t u : TcbRef Core) : Prop :=
  ∀ b v, s.tcb t = some b → s.tcb u = some v → b.wakeupTime ≤ v.wakeupTime

/-- The walk stops at the first later deadline, so t comes after the equal ones. -/
theorem insert_ordered {deadline : Nat} {R : TcbRef Core → TcbRef Core → Prop} :
    ∀ (entries : List (TcbRef Core)) {out : List (TcbRef Core)},
      (∀ u ∈ entries, ∀ v, s.tcb u = some v →
        (deadline < v.wakeupTime → R t u) ∧ (v.wakeupTime ≤ deadline → R u t)) →
      (∀ u ∈ entries, ∃ v, s.tcb u = some v) →
      entries.Pairwise R → entries.Pairwise (Sooner s) →
      insertTimeout s t deadline entries = some out → out.Pairwise R := by
  intro entries
  induction entries with
  | nil =>
    intro out _ _ _ _ run
    cases run
    exact List.pairwise_singleton ..
  | cons n rest ih =>
    intro out around allocated ordered sorted run
    obtain ⟨v,block⟩ := allocated n List.mem_cons_self
    obtain ⟨first,ordered'⟩ := List.pairwise_cons.mp ordered
    obtain ⟨soonest,sorted'⟩ := List.pairwise_cons.mp sorted
    simp only [insertTimeout, block, Option.bind_eq_bind, Option.bind_some] at run
    split at run
    · rename_i early
      cases run
      refine List.pairwise_cons.mpr ⟨fun u member => ?_,ordered⟩
      obtain ⟨w,found⟩ := allocated u member
      refine (around u member w found).1 ?_
      rcases List.mem_cons.mp member with rfl | later
      · cases block.symm.trans found
        exact early
      · exact Nat.lt_of_lt_of_le early (soonest u later v w block found)
    · rename_i late
      obtain ⟨out',run',rfl⟩ := Option.map_eq_some_iff.mp run
      have allocated' (u : TcbRef Core) (member : u ∈ rest) := allocated u (.tail _ member)
      have perm : out'.Perm (t :: rest) := by
        obtain ⟨out'',again,perm⟩ := @insert_timeout_spec _ s t deadline rest allocated'
        cases run'.symm.trans again
        exact perm
      refine List.pairwise_cons.mpr ⟨fun u member => ?_,
        ih (fun u member => around u (.tail _ member)) allocated' ordered' sorted' run'⟩
      rcases List.mem_cons.mp (perm.mem_iff.mp member) with rfl | old
      · exact (around n List.mem_cons_self v block).2 (Nat.not_lt.mp late)
      · exact first u old

section Expiry
variable [DecidableEq Core]

def Sched.due (s : Sched Core) (clock : Nat) (t : TcbRef Core) : Bool :=
  match s.tcb t with
  | some b => decide (b.wakeupTime ≤ clock)
  | none => false

def Sched.expired (s : Sched Core) (clock : Nat) : List (TcbRef Core) :=
  s.timeouts.filter (s.due clock)

def Sched.cleanAt (s : Sched Core) (k : Int) (t : TcbRef Core) : Bool :=
  match s.tcb t with
  | some b => decide (b.phase = .clean ∧ b.priority = k)
  | none => false

/-- The expired threads are made ready in the order of the list, and nothing else changes. -/
structure Expires (s : Sched Core) (clock : Nat) (s' : Sched Core) : Prop where
  turns : (s.expired clock).foldlM schedMakeReady s = some s'
  timeouts : s'.timeouts = s.timeouts.filter fun t => !s.due clock t
  readied : ∀ t ∈ s.expired clock, ∃ b, s.tcb t = some b ∧ b.state = .stopped ∧
    s'.tcb t = some { b with state := .ready, wakeupTime := noTimeout }
  others : ∀ t, t ∉ s.expired clock → s'.tcb t = s.tcb t
  queues : ∀ k, s'.queue k = s.queue k ++ (s.expired clock).filter (s.cleanAt k)
  cctx : s'.cctx = s.cctx
  counts : s'.yieldCounter = s.yieldCounter ∧ s'.activeThreads = s.activeThreads

omit [DecidableEq Core] in
theorem due_iff (block : s.tcb t = some b) (clock : Nat) :
    s.due clock t = true ↔ b.wakeupTime ≤ clock := by
  simp [Sched.due, block]

theorem expires_none (clock : Nat) (early : ∀ t ∈ s.timeouts, s.due clock t = false) :
    Expires s clock s := by
  have none : s.expired clock = [] := List.filter_eq_nil_iff.mpr fun t member => by
    simp [early t member]
  refine ⟨by rw [none]; rfl,?_,fun t member => ?_,fun _ _ => rfl,fun k => ?_,rfl,rfl,rfl⟩
  · exact (List.filter_eq_self.mpr fun t member => by simp [early t member]).symm
  · rw [none] at member
    cases member
  · rw [none, List.filter_nil, List.append_nil]

/-- The rest of the list stays as it is when its head is made ready. -/
theorem readied_rest (inv : Inv s) {rest : List (TcbRef Core)} (entries : s.timeouts = t :: rest) :
    t ∉ rest ∧ (readied s t b).timeouts = rest ∧
      ∀ u ∈ rest, (readied s t b).tcb u = s.tcb u := by
  have nodup := inv.lists.timeoutsNodup
  rw [entries] at nodup
  obtain ⟨absent,_⟩ := List.nodup_cons.mp nodup
  refine ⟨absent,by simp [readied, entries],fun u member => ?_⟩
  have other : u ≠ t := fun same => absent (same ▸ member)
  simp [readied, other]

/-- One turn of the loop takes the head of the list. -/
theorem expires_cons (inv : Inv s) {clock : Nat} {rest : List (TcbRef Core)}
    (entries : s.timeouts = t :: rest) (block : s.tcb t = some b) (stopped : b.state = .stopped)
    (over' : b.wakeupTime ≤ clock) (later : Expires (readied s t b) clock s') :
    Expires s clock s' := by
  have normal := asleep_not_idle inv block stopped
  have ready := make_ready_eq inv block normal (Or.inl stopped)
  obtain ⟨absent,left,apart⟩ := readied_rest (b := b) inv entries
  have due (u : TcbRef Core) (member : u ∈ rest) : (readied s t b).due clock u = s.due clock u := by
    simp only [Sched.due, apart u member]
  have clean (k : Int) (u : TcbRef Core) (member : u ∈ (readied s t b).expired clock) :
      (readied s t b).cleanAt k u = s.cleanAt k u := by
    have inside : u ∈ rest := left ▸ (List.mem_filter.mp member).1
    simp only [Sched.cleanAt, apart u inside]
  have expired : s.expired clock = t :: (readied s t b).expired clock := by
    rw [Sched.expired, entries, List.filter_cons_of_pos ((due_iff block clock).mpr over'),
      Sched.expired, left, List.filter_congr fun u member => (due u member).symm]
  have fresh : t ∉ (readied s t b).expired clock :=
    fun member => absent (left ▸ (List.mem_filter.mp member).1)
  refine ⟨?_,?_,fun u member => ?_,fun u out => ?_,fun k => ?_,later.cctx,later.counts⟩
  · rw [expired, List.foldlM_cons, ready]
    exact later.turns
  · rw [later.timeouts, left, entries, List.filter_cons_of_neg (by
      rw [(due_iff block clock).mpr over']
      decide)]
    exact List.filter_congr fun u member => by rw [due u member]
  · rw [expired] at member
    rcases List.mem_cons.mp member with rfl | member
    · refine ⟨b,block,stopped,?_⟩
      rw [later.others _ fresh]
      simp [readied]
    · obtain ⟨v,found,asleep,woken⟩ := later.readied u member
      have inside : u ∈ rest := left ▸ (List.mem_filter.mp member).1
      exact ⟨v,(apart u inside).symm.trans found,asleep,woken⟩
  · rw [expired, List.mem_cons, not_or] at out
    rw [later.others u out.2]
    simp [readied, out.1]
  · rw [later.queues k, expired, List.filter_congr (clean k)]
    by_cases here : b.phase = .clean ∧ b.priority = k
    · have mine : s.cleanAt k t = true := by simp [Sched.cleanAt, block, here]
      obtain ⟨phase,rfl⟩ := here
      simp [readied, phase, List.filter_cons_of_pos mine]
    · have mine : ¬ s.cleanAt k t = true := by simp [Sched.cleanAt, block, here]
      rw [List.filter_cons_of_neg mine]
      simp only [readied]
      split
      · rename_i phase
        rw [Function.update_of_ne (fun same => here ⟨phase,same.symm⟩)]
      · rfl

/-- The loop ends, as each turn shortens the list; on a sorted list it stops where nothing that
    follows is due. -/
theorem expiry_exact (clock : Nat) : ∀ (turns : Nat) (s : Sched Core), Inv s →
    s.timeouts.Pairwise (Sooner s) → s.timeouts.length ≤ turns →
    ∃ s', expiryLoop clock turns s = some s' ∧ Expires s clock s' := by
  intro turns
  induction turns with
  | zero =>
    intro s inv _ short
    have empty : s.timeouts = [] := List.length_eq_zero_iff.mp (by omega)
    exact ⟨s,by simp [expiryLoop, empty],expires_none clock (by simp [empty])⟩
  | succ turns ih =>
    intro s inv sorted short
    cases entries : s.timeouts with
    | nil => exact ⟨s,by simp [expiryLoop, entries],expires_none clock (by simp [entries])⟩
    | cons t rest =>
      obtain ⟨b,block,stopped,armed⟩ := (inv.lists.memTimeouts t).mp (by simp [entries])
      rw [entries] at sorted short
      obtain ⟨soonest,sorted'⟩ := List.pairwise_cons.mp sorted
      by_cases late : clock < b.wakeupTime
      · refine ⟨s,by simp [expiryLoop, entries, block, late],expires_none clock fun u member => ?_⟩
        obtain ⟨v,found,_⟩ := (inv.lists.memTimeouts u).mp member
        have after : b.wakeupTime ≤ v.wakeupTime := by
          rw [entries] at member
          rcases List.mem_cons.mp member with rfl | member
          · cases block.symm.trans found
            exact le_refl _
          · exact soonest u member b v block found
        rw [Bool.eq_false_iff, ne_eq, due_iff found]
        omega
      · have normal := asleep_not_idle inv block stopped
        have ready := make_ready_eq inv block normal (Or.inl stopped)
        have inv' := readied_inv inv block normal (Or.inl stopped)
        obtain ⟨_,left,same⟩ := readied_rest (b := b) inv entries
        have sorted₁ : (readied s t b).timeouts.Pairwise (Sooner (readied s t b)) := by
          rw [left]
          refine sorted'.imp_of_mem fun {u w} one two sooner => ?_
          intro v x found found'
          exact sooner v x (same u one ▸ found) (same w two ▸ found')
        obtain ⟨s',run,later⟩ := ih (readied s t b) inv' sorted₁ (by
          rw [left]
          exact Nat.le_of_succ_le_succ short)
        refine ⟨s',?_,expires_cons inv entries block stopped (Nat.not_lt.mp late) later⟩
        simpa [expiryLoop, entries, block, late, ready] using run

end Expiry

section Runs
variable [DecidableEq Core]

/- `stamp` numbers the registrations of the threads. -/
structure TimeoutRun (Core : Type) where
  sched : Sched Core
  stamp : TcbRef Core → Nat
  count : Nat

def armedThread (s : Sched Core) : Action Core → Option (TcbRef Core)
  | .sleep c state _ timeout =>
    if state = .stopped ∧ timeout ≠ noTimeout then (s.cctx c).currentThread else none
  | _ => none

def TimeoutRun.become (r : TimeoutRun Core) (a : Action Core) (s : Sched Core) : TimeoutRun Core :=
  match armedThread r.sched a with
  | none => { r with sched := s }
  | some t => { sched := s, stamp := Function.update r.stamp t r.count, count := r.count + 1 }

def timeoutSystem (Core : Type) [DecidableEq Core] : Machine (TimeoutRun Core) (Action Core) where
  start r := r = { sched := initializeScheduler Core, stamp := fun _ => 0, count := 0 }
  enabled r a := Enabled r.sched a
  exec r a := (exec r.sched a).map (r.become a)

instance (r : TimeoutRun Core) (a : Action Core) : Decidable ((timeoutSystem Core).enabled r a) :=
  inferInstanceAs (Decidable (Enabled r.sched a))

/- An earlier deadline, or an equal one that has been registered before. -/
def TimeoutRun.Before (r : TimeoutRun Core) (t u : TcbRef Core) : Prop :=
  ∃ b v, r.sched.tcb t = some b ∧ r.sched.tcb u = some v ∧
    (b.wakeupTime < v.wakeupTime ∨ b.wakeupTime = v.wakeupTime ∧ r.stamp t < r.stamp u)

structure TimeoutInv (r : TimeoutRun Core) : Prop where
  inv : Inv r.sched
  ordered : r.sched.timeouts.Pairwise r.Before
  stamped : ∀ t ∈ r.sched.timeouts, r.stamp t < r.count

variable {r r' : TimeoutRun Core}

omit [DecidableEq Core] in
theorem before_sooner {t u : TcbRef Core} (before : r.Before t u) : Sooner r.sched t u := by
  obtain ⟨b,v,block,found,order⟩ := before
  intro b' v' block' found'
  cases block.symm.trans block'
  cases found.symm.trans found'
  omega

omit [DecidableEq Core] in
theorem ordered_sooner (inv : TimeoutInv r) : r.sched.timeouts.Pairwise (Sooner r.sched) :=
  inv.ordered.imp before_sooner

omit [DecidableEq Core] in
/-- Where nothing is registered the order remains. -/
theorem keeps_ordered (inv : TimeoutInv r) (inv' : Inv s') (keeps : Keeps r.sched s') :
    TimeoutInv { r with sched := s' } := by
  have time {t : TcbRef Core} (member : t ∈ s'.timeouts) : ∃ b b', r.sched.tcb t = some b ∧
      s'.tcb t = some b' ∧ b.wakeupTime = b'.wakeupTime := by
    obtain ⟨b',block',_,armed⟩ := (inv'.lists.memTimeouts t).mp member
    rcases keeps.times t b' block' with reset | ⟨b,block,same⟩
    · exact absurd reset armed
    · exact ⟨b,b',block,block',same⟩
  refine ⟨inv',?_,fun t member => inv.stamped t (keeps.timeouts.subset member)⟩
  refine (inv.ordered.sublist keeps.timeouts).imp_of_mem fun {t u} one two before => ?_
  obtain ⟨b,b',block,block',same⟩ := time one
  obtain ⟨v,v',found,found',same'⟩ := time two
  obtain ⟨x,y,is,is',order⟩ := before
  cases block.symm.trans is
  cases found.symm.trans is'
  exact ⟨b',v',block',found',by rw [← same, ← same']; exact order⟩

/-- A thread that goes to sleep is inserted after all that are not later. -/
theorem armed_ordered (inv : TimeoutInv r) {c : Core} {addr clock timeout : Nat}
    (stage : (r.sched.cctx c).stage = .running)
    (current : (r.sched.cctx c).currentThread = some (.thread addr))
    (finite : timeout ≠ noTimeout) (deadline : (clock + timeout) % timerModulus ≠ noTimeout)
    (run : sleepReleasing r.sched c .stopped clock timeout = some s') :
    TimeoutInv { sched := s', stamp := Function.update r.stamp (.thread addr) r.count
                 count := r.count + 1 } := by
  obtain ⟨b,block,running,dirty,unarmed⟩ := running_unarmed inv.inv stage current
  have stopped := stopped_at_inv inv.inv stage current block running dirty
  have asleep : (stoppedAt r.sched c (.thread addr) b).tcb (.thread addr) =
      some { b with state := .stopped } := by simp [stoppedAt, Sched.set, Sched.setCore]
  obtain ⟨out,inserted,perm,registered⟩ :=
    register_timeout_eq stopped asleep rfl unarmed clock finite
  have inv' := armed_inv stopped asleep rfl unarmed deadline perm
  rw [sleep_register current block, registered] at run
  cases run
  have absent : .thread addr ∉ r.sched.timeouts := by
    intro member
    obtain ⟨b',block',asleep',_⟩ := (inv.inv.lists.memTimeouts _).mp member
    cases block.symm.trans block'
    cases running.symm.trans asleep'
  have apart {u : TcbRef Core} (member : u ∈ r.sched.timeouts) : u ≠ .thread addr :=
    fun same => absent (same ▸ member)
  refine ⟨inv',?_,fun u member => ?_⟩
  · have others {u : TcbRef Core} (member : u ∈ r.sched.timeouts) :
        ((stoppedAt r.sched c (.thread addr) b).set (.thread addr)
          { b with state := .stopped, wakeupTime := (clock + timeout) % timerModulus }).tcb u =
            r.sched.tcb u := by
      simp [stoppedAt, Sched.set, Sched.setCore, apart member]
    refine insert_ordered r.sched.timeouts (fun u member v found => ?_)
      (fun u member => ?_) ?_ ?_ inserted
    · have self : ((stoppedAt r.sched c (.thread addr) b).set (.thread addr)
          { b with state := .stopped, wakeupTime := (clock + timeout) % timerModulus }).tcb
            (.thread addr) = some { b with
              state := .stopped, wakeupTime := (clock + timeout) % timerModulus } := by
        simp [Sched.set]
      have stamped := inv.stamped u member
      refine ⟨fun early => ⟨_,v,self,found,Or.inl early⟩,fun late => ⟨v,_,found,self,?_⟩⟩
      simp only [Function.update_self, Function.update_of_ne (apart member)]
      rcases Nat.lt_or_eq_of_le late with less | same
      · exact Or.inl less
      · exact Or.inr ⟨same,stamped⟩
    · obtain ⟨v,found,_⟩ := (inv.inv.lists.memTimeouts u).mp member
      exact ⟨v,(others member).trans found⟩
    · refine inv.ordered.imp_of_mem fun {t u} one two before => ?_
      obtain ⟨v,w,is,is',order⟩ := before
      refine ⟨v,w,(others one).trans is,(others two).trans is',?_⟩
      simpa only [Function.update_of_ne (apart one), Function.update_of_ne (apart two)] using order
    · refine (ordered_sooner inv).imp_of_mem fun {t u} one two sooner => ?_
      intro v w found found'
      exact sooner v w ((others one).symm.trans found) ((others two).symm.trans found')
  · rcases List.mem_cons.mp (perm.mem_iff.mp member) with rfl | old
    · simp
    · have stamped := inv.stamped u old
      simp only [Function.update_of_ne (apart old)]
      omega

theorem timeout_step {a : Action Core} (inv : TimeoutInv r)
    (move : (timeoutSystem Core).Step r a r') : TimeoutInv r' := by
  obtain ⟨enabled,run⟩ := move
  obtain ⟨s',ran,rfl⟩ := Option.map_eq_some_iff.mp run
  have inv' : Inv s' := system_inductive.step r.sched a s' inv.inv ⟨enabled,ran⟩
  by_cases arms : Arms a
  · cases a with
    | sleep c state clock timeout =>
      obtain ⟨rfl,finite⟩ := arms
      obtain ⟨stage,⟨addr,current⟩,_,bound⟩ := enabled
      have below := bound.resolve_left finite
      have deadline : (clock + timeout) % timerModulus ≠ noTimeout := by
        rw [deadline_exact below]
        exact Nat.ne_of_lt below
      have armed : armedThread r.sched (.sleep c .stopped clock timeout) = some (.thread addr) := by
        simp [armedThread, finite, current]
      simp only [TimeoutRun.become, armed]
      exact armed_ordered inv stage current finite deadline ran
    | _ => exact arms.elim
  · have quiet : armedThread r.sched a = none := by
      cases a with
      | sleep c state clock timeout => exact if_neg arms
      | _ => rfl
    simp only [TimeoutRun.become, quiet]
    exact keeps_ordered inv inv' (section_keeps ran arms)

theorem timeout_reach (reach : (timeoutSystem Core).Reach r) : TimeoutInv r := by
  refine inductive_reach ⟨?_,fun r a r' inv move => timeout_step inv move⟩ reach
  rintro r rfl
  exact ⟨initial_inv,List.Pairwise.nil,fun t member => (by cases member)⟩

theorem aging_timeouts : ∀ (count : Nat) (s : Sched Core),
    agingLoop count s = some s' → s'.timeouts = s.timeouts := by
  intro count
  induction count with
  | zero =>
    intro s run
    cases run
    rfl
  | succ count ih =>
    intro s run
    unfold agingLoop at run
    split at run
    · exact ih s run
    · simp only [Option.bind_eq_bind, Option.bind_eq_some_iff] at run
      obtain ⟨b,_,s₁,pushed,run⟩ := run
      unfold Sched.pushBack at pushed
      split at pushed
      · cases pushed
        have same := ih _ run
        exact same
      · cases pushed

theorem yield_stops_timeouts {c : Core} {cause : SchedCause} {remaining : Nat}
    (run : yieldStops s c cause remaining = some s') : s'.timeouts = s.timeouts := by
  simp only [yieldStops, stopCurrent, Option.bind_eq_bind, Option.bind_eq_some_iff,
    Option.some.injEq] at run
  obtain ⟨current,_,s₁,counted,b,_,rfl⟩ := run
  unfold countYield at counted
  simp only at counted
  split at counted
  · obtain ⟨s₂,aged,rfl⟩ := Option.map_eq_some_iff.mp counted
    have same := aging_timeouts _ _ aged
    exact same
  · cases counted
    rfl

/-- yield calls sched_wakeup_expired_timeouts on the list as it found it. -/
theorem yield_stops_spec (inv : Inv s) {c : Core}
    (stage : (s.cctx c).stage = .running ∨ (s.cctx c).stage = .stopping) (cause : SchedCause)
    (remaining : Nat) : ∃ s', yieldStops s c cause remaining = some s' ∧ Inv s' ∧
      s'.timeouts = s.timeouts := by
  obtain ⟨t,current⟩ : ∃ t, (s.cctx c).currentThread = some t := by
    have ok := inv.core c
    unfold CoreOk at ok
    rcases stage with stage | stage <;> simp only [stage] at ok <;> grind
  obtain ⟨s₁,counted,inv₁,cores⟩ := count_yield_spec inv
  obtain ⟨s₂,stopped,inv₂,_⟩ :=
    stop_current_spec inv₁ (cores ▸ stage) (cores ▸ current) cause remaining
  have run : yieldStops s c cause remaining = some s₂ := by
    simp [yieldStops, current, counted, stopped]
  exact ⟨s₂,run,inv₂,yield_stops_timeouts run⟩

/-- TIMEOUT_LIST is in the order of deadlines and registrations. Expiry, also where yield calls it,
    ends and makes exactly the due threads ready. -/
theorem timeout_list_exact (reach : (timeoutSystem Core).Reach r) :
    r.sched.timeouts.Pairwise r.Before ∧
    (∀ clock, ∃ s', schedWakeupExpiredTimeouts r.sched clock = some s' ∧
      Expires r.sched clock s') ∧
    ∀ c cause remaining clock, Enabled r.sched (.yield c cause remaining clock) →
      ∃ s₁ s₂, yieldStops r.sched c cause remaining = some s₁ ∧
        s₁.timeouts = r.sched.timeouts ∧ schedWakeupExpiredTimeouts s₁ clock = some s₂ ∧
        Expires s₁ clock s₂ := by
  have inv := timeout_reach reach
  refine ⟨inv.ordered,fun clock => ?_,fun c cause remaining clock enabled => ?_⟩
  · exact expiry_exact clock _ r.sched inv.inv (ordered_sooner inv) (Nat.le_refl _)
  · obtain ⟨s₁,run,inv₁,same⟩ := yield_stops_spec inv.inv enabled cause remaining
    have ordered := ordered_sooner (keeps_ordered inv inv₁ (yield_stops_keeps run))
    obtain ⟨s₂,expired,expires⟩ := expiry_exact clock _ s₁ inv₁ ordered (Nat.le_refl _)
    exact ⟨s₁,s₂,run,same,expired,expires⟩

end Runs

/- Two threads sleep with equal deadlines on two cores. -/
def twoSleepersRun : List (Action (Fin 2)) :=
  [.runScheduler 0,.runScheduler 1,.spawn 7,.wakeup 7,.spawn 8,.wakeup 8,.yield 0 .idle 0 1,
    .gain 0,.yield 1 .idle 0 1,.gain 1,.sleep 0 .stopped 2 10,.sleep 1 .stopped 4 8]

def twoSleepers : TimeoutRun (Fin 2) :=
  ((timeoutSystem (Fin 2)).play
    { sched := initializeScheduler (Fin 2), stamp := fun _ => 0, count := 0 } twoSleepersRun).get rfl

theorem timeout_list_exact_two_sleepers :
    twoSleepers.sched.timeouts = [.thread 7,.thread 8] ∧
    twoSleepers.sched.timeouts.Pairwise twoSleepers.Before ∧
    ∃ s', schedWakeupExpiredTimeouts twoSleepers.sched 12 = some s' ∧
      Expires twoSleepers.sched 12 s' := by
  have reach : (timeoutSystem (Fin 2)).Reach twoSleepers := play_reach rfl twoSleepersRun rfl
  obtain ⟨ordered,exact,_⟩ := timeout_list_exact reach
  exact ⟨rfl,ordered,exact 12⟩

end KernelSched
