import TinyOS.CondVar

/- What the flags of the waiters, the states of their threads and the progress of the owner of
   waitset_lock have to do with one another under any interleaving. -/
namespace KernelCC
open ResourceList Rings Transition Monitor
variable {Thread : Type}

/- It has waitset_lock. Each constructor is listed, here and below, so that every equation holds
   without side conditions. -/
def Pc.Owns : Pc Thread → Bool
  | .push | .unlockMutex | .sleep | .tidy | .unlock | .whileAny | .whileWaiter _ | .takeOut _ _
  | .setRemoved _ _ | .wakeup _ _ | .setSignalled _ _ | .signalUnlock _ => true
  | .outside | .waitLock | .asleep | .wakeLock | .lockMutex | .return' | .signalLock _ => false

/- Its waiter has been pushed, and it has not tidied up. -/
def Pc.Pushed : Pc Thread → Bool
  | .unlockMutex | .sleep | .asleep | .wakeLock | .tidy => true
  | .outside | .waitLock | .push | .unlock | .lockMutex | .return' | .signalLock _ | .whileAny
  | .whileWaiter _ | .takeOut _ _ | .setRemoved _ _ | .wakeup _ _ | .setSignalled _ _
  | .signalUnlock _ => false

/- It has released waitset_lock in sleep_releasing and not got it back. -/
def Pc.Away : Pc Thread → Bool
  | .asleep | .wakeLock => true
  | .outside | .waitLock | .push | .unlockMutex | .sleep | .tidy | .unlock | .lockMutex | .return'
  | .signalLock _ | .whileAny | .whileWaiter _ | .takeOut _ _ | .setRemoved _ _ | .wakeup _ _
  | .setSignalled _ _ | .signalUnlock _ => false

/- In a cv_wait, before its sleep. -/
def Pc.Early : Pc Thread → Bool
  | .waitLock | .push | .unlockMutex | .sleep => true
  | .outside | .asleep | .wakeLock | .tidy | .unlock | .lockMutex | .return'
  | .signalLock _ | .whileAny | .whileWaiter _ | .takeOut _ _ | .setRemoved _ _ | .wakeup _ _
  | .setSignalled _ _ | .signalUnlock _ => false

/- In a cv_wait, after its sleep. -/
def Pc.Late : Pc Thread → Bool
  | .wakeLock | .tidy | .unlock | .lockMutex | .return' => true
  | .outside | .waitLock | .push | .unlockMutex | .sleep | .asleep
  | .signalLock _ | .whileAny | .whileWaiter _ | .takeOut _ _ | .setRemoved _ _ | .wakeup _ _
  | .setSignalled _ _ | .signalUnlock _ => false

/- A waiter leaves the ring before removed is set, and its thread is READY before signalled is set
   (mem and told): in between, the owner of waitset_lock has it in hand. -/
structure Inv (s : CondVar Thread) : Prop where
  waitset : WaitsetOk s.nodes s.waitset s.queue
  lock : ∀ t, (s.pc t).Owns = true ↔ s.waitsetLock = some t
  mem : ∀ t, t ∈ s.queue ↔ (s.pc t).Pushed = true ∧ s.removed t = false ∧
    ∀ c all, s.pc c ≠ .setRemoved all t
  early : ∀ t, (s.pc t).Early = true →
    s.removed t = false ∧ s.signalled t = false ∧ s.stopped t = false ∧ s.cause t = none
  asleep : ∀ t, s.pc t = .asleep → (s.stopped t = true ↔ s.cause t = none)
  late : ∀ t, (s.pc t).Late = true → s.stopped t = false ∧ s.cause t ≠ none
  honest : ∀ t, (s.pc t).Waits = true → s.signalled t = true →
    s.removed t = true ∧ s.cause t = some .signal
  told : ∀ t, (s.pc t).Waits = true → s.cause t = some .signal → s.signalled t = true ∨
    ∃ c all, s.pc c = .setSignalled all t
  takes : ∀ c all w, s.pc c = .takeOut all w → s.waitset = some w
  removes : ∀ c all w, s.pc c = .setRemoved all w →
    (s.pc w).Away = true ∧ s.removed w = false ∧ s.signalled w = false
  wakes : ∀ c all w, s.pc c = .wakeup all w →
    (s.pc w).Away = true ∧ s.removed w = true ∧ s.signalled w = false ∧ s.cause w ≠ some .signal
  signals : ∀ c all w, s.pc c = .setSignalled all w →
    (s.pc w).Away = true ∧ s.removed w = true ∧ s.cause w = some .signal

@[grind →] theorem away_pushed {pc : Pc Thread} (away : pc.Away = true) :
    pc.Pushed = true ∧ pc.Owns = false ∧ pc.Early = false := by
  cases pc <;> simp_all [Pc.Away, Pc.Pushed, Pc.Owns, Pc.Early]

theorem pushed_away {pc : Pc Thread} (pushed : pc.Pushed = true) (owns : pc.Owns = false) :
    pc.Away = true := by
  cases pc <;> simp_all [Pc.Away, Pc.Pushed, Pc.Owns]

@[grind →] theorem pushed_waits {pc : Pc Thread} (pushed : pc.Pushed = true) : pc.Waits = true := by
  cases pc <;> simp_all [Pc.Pushed, Pc.Waits]

attribute [grind =] Pc.Owns Pc.Pushed Pc.Away Pc.Early Pc.Late Pc.Waits

variable {s s' : CondVar Thread} {t : Thread}

theorem lock_owned (inv : Inv s) : Owned (fun t => (s.pc t).Owns) s.waitsetLock := inv.lock

theorem owner_alone (inv : Inv s) (owns : (s.pc t).Owns = true) {c : Thread}
    (same : (s.pc c).Owns = true) : c = t := owned_alone (lock_owned inv) owns same

/-- It does not look at the history. -/
theorem history_inv (inv : Inv s) (entered marked : List Thread)
    (returned : List (Thread × Bool × Option Cause)) :
    Inv { s with entered := entered, marked := marked, returned := returned } := { inv with }

theorem touch_some {ts : List Thread} (waits : ∀ u ∈ ts, (s.pc u).Waits = true) :
    s.touch ts = some () := if_pos waits

theorem touch_away {w : Thread} (away : (s.pc w).Away = true) : s.touch [w] = some () :=
  touch_some (by simpa using pushed_waits (away_pushed away).1)

theorem queue_waits (inv : Inv s) {u : Thread} (member : u ∈ s.queue) : (s.pc u).Waits = true :=
  pushed_waits ((inv.mem u).mp member).1

theorem queue_unsignalled (inv : Inv s) {u : Thread} (member : u ∈ s.queue) :
    s.signalled u = false := by
  by_contra signalled
  have gone := (inv.honest u (queue_waits inv member) (by simpa using signalled)).1
  rw [((inv.mem u).mp member).2.1] at gone
  cases gone

theorem takes_head (inv : Inv s) {all : Bool} {w : Thread} (here : s.pc t = .takeOut all w) :
    s.queue.head? = some w := inv.waitset.head.symm.trans (inv.takes t all w here)

theorem initial_inv : Inv (initial : CondVar Thread) := by
  constructor <;> simp [initial, Pc.Owns, Pc.Pushed, Pc.Early, Pc.Late, Pc.Waits]
  exact initial_waitset

variable [DecidableEq Thread]

/- The places to which a thread goes with no other change than in who owns waitset_lock. -/
structure Moves (s : CondVar Thread) (t : Thread) (pc : Pc Thread) : Prop where
  pushed : s.removed t = false → pc.Pushed = (s.pc t).Pushed
  early : pc.Early = true → (s.pc t).Early = true
  asleep : pc ≠ .asleep
  late : pc.Late = true → (s.pc t).Late = true ∨ s.pc t = .asleep ∧ s.stopped t = false
  waits : pc.Waits = true → (s.pc t).Waits = true
  away : (s.pc t).Away = true → pc.Away = true ∨ s.waitsetLock = none
  idle : ∀ all w, s.pc t ≠ .setRemoved all w ∧ s.pc t ≠ .setSignalled all w
  takes : ∀ all w, pc = .takeOut all w → s.waitset = some w
  starts : ∀ all w, pc ≠ .setRemoved all w ∧ pc ≠ .wakeup all w ∧ pc ≠ .setSignalled all w

theorem move_inv (inv : Inv s) {pc : Pc Thread} {owner : Option Thread} (moves : Moves s t pc)
    (owns : Owned (fun u => (Function.update s.pc t pc u).Owns) owner) :
    Inv { s.goto t pc with waitsetLock := owner } := by
  obtain ⟨pushed,early,asleep,late,waits,away,idle,takes,starts⟩ := moves
  have kept {c w : Thread} (busy : (s.pc c).Owns = true) (still : (s.pc w).Away = true) :
      (Function.update s.pc t pc w).Away = true := by
    have := (inv.lock c).mp busy
    grind -ring -linarith
  constructor <;> simp only [CondVar.goto]
  · exact inv.waitset
  · exact owns
  · intro u
    have := inv.mem u
    simp only [Function.update_apply]
    grind -ring -linarith
  · intro u
    have := inv.early u
    simp only [Function.update_apply]
    grind -ring -linarith
  · intro u
    have := inv.asleep u
    simp only [Function.update_apply]
    grind -ring -linarith
  · intro u
    have := inv.late u
    have := inv.asleep u
    simp only [Function.update_apply]
    grind -ring -linarith
  · intro u
    have := inv.honest u
    simp only [Function.update_apply]
    grind -ring -linarith
  · intro u
    have := inv.told u
    simp only [Function.update_apply]
    grind -ring -linarith
  · intro c all w
    have := inv.takes c all w
    simp only [Function.update_apply]
    grind -ring -linarith
  · intro c all w
    have := inv.removes c all w
    have := @kept c w
    grind -ring -linarith
  · intro c all w
    have := inv.wakes c all w
    have := @kept c w
    grind -ring -linarith
  · intro c all w
    have := inv.signals c all w
    have := @kept c w
    grind -ring -linarith

theorem keep_inv (inv : Inv s) {pc : Pc Thread} (moves : Moves s t pc)
    (owns : pc.Owns = (s.pc t).Owns) : Inv (s.goto t pc) := by
  refine move_inv inv moves (owned_keep (lock_owned inv) fun u => ?_)
  by_cases same : u = t <;> simp [same, owns]

theorem acquire_inv (inv : Inv s) {pc : Pc Thread} (moves : Moves s t pc)
    (free : s.waitsetLock = none) (owns : pc.Owns = true) :
    Inv { s.goto t pc with waitsetLock := some t } :=
  move_inv inv moves (owned_acquire (free ▸ lock_owned inv) (by simpa using owns)
    fun u other => by simp [other])

theorem release_inv (inv : Inv s) {pc : Pc Thread} (moves : Moves s t pc)
    (owns : (s.pc t).Owns = true) (owns' : pc.Owns = false) :
    Inv { s.goto t pc with waitsetLock := none } :=
  move_inv inv moves (owned_release (lock_owned inv) owns (by simpa using owns')
    fun u other => by simp [other])

theorem begin_inv (inv : Inv s) (here : s.pc t = .outside) (timed : Bool) :
    Inv (beginWait s t timed) := by
  have apart : t ∉ s.queue := by
    have := inv.mem t
    grind -ring -linarith
  obtain ⟨waitset,lock,mem,early,asleep,late,honest,told,takes,removes,wakes,signals⟩ := inv
  constructor <;> simp only [beginWait, CondVar.goto, init_waitset waitset apart,
    Function.update_apply]
  case waitset => exact waitset
  all_goals grind -ring -linarith

theorem push_inv (inv : Inv s) (here : s.pc t = .push) {nodes : Heap Thread Unit}
    {waitset : Option Thread} (ok : WaitsetOk nodes waitset (s.queue ++ [t])) :
    Inv { s.goto t .unlockMutex with
      nodes := nodes, waitset := waitset, queue := s.queue ++ [t] } := by
  have alone {c : Thread} := owner_alone inv (by rw [here]; rfl : (s.pc t).Owns = true) (c := c)
  obtain ⟨_,lock,mem,early,asleep,late,honest,told,takes,removes,wakes,signals⟩ := inv
  constructor <;> simp only [CondVar.goto, Function.update_apply]
  case waitset => exact ok
  all_goals grind -ring -linarith

theorem sleep_inv (inv : Inv s) (here : s.pc t = .sleep) :
    Inv { s.goto t .asleep with
      stopped := Function.update s.stopped t true, waitsetLock := none } := by
  obtain ⟨waitset,lock,mem,early,asleep,late,honest,told,takes,removes,wakes,signals⟩ := inv
  constructor <;> simp only [CondVar.goto, Function.update_apply]
  case waitset => exact waitset
  all_goals grind -ring -linarith

theorem tidy_inv (inv : Inv s) (here : s.pc t = .tidy) (left : s.removed t = false)
    {nodes : Heap Thread Unit} {waitset : Option Thread}
    (ok : WaitsetOk nodes waitset (s.queue.erase t)) :
    Inv { s.goto t .unlock with
      nodes := nodes, waitset := waitset, queue := s.queue.erase t } := by
  have alone {c : Thread} := owner_alone inv (by rw [here]; rfl : (s.pc t).Owns = true) (c := c)
  have distinct := queue_nodup inv.waitset
  have gone {u : Thread} : u ∈ s.queue.erase t ↔ u ≠ t ∧ u ∈ s.queue := distinct.mem_erase_iff
  obtain ⟨_,lock,mem,early,asleep,late,honest,told,takes,removes,wakes,signals⟩ := inv
  constructor <;> simp only [CondVar.goto, Function.update_apply, gone]
  case waitset => exact ok
  all_goals grind -ring -linarith

theorem take_inv (inv : Inv s) {all : Bool} {w : Thread} (here : s.pc t = .takeOut all w)
    {nodes : Heap Thread Unit} {waitset : Option Thread}
    (ok : WaitsetOk nodes waitset (s.queue.erase w)) :
    Inv { s.goto t (.setRemoved all w) with
      nodes := nodes, waitset := waitset, queue := s.queue.erase w } := by
  have alone {c : Thread} := owner_alone inv (by rw [here]; rfl : (s.pc t).Owns = true) (c := c)
  have distinct := queue_nodup inv.waitset
  have gone {u : Thread} : u ∈ s.queue.erase w ↔ u ≠ w ∧ u ∈ s.queue := distinct.mem_erase_iff
  have first : w ∈ s.queue := List.mem_of_head? (takes_head inv here)
  have away : (s.pc w).Away = true ∧ s.removed w = false ∧ s.signalled w = false := by
    obtain ⟨pushed,left,_⟩ := (inv.mem w).mp first
    have other : (s.pc w).Owns = false := by
      by_contra owns
      have same := alone (by simpa using owns)
      rw [same, here] at pushed
      cases pushed
    exact ⟨pushed_away pushed other,left,queue_unsignalled inv first⟩
  obtain ⟨_,lock,mem,early,asleep,late,honest,told,takes,removes,wakes,signals⟩ := inv
  constructor <;> simp only [CondVar.goto, Function.update_apply, gone]
  case waitset => exact ok
  case mem =>
    intro u
    by_cases same : u = w
    · exact ⟨fun h => absurd same h.1,fun h => absurd (by rw [if_pos rfl, same]) (h.2.2 t all)⟩
    · have others : (∀ c all', s.pc c ≠ .setRemoved all' u) ↔
          ∀ c all', (if c = t then .setRemoved all w else s.pc c) ≠ .setRemoved all' u :=
        forall_congr' fun c => forall_congr' fun all' => by grind -ring -linarith
      rw [← others]
      grind -ring -linarith
  all_goals grind -ring -linarith

theorem removed_inv (inv : Inv s) {all : Bool} {w : Thread} (here : s.pc t = .setRemoved all w) :
    Inv { s.goto t (.wakeup all w) with removed := Function.update s.removed w true } := by
  have alone {c : Thread} := owner_alone inv (by rw [here]; rfl : (s.pc t).Owns = true) (c := c)
  obtain ⟨waitset,lock,mem,early,asleep,late,honest,told,takes,removes,wakes,signals⟩ := inv
  constructor <;> simp only [CondVar.goto, Function.update_apply]
  case waitset => exact waitset
  all_goals grind -ring -linarith

theorem woken_inv (inv : Inv s) {all : Bool} {w : Thread} (here : s.pc t = .wakeup all w)
    (stopped : s.stopped w = true) :
    Inv ((makeReady s w .signal).goto t (.setSignalled all w)) := by
  have alone {c : Thread} := owner_alone inv (by rw [here]; rfl : (s.pc t).Owns = true) (c := c)
  obtain ⟨waitset,lock,mem,early,asleep,late,honest,told,takes,removes,wakes,signals⟩ := inv
  constructor <;> simp only [makeReady, CondVar.goto, Function.update_apply]
  case waitset => exact waitset
  case told =>
    intro u waits cause
    by_cases same : u = w
    · exact .inr ⟨t,all,by rw [if_pos rfl, same]⟩
    · have := told u
      grind -ring -linarith
  all_goals grind -ring -linarith

theorem signalled_inv (inv : Inv s) {all : Bool} {w : Thread}
    (here : s.pc t = .setSignalled all w) (marked : List Thread) :
    Inv { s.goto t (if all then .whileAny else .signalUnlock all) with
      signalled := Function.update s.signalled w true, marked := marked } := by
  have alone {c : Thread} := owner_alone inv (by rw [here]; rfl : (s.pc t).Owns = true) (c := c)
  obtain ⟨waitset,lock,mem,early,asleep,late,honest,told,takes,removes,wakes,signals⟩ := inv
  constructor <;> simp only [CondVar.goto, Function.update_apply]
  case waitset => exact waitset
  all_goals grind -ring -linarith

theorem timeout_inv (inv : Inv s) (here : s.pc t = .asleep) (stopped : s.stopped t = true) :
    Inv (makeReady s t .timeout) := by
  obtain ⟨waitset,lock,mem,early,asleep,late,honest,told,takes,removes,wakes,signals⟩ := inv
  constructor <;> simp only [makeReady, Function.update_apply]
  case waitset => exact waitset
  all_goals grind -ring -linarith

theorem push_some (inv : Inv s) (here : s.pc t = .push) : ∃ nodes waitset,
    pushWaiter s t =
      some { s with nodes := nodes, waitset := waitset, queue := s.queue ++ [t] } ∧
    WaitsetOk nodes waitset (s.queue ++ [t]) := by
  have apart : t ∉ s.queue := by
    intro member
    have pushed := ((inv.mem t).mp member).1
    rw [here] at pushed
    cases pushed
  have ok := inv.waitset
  unfold pushWaiter
  split
  · rename_i wset at'
    rw [at'] at ok
    have first : wset ∈ s.queue := List.mem_of_head? ok.head.symm
    have last := (queue_neighbours ok first).2
    rw [touch_some (by simpa [here, Pc.Waits] using ⟨queue_waits inv first,queue_waits inv last⟩)]
    exact ⟨_,_,rfl,at' ▸ push_waitset ok apart⟩
  · rename_i at'
    rw [at'] at ok
    exact ⟨_,_,rfl,(first_waitset ok apart).2⟩

theorem remove_some (inv : Inv s) {w : Thread} (member : w ∈ s.queue) : ∃ nodes waitset,
    removeFromRing s w =
      some { s with nodes := nodes, waitset := waitset, queue := s.queue.erase w } ∧
    WaitsetOk nodes waitset (s.queue.erase w) := by
  obtain ⟨next,prev⟩ := queue_neighbours inv.waitset member
  unfold removeFromRing
  have waits := queue_waits inv member
  rw [touch_some (by simpa using ⟨waits,queue_waits inv next,queue_waits inv prev⟩)]
  exact ⟨_,_,rfl,remove_waitset inv.waitset member⟩

/- What a step of a thread does where the invariant holds. -/
inductive Did (s : CondVar Thread) (t : Thread) : CondVar Thread → Prop where
  | waitLock (here : s.pc t = .waitLock) (free : s.waitsetLock = none) :
      Did s t { s.goto t .push with waitsetLock := some t }
  | push (here : s.pc t = .push) (nodes : Heap Thread Unit) (waitset : Option Thread)
      (ok : WaitsetOk nodes waitset (s.queue ++ [t])) :
      Did s t { s.goto t .unlockMutex with
        nodes := nodes, waitset := waitset, queue := s.queue ++ [t] }
  | unlockMutex (here : s.pc t = .unlockMutex) : Did s t (s.goto t .sleep)
  | sleep (here : s.pc t = .sleep) :
      Did s t { s.goto t .asleep with
        stopped := Function.update s.stopped t true, waitsetLock := none }
  | asleep (here : s.pc t = .asleep) (ready : s.stopped t = false) : Did s t (s.goto t .wakeLock)
  | wakeLock (here : s.pc t = .wakeLock) (free : s.waitsetLock = none) :
      Did s t { s.goto t .tidy with waitsetLock := some t }
  | tidy (here : s.pc t = .tidy) (removed : s.removed t = true) : Did s t (s.goto t .unlock)
  | leave (here : s.pc t = .tidy) (left : s.removed t = false) (nodes : Heap Thread Unit)
      (waitset : Option Thread) (ok : WaitsetOk nodes waitset (s.queue.erase t)) :
      Did s t { s.goto t .unlock with
        nodes := nodes, waitset := waitset, queue := s.queue.erase t }
  | unlock (here : s.pc t = .unlock) : Did s t { s.goto t .lockMutex with waitsetLock := none }
  | lockMutex (here : s.pc t = .lockMutex) : Did s t (s.goto t .return')
  | return' (here : s.pc t = .return') :
      Did s t { s.goto t .outside with
        returned := s.returned ++ [(t, s.signalled t, s.cause t)] }
  | signalLock (all : Bool) (here : s.pc t = .signalLock all) (free : s.waitsetLock = none) :
      Did s t { s.goto t (if all then .whileAny else .whileWaiter all) with
        waitsetLock := some t, entered := s.queue, marked := [] }
  | whileAny (here : s.pc t = .whileAny) :
      Did s t (s.goto t (if s.waitset.isSome then .whileWaiter true else .signalUnlock true))
  | whileWaiter (all : Bool) (w : Thread) (here : s.pc t = .whileWaiter all)
      (first : s.waitset = some w) : Did s t (s.goto t (.takeOut all w))
  | whileDone (all : Bool) (here : s.pc t = .whileWaiter all) (none : s.waitset = none) :
      Did s t (s.goto t (if all then .whileAny else .signalUnlock all))
  | takeOut (all : Bool) (w : Thread) (here : s.pc t = .takeOut all w)
      (nodes : Heap Thread Unit) (waitset : Option Thread)
      (ok : WaitsetOk nodes waitset (s.queue.erase w)) :
      Did s t { s.goto t (.setRemoved all w) with
        nodes := nodes, waitset := waitset, queue := s.queue.erase w }
  | setRemoved (all : Bool) (w : Thread) (here : s.pc t = .setRemoved all w) :
      Did s t { s.goto t (.wakeup all w) with removed := Function.update s.removed w true }
  | wakeup (all : Bool) (w : Thread) (here : s.pc t = .wakeup all w)
      (stopped : s.stopped w = true) :
      Did s t ((makeReady s w .signal).goto t (.setSignalled all w))
  | wakeupFails (all : Bool) (w : Thread) (here : s.pc t = .wakeup all w)
      (ready : s.stopped w = false) : Did s t (s.goto t (.whileWaiter all))
  | setSignalled (all : Bool) (w : Thread) (here : s.pc t = .setSignalled all w) :
      Did s t { s.goto t (if all then .whileAny else .signalUnlock all) with
        signalled := Function.update s.signalled w true, marked := s.marked ++ [w] }
  | signalUnlock (all : Bool) (here : s.pc t = .signalUnlock all) :
      Did s t { s.goto t .outside with waitsetLock := none }

theorem exec_did (inv : Inv s) (enabled : Enabled s (.step t)) :
    ∃ s', exec s t = some s' ∧ Did s t s' := by
  obtain ⟨busy,free,ready⟩ := enabled
  cases here : s.pc t with
  | outside => exact absurd here busy
  | waitLock => exact ⟨_,by rw [exec, here],.waitLock here (free (by rw [here]; rfl))⟩
  | push =>
    obtain ⟨nodes,waitset,pushed,ok⟩ := push_some inv here
    exact ⟨_,by rw [exec, here, pushed]; rfl,.push here nodes waitset ok⟩
  | unlockMutex => exact ⟨_,by rw [exec, here],.unlockMutex here⟩
  | sleep => exact ⟨_,by rw [exec, here],.sleep here⟩
  | asleep => exact ⟨_,by rw [exec, here],.asleep here (ready here)⟩
  | wakeLock => exact ⟨_,by rw [exec, here],.wakeLock here (free (by rw [here]; rfl))⟩
  | tidy =>
    cases left : s.removed t with
    | true => exact ⟨_,by rw [exec, here, tidyUp, if_pos left]; rfl,.tidy here left⟩
    | false =>
      have member : t ∈ s.queue := by
        refine (inv.mem t).mpr ⟨by rw [here]; rfl,left,fun c all hand => ?_⟩
        have away := (inv.removes c all t hand).1
        rw [here] at away
        cases away
      have unsignalled := queue_unsignalled inv member
      obtain ⟨nodes,waitset,gone,ok⟩ := remove_some inv member
      refine ⟨_,?_,.leave here left nodes waitset ok⟩
      rw [exec, here, tidyUp, left, unsignalled]
      simp [gone]
      rfl
  | unlock => exact ⟨_,by rw [exec, here],.unlock here⟩
  | lockMutex => exact ⟨_,by rw [exec, here],.lockMutex here⟩
  | return' => exact ⟨_,by rw [exec, here],.return' here⟩
  | signalLock all =>
    exact ⟨_,by rw [exec, here],.signalLock all here (free (by rw [here]; rfl))⟩
  | whileAny => exact ⟨_,by rw [exec, here],.whileAny here⟩
  | whileWaiter all =>
    cases first : s.waitset with
    | some w => exact ⟨_,by simp only [exec, here, first],.whileWaiter all w here first⟩
    | none => exact ⟨_,by simp only [exec, here, first],.whileDone all here first⟩
  | takeOut all w =>
    obtain ⟨nodes,waitset,gone,ok⟩ := remove_some inv (List.mem_of_head? (takes_head inv here))
    exact ⟨_,by simp only [exec, here, gone]; rfl,.takeOut all w here nodes waitset ok⟩
  | setRemoved all w =>
    have touched := touch_away (inv.removes t all w here).1
    exact ⟨_,by simp only [exec, here, touched]; rfl,.setRemoved all w here⟩
  | wakeup all w =>
    have touched := touch_away (inv.wakes t all w here).1
    cases stopped : s.stopped w with
    | true =>
      refine ⟨_,?_,.wakeup all w here stopped⟩
      simp only [exec, here, touched]
      simp [stopped]
    | false =>
      refine ⟨_,?_,.wakeupFails all w here stopped⟩
      simp only [exec, here, touched]
      simp [stopped]
  | setSignalled all w =>
    have touched := touch_away (inv.signals t all w here).1
    exact ⟨_,by simp only [exec, here, touched]; rfl,.setSignalled all w here⟩
  | signalUnlock all => exact ⟨_,by rw [exec, here],.signalUnlock all here⟩

theorem did_inv (inv : Inv s) (did : Did s t s') : Inv s' := by
  cases did with
  | waitLock here free =>
    have moves : Moves s t .push := by constructor <;> grind -ring -linarith
    exact acquire_inv inv moves free rfl
  | push here nodes waitset ok => exact push_inv inv here ok
  | unlockMutex here =>
    have moves : Moves s t .sleep := by constructor <;> grind -ring -linarith
    exact keep_inv inv moves (by rw [here]; rfl)
  | sleep here => exact sleep_inv inv here
  | asleep here ready =>
    have moves : Moves s t .wakeLock := by constructor <;> grind -ring -linarith
    exact keep_inv inv moves (by rw [here]; rfl)
  | wakeLock here free =>
    have moves : Moves s t .tidy := by constructor <;> grind -ring -linarith
    exact acquire_inv inv moves free rfl
  | tidy here removed =>
    have moves : Moves s t .unlock := by constructor <;> grind -ring -linarith
    exact keep_inv inv moves (by rw [here]; rfl)
  | leave here left nodes waitset ok => exact tidy_inv inv here left ok
  | unlock here =>
    have moves : Moves s t .lockMutex := by constructor <;> grind -ring -linarith
    exact release_inv inv moves (by rw [here]; rfl) rfl
  | lockMutex here =>
    have moves : Moves s t .return' := by constructor <;> grind -ring -linarith
    exact keep_inv inv moves (by rw [here]; rfl)
  | return' here =>
    have moves : Moves s t .outside := by constructor <;> grind -ring -linarith
    exact history_inv (keep_inv inv moves (by rw [here]; rfl)) _ _ _
  | signalLock all here free =>
    have moves : Moves s t (if all then .whileAny else .whileWaiter all) := by
      cases all <;> constructor <;> grind -ring -linarith
    exact history_inv (acquire_inv inv moves free (by cases all <;> rfl)) _ _ _
  | whileAny here =>
    have moves : Moves s t
        (if s.waitset.isSome then .whileWaiter true else .signalUnlock true) := by
      split <;> constructor <;> grind -ring -linarith
    exact keep_inv inv moves (by split <;> rw [here] <;> rfl)
  | whileWaiter all w here first =>
    have moves : Moves s t (.takeOut all w) := by constructor <;> grind -ring -linarith
    exact keep_inv inv moves (by rw [here]; rfl)
  | whileDone all here none =>
    have moves : Moves s t (if all then .whileAny else .signalUnlock all) := by
      cases all <;> constructor <;> grind -ring -linarith
    exact keep_inv inv moves (by cases all <;> rw [here] <;> rfl)
  | takeOut all w here nodes waitset ok => exact take_inv inv here ok
  | setRemoved all w here => exact removed_inv inv here
  | wakeup all w here stopped => exact woken_inv inv here stopped
  | wakeupFails all w here ready =>
    have moves : Moves s t (.whileWaiter all) := by constructor <;> grind -ring -linarith
    exact keep_inv inv moves (by rw [here]; rfl)
  | setSignalled all w here => exact signalled_inv inv here _
  | signalUnlock all here =>
    have moves : Moves s t .outside := by constructor <;> grind -ring -linarith
    exact release_inv inv moves (by rw [here]; rfl) rfl

theorem act_spec (inv : Inv s) {a : Action Thread} (enabled : Enabled s a) :
    ∃ s', act s a = some s' ∧ Inv s' := by
  cases a with
  | wait t timed => exact ⟨_,rfl,begin_inv inv enabled timed⟩
  | signal t all =>
    have here : s.pc t = .outside := enabled
    have moves : Moves s t (.signalLock all) := by constructor <;> grind -ring -linarith
    exact ⟨_,rfl,keep_inv inv moves (by rw [here]; rfl)⟩
  | step t =>
    obtain ⟨s',done,did⟩ := exec_did inv enabled
    exact ⟨s',done,did_inv inv did⟩
  | timeout t => exact ⟨_,rfl,timeout_inv inv enabled.1 enabled.2.1⟩

end KernelCC
