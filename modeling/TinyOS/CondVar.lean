import TinyOS.ResourceList
import TinyOS.Transition
import TinyOS.Monitor

/- Condition variables of kernel_cc.c, one step for each access to what threads share. The
   sections of wakeup and sleep_releasing under sched_spinlock are one step each. The waiter in the
   frame of a cv_wait is named by its thread, and a waiter of no cv_wait must not be touched
   (none). -/
namespace KernelCC
open ResourceList Rings Transition
variable {Thread : Type}

inductive Cause where
  | signal | timeout
  deriving DecidableEq, Repr

/- What a thread does next: the steps of cv_wait, and those of Cond_Signal (all = false) and
   Cond_Broadcast (all = true), with the waiter of cv_signal. -/
inductive Pc (Thread : Type) where
  | outside
  | waitLock | push | unlockMutex | sleep | asleep | wakeLock | tidy | unlock | lockMutex | return'
  | signalLock (all : Bool)
  | whileAny
  | whileWaiter (all : Bool)
  | takeOut (all : Bool) (w : Thread)
  | setRemoved (all : Bool) (w : Thread)
  | wakeup (all : Bool) (w : Thread)
  | setSignalled (all : Bool) (w : Thread)
  | signalUnlock (all : Bool)
  deriving DecidableEq, Repr

/- At a Mutex_Lock of waitset_lock. -/
def Pc.Locks : Pc Thread → Bool
  | .waitLock | .wakeLock | .signalLock _ => true
  | _ => false

def Pc.Waits : Pc Thread → Bool
  | .waitLock | .push | .unlockMutex | .sleep | .asleep | .wakeLock | .tidy | .unlock | .lockMutex
  | .return' => true
  | .outside | .signalLock _ | .whileAny | .whileWaiter _ | .takeOut _ _ | .setRemoved _ _
  | .wakeup _ _ | .setSignalled _ _ | .signalUnlock _ => false

/- `stopped` is the state STOPPED of a thread in its cv_wait. The fields from `timed` on are
   history: whether a cv_wait has a timeout, what ended its sleep, the waiters in the order of their
   arrival, which of them the owner of waitset_lock found when it got it and which it has marked,
   and what each cv_wait has returned with what had ended its sleep. -/
structure CondVar (Thread : Type) where
  nodes : Heap Thread Unit
  waitset : Option Thread
  waitsetLock : Option Thread
  removed : Thread → Bool
  signalled : Thread → Bool
  stopped : Thread → Bool
  pc : Thread → Pc Thread
  timed : Thread → Bool
  cause : Thread → Option Cause
  queue : List Thread
  entered : List Thread
  marked : List Thread
  returned : List (Thread × Bool × Option Cause)

inductive Action (Thread : Type) where
  | wait (t : Thread) (timed : Bool)
  | signal (t : Thread) (all : Bool)
  | step (t : Thread)
  | timeout (t : Thread)

section Steps
variable [DecidableEq Thread]

def CondVar.goto (s : CondVar Thread) (t : Thread) (pc : Pc Thread) : CondVar Thread :=
  { s with pc := Function.update s.pc t pc }

def CondVar.touch (s : CondVar Thread) (ts : List Thread) : Option Unit :=
  if ∀ t ∈ ts, (s.pc t).Waits then some () else none

def beginWait (s : CondVar Thread) (t : Thread) (timed : Bool) : CondVar Thread :=
  { s.goto t .waitLock with
    nodes := rlnodeInit s.nodes t ()
    removed := Function.update s.removed t false
    signalled := Function.update s.signalled t false
    stopped := Function.update s.stopped t false
    timed := Function.update s.timed t timed
    cause := Function.update s.cause t none }

def pushWaiter (s : CondVar Thread) (t : Thread) : Option (CondVar Thread) :=
  match s.waitset with
  | some wset => do
    s.touch [t, wset, s.nodes.prev wset]
    some { s with nodes := rlistPushBack s.nodes wset t, queue := s.queue ++ [t] }
  | none => some { s with waitset := some t, queue := s.queue ++ [t] }

def removeFromRing (s : CondVar Thread) (w : Thread) : Option (CondVar Thread) := do
  s.touch [w, s.nodes.next w, s.nodes.prev w]
  let nextw := s.nodes.next w
  some
    { s with
      waitset := if s.waitset = some w then if nextw = w then none else some nextw else s.waitset
      nodes := (rlistRemove s.nodes w).2
      queue := s.queue.erase w }

def tidyUp (s : CondVar Thread) (t : Thread) : Option (CondVar Thread) :=
  if s.removed t then some s
  else if s.signalled t then none
  else removeFromRing s t

def makeReady (s : CondVar Thread) (w : Thread) (cause : Cause) : CondVar Thread :=
  { s with
    stopped := Function.update s.stopped w false
    cause := Function.update s.cause w (some cause) }

def exec (s : CondVar Thread) (t : Thread) : Option (CondVar Thread) :=
  match s.pc t with
  | .outside => none
  | .waitLock => some { s.goto t .push with waitsetLock := some t }
  | .push => (pushWaiter s t).map (·.goto t .unlockMutex)
  | .unlockMutex => some (s.goto t .sleep)
  | .sleep =>
    some { s.goto t .asleep with stopped := Function.update s.stopped t true, waitsetLock := none }
  | .asleep => some (s.goto t .wakeLock)
  | .wakeLock => some { s.goto t .tidy with waitsetLock := some t }
  | .tidy => (tidyUp s t).map (·.goto t .unlock)
  | .unlock => some { s.goto t .lockMutex with waitsetLock := none }
  | .lockMutex => some (s.goto t .return')
  | .return' =>
    some { s.goto t .outside with returned := s.returned ++ [(t, s.signalled t, s.cause t)] }
  | .signalLock all =>
    some
      { s.goto t (if all then .whileAny else .whileWaiter all) with
        waitsetLock := some t, entered := s.queue, marked := [] }
  | .whileAny =>
    some (s.goto t (if s.waitset.isSome then .whileWaiter true else .signalUnlock true))
  | .whileWaiter all =>
    match s.waitset with
    | some w => some (s.goto t (.takeOut all w))
    | none => some (s.goto t (if all then .whileAny else .signalUnlock all))
  | .takeOut all w => (removeFromRing s w).map (·.goto t (.setRemoved all w))
  | .setRemoved all w => do
    s.touch [w]
    some { s.goto t (.wakeup all w) with removed := Function.update s.removed w true }
  | .wakeup all w => do
    s.touch [w]
    if s.stopped w then some ((makeReady s w .signal).goto t (.setSignalled all w))
    else some (s.goto t (.whileWaiter all))
  | .setSignalled all w => do
    s.touch [w]
    some
      { s.goto t (if all then .whileAny else .signalUnlock all) with
        signalled := Function.update s.signalled w true, marked := s.marked ++ [w] }
  | .signalUnlock _ => some { s.goto t .outside with waitsetLock := none }

def act (s : CondVar Thread) : Action Thread → Option (CondVar Thread)
  | .wait t timed => some (beginWait s t timed)
  | .signal t all => some (s.goto t (.signalLock all))
  | .step t => exec s t
  | .timeout t => some (makeReady s t .timeout)

/- A thread waits for a lock, and in sleep_releasing until it is not STOPPED. -/
def Enabled (s : CondVar Thread) : Action Thread → Prop
  | .wait t _ | .signal t _ => s.pc t = .outside
  | .step t =>
    s.pc t ≠ .outside ∧ ((s.pc t).Locks = true → s.waitsetLock = none) ∧
      (s.pc t = .asleep → s.stopped t = false)
  | .timeout t => s.pc t = .asleep ∧ s.stopped t = true ∧ s.timed t = true

instance condEnabledDecidable (s : CondVar Thread) (a : Action Thread) : Decidable (Enabled s a) :=
  match a with
  | .wait t _ | .signal t _ => inferInstanceAs (Decidable (s.pc t = .outside))
  | .step t =>
    inferInstanceAs (Decidable (s.pc t ≠ .outside ∧ ((s.pc t).Locks = true → _) ∧ (_ → _)))
  | .timeout t => inferInstanceAs (Decidable (s.pc t = .asleep ∧ _ ∧ _))

def initial : CondVar Thread where
  nodes := { next := id, prev := id, key := fun _ => () }
  waitset := none
  waitsetLock := none
  removed _ := false
  signalled _ := false
  stopped _ := false
  pc _ := .outside
  timed _ := false
  cause _ := none
  queue := []
  entered := []
  marked := []
  returned := []

/- Any number of threads, which wait and signal whenever they are in neither. -/
def condSystem : Machine (CondVar Thread) (Action Thread) where
  start s := s = initial
  enabled := Enabled
  exec := act

instance condSystemDecidable (s : CondVar Thread) (a : Action Thread) :
    Decidable (condSystem.enabled s a) := inferInstanceAs (Decidable (Enabled s a))

end Steps

section Rings

/- waitset points to the first of the waiters, and all others are on no ring. -/
structure WaitsetOk (nodes : Heap Thread Unit) (waitset : Option Thread) (queue : List Thread) :
    Prop where
  wellFormed : nodes.WellFormed
  head : waitset = queue.head?
  ring : ∀ w rest, queue = w :: rest → IsList nodes w rest
  alone : ∀ t, t ∉ queue → IsList nodes t []

variable {nodes : Heap Thread Unit} {waitset : Option Thread} {queue rest : List Thread}
  {t w : Thread}

theorem queue_nodup (ok : WaitsetOk nodes waitset queue) : queue.Nodup := by
  cases queue with
  | nil => exact List.nodup_nil
  | cons w rest => exact (ok.ring w rest rfl).nodup

theorem queue_neighbours (ok : WaitsetOk nodes waitset queue) (member : w ∈ queue) :
    nodes.next w ∈ queue ∧ nodes.prev w ∈ queue := by
  cases queue with
  | nil => cases member
  | cons h rest => exact ring_closed (ok.ring h rest rfl) w member

theorem initial_waitset : WaitsetOk (initial : CondVar Thread).nodes none [] :=
  ⟨fun _ => ⟨rfl,rfl⟩,rfl,nofun,fun _ _ => ⟨⟨rfl,rfl⟩,by simp⟩⟩

theorem first_waitset (ok : WaitsetOk nodes none queue) (apart : t ∉ queue) :
    queue = [] ∧ WaitsetOk nodes (some t) (queue ++ [t]) := by
  obtain rfl : queue = [] := List.head?_eq_none_iff.mp ok.head.symm
  refine ⟨rfl,ok.wellFormed,rfl,fun w rest same => ?_,fun u _ => ok.alone u List.not_mem_nil⟩
  cases same
  exact ok.alone t apart

variable [DecidableEq Thread]

theorem init_waitset (ok : WaitsetOk nodes waitset queue) (apart : t ∉ queue) :
    rlnodeInit nodes t () = nodes := by
  have alone := (ok.alone t apart).linked
  have next : Function.update nodes.next t t = nodes.next :=
    Function.update_eq_self_iff.mpr alone.1.symm
  have prev : Function.update nodes.prev t t = nodes.prev :=
    Function.update_eq_self_iff.mpr alone.2.symm
  have key : Function.update nodes.key t () = nodes.key := funext fun _ => rfl
  rw [rlnodeInit, next, prev, key]

theorem push_waitset (ok : WaitsetOk nodes (some w) queue) (apart : t ∉ queue) :
    WaitsetOk (rlistPushBack nodes w t) (some w) (queue ++ [t]) := by
  obtain ⟨rest,rfl⟩ : ∃ rest, queue = w :: rest := List.head?_eq_some_iff.mp ok.head.symm
  have list := ok.ring w rest rfl
  obtain ⟨joined,unnamed⟩ := push_back_ring ok.wellFormed list (ok.alone t apart) apart
  refine ⟨unnamed.wellFormed,rfl,fun w' rest' same => ?_,fun u outside => ?_⟩
  · cases same
    exact joined
  · have out : u ∉ w :: rest := fun member => outside (List.mem_append_left _ member)
    exact unnamed.rings u [] (ok.alone u out) outside

/-- The rest of the ring, and the waiter alone. -/
theorem remove_waitset (ok : WaitsetOk nodes waitset queue) (member : w ∈ queue) :
    WaitsetOk (rlistRemove nodes w).2
      (if waitset = some w then if nodes.next w = w then none else some (nodes.next w) else waitset)
      (queue.erase w) := by
  have distinct := queue_nodup ok
  have alone {nodes' : Heap Thread Unit} {named : List Thread} (single : IsList nodes' w [])
      (unnamed : Unnamed nodes nodes' named) (same : named ⊆ queue) :
      ∀ t, t ∉ queue.erase w → IsList nodes' t [] := by
    intro t outside
    by_cases here : t = w
    · exact here ▸ single
    · have out : t ∉ queue := fun inside => outside ((List.mem_erase_of_ne here).mpr inside)
      exact unnamed.rings t [] (ok.alone t out) fun inside => out (same inside)
  cases queue with
  | nil => cases member
  | cons h rest =>
    have list := ok.ring h rest rfl
    have head : waitset = some h := ok.head
    by_cases first : w = h
    · subst first
      rw [if_pos head, List.erase_cons_head] at *
      cases rest with
      | nil =>
        have next : nodes.next w = w := list.linked.1
        have same : (rlistRemove nodes w).2 = nodes := by
          have prev : nodes.prev w = w := list.linked.2
          rw [rlistRemove, prev, rl_splice_links ok.wellFormed, exchange_self ok.wellFormed]
        rw [same, if_pos next]
        refine ⟨ok.wellFormed,rfl,nofun,fun t _ => ?_⟩
        by_cases here : t = w
        · exact here ▸ list
        · exact ok.alone t (by simpa using here)
      | cons x r =>
        have next : nodes.next w = x := list.linked.1
        have other : x ≠ w := by grind
        have turned : IsList nodes x (r ++ w :: []) :=
          ring_rotate (list : IsList nodes w ([] ++ x :: r))
        obtain ⟨_,left,single,unnamed⟩ := remove_ring ok.wellFormed turned
        rw [next, if_neg other]
        refine ⟨unnamed.wellFormed,rfl,fun y ys same => ?_,alone single unnamed ?_⟩
        · cases same
          simpa using left
        · intro t inside
          grind
    · have inside : w ∈ rest := by grind
      obtain ⟨before,after,rfl⟩ := List.append_of_mem inside
      have fresh : w ∉ before := by grind
      have erased : (h :: (before ++ w :: after)).erase w = h :: (before ++ after) := by
        rw [List.erase_cons_tail (by simpa using Ne.symm first), List.erase_append_right _ fresh,
          List.erase_cons_head]
      obtain ⟨_,left,single,unnamed⟩ := remove_ring ok.wellFormed list
      have away : waitset ≠ some w := by
        rw [head]
        exact fun same => first (Option.some.inj same).symm
      rw [if_neg away]
      refine ⟨unnamed.wellFormed,by rw [head, erased]; rfl,fun y ys same => ?_,
        alone single unnamed fun t => id⟩
      rw [erased] at same
      cases same
      exact left

end Rings
end KernelCC
