import TinyOS.Sched

/- The two spinlocks of kernel_sched.c, step by step: sched_spinlock, which is taken with preemption
   off, and active_threads_spinlock, which spawn_thread takes with preemption on and release_TCB, in
   gain, under the other. Which of the threads in the queues is the next is left open. -/
namespace Spinlocks
open Transition KernelSched

/- Where a thread is while preemption is on: outside of these functions, or in spawn_thread at
   Mutex_Lock, in active_threads++ and at Mutex_Unlock. -/
inductive Work where
  | user | spawnLock | spawnRead | spawnWrite (active : UInt32) | spawnUnlock
  deriving DecidableEq, Repr

/- Where a thread is: with preemption on, or in a function of the scheduler from which it goes on to
   its work: in wakeup, which handlers call too, in sleep_releasing, in yield, switched out, in gain
   and in its release_TCB. -/
inductive Place (Core : Type) where
  | on (work : Work)
  | wakeupLock (work : Work) (tcb : TcbRef Core)
  | wakeupInside (work : Work) (tcb : TcbRef Core)
  | sleepLock (state : ThreadState)
  | sleepInside (state : ThreadState)
  | yieldLock (work : Work)
  | yieldInside (work : Work)
  | out (work : Work)
  | gainLock (work : Work)
  | gainInside (work : Work)
  | releaseLock (work : Work)
  | releaseRead (work : Work)
  | releaseWrite (work : Work) (active : UInt32)
  | releaseUnlock (work : Work)
  | gainUnlock (work : Work)
  deriving DecidableEq, Repr

/- A lock comes with the thread that has it; `kernel` is the kernel lock, which the callers of
   spawn_thread have. A TCB that is allocated anew counts as another thread. The last two are
   history: how often active_threads has been raised and lowered. -/
structure Spin (Core : Type) where
  kernel : Option (TcbRef Core)
  schedSpinlock : Option (TcbRef Core)
  activeThreadsSpinlock : Option (TcbRef Core)
  activeThreads : UInt32
  currentThread : Core → TcbRef Core
  previousThread : Core → TcbRef Core
  state : TcbRef Core → Option ThreadState
  clean : TcbRef Core → Bool
  place : TcbRef Core → Place Core
  spawned : Nat
  released : Nat

/- `call` is wakeup, by the thread or by an interrupt handler; `yield` is the handler of ALARM or the
   yield of Mutex_Lock. -/
inductive Action (Core : Type) where
  | step (c : Core)
  | enter (c : Core)
  | leave (c : Core)
  | spawn (c : Core) (addr : Nat)
  | call (c : Core) (tcb : TcbRef Core)
  | sleep (c : Core) (state : ThreadState)
  | yield (c : Core)
  | select (c : Core) (next : TcbRef Core)

section Steps
variable {Core : Type} [DecidableEq Core]

def Spin.go (s : Spin Core) (t : TcbRef Core) (place : Place Core) : Spin Core :=
  { s with place := Function.update s.place t place }

def Spin.setState (s : Spin Core) (t : TcbRef Core) (state : Option ThreadState) : Spin Core :=
  { s with state := Function.update s.state t state }

def wakes (s : Spin Core) (tcb : TcbRef Core) : Spin Core :=
  if s.state tcb = some .stopped ∨ s.state tcb = some .init then s.setState tcb (some .ready) else s

/- gain, when the thread that ran before is another one. -/
def takeCare (s : Spin Core) (t prev : TcbRef Core) (work : Work) : Spin Core :=
  let s := { s with clean := Function.update s.clean prev true }
  if s.state prev = some .exited then s.go t (.releaseLock work) else s.go t (.gainUnlock work)

def gains (s : Spin Core) (c : Core) (t : TcbRef Core) (work : Work) : Spin Core :=
  let s := { s.setState t (some .running) with clean := Function.update s.clean t false }
  if s.previousThread c = t then s.go t (.gainUnlock work)
  else takeCare s t (s.previousThread c) work

def coreStep (s : Spin Core) (c : Core) : Option (Spin Core) :=
  let t := s.currentThread c
  match s.place t with
  | .on .user | .yieldInside _ | .out _ => none
  -- spawn_thread
  | .on .spawnLock => some { s.go t (.on .spawnRead) with activeThreadsSpinlock := some t }
  | .on .spawnRead => some (s.go t (.on (.spawnWrite s.activeThreads)))
  | .on (.spawnWrite active) =>
    some { s.go t (.on .spawnUnlock) with activeThreads := active + 1, spawned := s.spawned + 1 }
  | .on .spawnUnlock => some { s.go t (.on .user) with activeThreadsSpinlock := none }
  -- wakeup
  | .wakeupLock work tcb => some { s.go t (.wakeupInside work tcb) with schedSpinlock := some t }
  | .wakeupInside work tcb => some { (wakes s tcb).go t (.on work) with schedSpinlock := none }
  -- sleep_releasing, whose callers have no kernel lock or have given it up
  | .sleepLock state => some { s.go t (.sleepInside state) with schedSpinlock := some t }
  | .sleepInside state =>
    some { (s.setState t (some state)).go t (.yieldLock .user) with schedSpinlock := none }
  -- yield
  | .yieldLock work => some { s.go t (.yieldInside work) with schedSpinlock := some t }
  -- gain and release_TCB
  | .gainLock work => some { s.go t (.gainInside work) with schedSpinlock := some t }
  | .gainInside work => some (gains s c t work)
  | .releaseLock work => some { s.go t (.releaseRead work) with activeThreadsSpinlock := some t }
  | .releaseRead work => some (s.go t (.releaseWrite work s.activeThreads))
  | .releaseWrite work active =>
    some
      { s.go t (.releaseUnlock work) with
        activeThreads := active - 1, released := s.released + 1 }
  | .releaseUnlock work => some { s.go t (.gainUnlock work) with activeThreadsSpinlock := none }
  | .gainUnlock work => some { s.go t (.on work) with schedSpinlock := none }

/- The state of the thread that yields. -/
def yielded (state : Option ThreadState) : Option ThreadState :=
  if state = some .running then some .ready else state

/- The end of yield: the next thread is at the gain of its own yield, or of thread_start. -/
def switches (s : Spin Core) (c : Core) (t next : TcbRef Core) (work : Work) :
    Option (Spin Core) :=
  let s := { s.setState t (yielded (s.state t)) with
    previousThread := Function.update s.previousThread c t, schedSpinlock := none }
  if next = t then some (s.go t (.gainLock work))
  else
    match s.place next with
    | .out work' =>
      some
        { (s.go t (.out work)).go next (.gainLock work') with
          currentThread := Function.update s.currentThread c next }
    | _ => none

def act (s : Spin Core) : Action Core → Option (Spin Core)
  | .step c => coreStep s c
  | .enter c => some { s with kernel := some (s.currentThread c) }
  | .leave _ => some { s with kernel := none }
  | .spawn c addr =>
    let s := (s.setState (.thread addr) (some .init)).go (.thread addr) (.out .user)
    some { s.go (s.currentThread c) (.on .spawnLock) with
      clean := Function.update s.clean (.thread addr) true }
  | .call c tcb =>
    match s.place (s.currentThread c) with
    | .on work => some (s.go (s.currentThread c) (.wakeupLock work tcb))
    | _ => none
  | .sleep c state => some (s.go (s.currentThread c) (.sleepLock state))
  | .yield c =>
    match s.place (s.currentThread c) with
    | .on work => some (s.go (s.currentThread c) (.yieldLock work))
    | _ => none
  | .select c next =>
    match s.place (s.currentThread c) with
    | .yieldInside work => switches s c (s.currentThread c) next work
    | _ => none

def Place.On : Place Core → Bool
  | .on _ => true
  | _ => false

def Place.Out : Place Core → Bool
  | .out _ => true
  | _ => false

def Place.Yields : Place Core → Bool
  | .yieldInside _ => true
  | _ => false

/- At a Mutex_Lock of sched_spinlock. -/
def Place.LocksSched : Place Core → Bool
  | .wakeupLock _ _ | .sleepLock _ | .yieldLock _ | .gainLock _ => true
  | _ => false

/- At a Mutex_Lock of active_threads_spinlock. -/
def Place.LocksActive : Place Core → Bool
  | .on .spawnLock | .releaseLock _ => true
  | _ => false

/- A thread that sched_queue_select may return: one in the queues, or else the current one if it is
   READY, or else the idle thread. -/
def Selectable (s : Spin Core) (c : Core) (t next : TcbRef Core) : Prop :=
  next = t ∧ yielded (s.state t) = some .ready ∨
  next ≠ t ∧ s.state next = some .ready ∧ s.clean next = true ∧ (s.place next).Out = true ∧
    match next with
    | .thread _ => True
    | .idle d => d = c ∧ yielded (s.state t) ≠ some .ready

instance selectableDecidable (s : Spin Core) (c : Core) (t next : TcbRef Core) :
    Decidable (Selectable s c t next) :=
  match next with
  | .thread _ => inferInstanceAs (Decidable (_ ∨ (_ ∧ _ ∧ _ ∧ _ ∧ True)))
  | .idle d => inferInstanceAs (Decidable (_ ∨ (_ ∧ _ ∧ _ ∧ _ ∧ (d = c ∧ _))))

def Enabled (s : Spin Core) : Action Core → Prop
  | .step c =>
    s.place (s.currentThread c) ≠ .on .user ∧ (s.place (s.currentThread c)).Yields = false ∧
      ((s.place (s.currentThread c)).LocksSched = true → s.schedSpinlock = none) ∧
      ((s.place (s.currentThread c)).LocksActive = true → s.activeThreadsSpinlock = none)
  | .enter c => s.place (s.currentThread c) = .on .user ∧ s.kernel = none
  | .leave c => s.place (s.currentThread c) = .on .user ∧ s.kernel = some (s.currentThread c)
  | .spawn c addr =>
    s.place (s.currentThread c) = .on .user ∧ s.kernel = some (s.currentThread c) ∧
      s.state (.thread addr) = none
  | .call c tcb => (s.place (s.currentThread c)).On = true ∧ s.state tcb ≠ none
  | .sleep c state =>
    s.place (s.currentThread c) = .on .user ∧ s.currentThread c ≠ .idle c ∧
      (state = .stopped ∨ state = .exited)
  | .yield c => (s.place (s.currentThread c)).On = true
  | .select c next =>
    (s.place (s.currentThread c)).Yields = true ∧ Selectable s c (s.currentThread c) next

instance enabledDecidable (s : Spin Core) (a : Action Core) : Decidable (Enabled s a) :=
  match a with
  | .step _ => inferInstanceAs (Decidable (_ ≠ _ ∧ _ ∧ (_ → _) ∧ (_ → _)))
  | .enter _ => inferInstanceAs (Decidable (_ ∧ s.kernel = none))
  | .leave c => inferInstanceAs (Decidable (_ ∧ s.kernel = some (s.currentThread c)))
  | .spawn _ addr => inferInstanceAs (Decidable (_ ∧ _ ∧ s.state (.thread addr) = none))
  | .call _ tcb => inferInstanceAs (Decidable (_ ∧ s.state tcb ≠ none))
  | .sleep c _ => inferInstanceAs (Decidable (_ ∧ s.currentThread c ≠ .idle c ∧ _))
  | .yield c => inferInstanceAs (Decidable ((s.place (s.currentThread c)).On = true))
  | .select c next => inferInstanceAs (Decidable (_ ∧ Selectable s c (s.currentThread c) next))

/- Every core runs its idle thread. -/
def initial : Spin Core where
  kernel := none
  schedSpinlock := none
  activeThreadsSpinlock := none
  activeThreads := 0
  currentThread c := .idle c
  previousThread c := .idle c
  state t := match t with | .idle _ => some .running | .thread _ => none
  clean _ := false
  place t := match t with | .idle _ => .on .user | .thread _ => .out .user
  spawned := 0
  released := 0

def spinSystem : Machine (Spin Core) (Action Core) where
  start s := s = initial
  enabled := Enabled
  exec := act

instance spinSystemDecidable (s : Spin Core) (a : Action Core) :
    Decidable (spinSystem.enabled s a) := inferInstanceAs (Decidable (Enabled s a))

end Steps
end Spinlocks
