import TinyOS.Transition

/- The scheduler of kernel_sched.c: thread and core control blocks, the priority queues and
   the timeout list, and the critical sections that run under sched_spinlock. The intrusive
   lists are lists of TCB references; linking a node that is already linked, following a
   reference to a freed TCB and failing an assertion are faults (none). -/
namespace KernelSched
open Transition

inductive ThreadState where
  | init | ready | running | stopped | exited
  deriving DecidableEq, Repr

inductive ThreadPhase where
  | clean | dirty
  deriving DecidableEq, Repr

inductive ThreadType where
  | idle | normal
  deriving DecidableEq, Repr

inductive SchedCause where
  | quantum | io | mutex | pipe | poll | idle | user
  deriving DecidableEq, Repr

def maxQuantums : Nat := 500
def priorityQueues : Nat := 5
def quantum : Nat := 10000
def timerModulus : Nat := 2 ^ 64
def noTimeout : Nat := timerModulus - 1

structure TCB where
  type : ThreadType
  state : ThreadState
  phase : ThreadPhase
  wakeupTime : Nat
  its : Nat
  rts : Nat
  currCause : SchedCause
  lastCause : SchedCause
  priority : Int
  deriving DecidableEq, Repr

/- A TCB is either the idle_thread embedded in a core's CCB or a block of allocate_thread,
   whose address may be handed out again once it has been freed. -/
inductive TcbRef (Core : Type) where
  | idle (core : Core)
  | thread (addr : Nat)
  deriving DecidableEq, Repr

/- Where a core stands between critical sections. `stopping`: its thread has left
   sleep_releasing's section (or is inside yield's) and must go on to yield; `switching`:
   yield has chosen the next thread and gain is still to run. -/
inductive Stage where
  | offline | running | stopping | switching
  deriving DecidableEq, Repr

structure CCB (Core : Type) where
  currentThread : Option (TcbRef Core)
  previousThread : Option (TcbRef Core)
  stage : Stage

structure Sched (Core : Type) where
  tcb : TcbRef Core → Option TCB
  queue : Int → List (TcbRef Core)
  timeouts : List (TcbRef Core)
  cctx : Core → CCB Core
  yieldCounter : Nat
  activeThreads : Nat

section Operations
variable {Core : Type} [DecidableEq Core]

def Sched.set (s : Sched Core) (t : TcbRef Core) (b : TCB) : Sched Core :=
  { s with tcb := Function.update s.tcb t (some b) }

def Sched.setCore (s : Sched Core) (c : Core) (b : CCB Core) : Sched Core :=
  { s with cctx := Function.update s.cctx c b }

/- sched_node.next != &sched_node -/
def Sched.Linked (s : Sched Core) (t : TcbRef Core) : Prop :=
  t ∈ s.timeouts ∨ ∃ k < priorityQueues, t ∈ s.queue k

instance (s : Sched Core) (t : TcbRef Core) : Decidable (s.Linked t) :=
  inferInstanceAs (Decidable (_ ∨ _))

/- rlist_remove on the sched_node: out of whichever list holds it. -/
def Sched.unlink (s : Sched Core) (t : TcbRef Core) : Sched Core :=
  { s with queue := fun k => (s.queue k).erase t, timeouts := s.timeouts.erase t }

/- rlist_push_back(&SCHED[k], &tcb->sched_node) -/
def Sched.pushBack (s : Sched Core) (k : Int) (t : TcbRef Core) : Option (Sched Core) :=
  if 0 ≤ k ∧ k < priorityQueues ∧ ¬ s.Linked t then
    some { s with queue := Function.update s.queue k (s.queue k ++ [t]) }
  else none

def insertTimeout (s : Sched Core) (t : TcbRef Core) (deadline : Nat) :
    List (TcbRef Core) → Option (List (TcbRef Core))
  | [] => some [t]
  | n :: rest => do
    let entry ← s.tcb n
    if deadline < entry.wakeupTime then some (t :: n :: rest)
    else (insertTimeout s t deadline rest).map (n :: ·)

def schedRegisterTimeout (s : Sched Core) (t : TcbRef Core) (clock timeout : Nat) :
    Option (Sched Core) :=
  if timeout = noTimeout then some s
  else do
    let b ← s.tcb t
    let deadline := (clock + timeout) % timerModulus
    let s := s.set t { b with wakeupTime := deadline }
    if s.Linked t then none
    else
      let entries ← insertTimeout s t deadline s.timeouts
      some { s with timeouts := entries }

def schedQueueAdd (s : Sched Core) (t : TcbRef Core) : Option (Sched Core) := do
  let b ← s.tcb t
  s.pushBack b.priority t

def schedMakeReady (s : Sched Core) (t : TcbRef Core) : Option (Sched Core) := do
  let b ← s.tcb t
  if b.state = .stopped ∨ b.state = .init then
    if b.wakeupTime ≠ noTimeout then
      if s.Linked t ∧ b.state = .stopped then
        let s := (s.unlink t).set t { b with wakeupTime := noTimeout, state := .ready }
        if b.phase = .clean then schedQueueAdd s t else some s
      else none
    else
      let s := s.set t { b with state := .ready }
      if b.phase = .clean then schedQueueAdd s t else some s
  else none

/- One turn for each entry; running out of turns with entries left would be a fault. -/
def expiryLoop (clock : Nat) : Nat → Sched Core → Option (Sched Core)
  | 0, s => if s.timeouts = [] then some s else none
  | turns + 1, s =>
    match s.timeouts with
    | [] => some s
    | t :: _ => do
      let b ← s.tcb t
      if clock < b.wakeupTime then some s
      else
        let s ← schedMakeReady s t
        expiryLoop clock turns s

def schedWakeupExpiredTimeouts (s : Sched Core) (clock : Nat) : Option (Sched Core) :=
  expiryLoop clock s.timeouts.length s

def popHighest (s : Sched Core) : Nat → Option (TcbRef Core) × Sched Core
  | 0 => (none, s)
  | counter + 1 =>
    match s.queue counter with
    | [] => popHighest s counter
    | t :: rest => (some t, { s with queue := Function.update s.queue counter rest })

def schedQueueSelect (s : Sched Core) (c : Core) (current : TcbRef Core) :
    Option (TcbRef Core × Sched Core) := do
  let (sel, s) := popHighest s priorityQueues
  let b ← s.tcb current
  let next := sel.getD (if b.state = .ready then current else .idle c)
  let nextBlock ← s.tcb next
  some (next, s.set next { nextBlock with its := quantum })

def agingLoop : Nat → Sched Core → Option (Sched Core)
  | 0, s => some s
  | count + 1, s =>
    match s.queue count with
    | [] => agingLoop count s
    | t :: rest => do
      let s := { s with queue := Function.update s.queue count rest }
      let b ← s.tcb t
      let s := s.set t { b with priority := b.priority + 1 }
      let s ← s.pushBack (count + 1) t
      agingLoop count s

def aging (s : Sched Core) : Option (Sched Core) := agingLoop (priorityQueues - 1) s

def wakeup (s : Sched Core) (t : TcbRef Core) : Option (Sched Core × Bool) := do
  let b ← s.tcb t
  if b.state = .stopped ∨ b.state = .init then
    (schedMakeReady s t).map (·, true)
  else some (s, false)

/- The critical section of sleep_releasing; the call of yield that follows is a section of
   its own. -/
def sleepReleasing (s : Sched Core) (c : Core) (state : ThreadState) (clock timeout : Nat) :
    Option (Sched Core) := do
  if state = .stopped ∨ state = .exited then
    let t ← (s.cctx c).currentThread
    let b ← s.tcb t
    let s := s.set t { b with state := state }
    let s := s.setCore c { s.cctx c with stage := .stopping }
    if state ≠ .exited then schedRegisterTimeout s t clock timeout else some s
  else none

/- The multi-level feedback rule at the end of yield. -/
def adjustPriority (cause : SchedCause) (b : TCB) : TCB :=
  match cause with
  | .quantum => if 0 < b.priority then { b with priority := b.priority - 1 } else b
  | .io => if b.priority < priorityQueues - 1 then { b with priority := b.priority + 1 } else b
  | .mutex =>
    if 0 < b.priority ∧ b.currCause = b.lastCause then { b with priority := b.priority - 1 }
    else b
  | _ => b

def countYield (s : Sched Core) : Option (Sched Core) :=
  let s := { s with yieldCounter := s.yieldCounter + 1 }
  if s.yieldCounter = maxQuantums then (aging s).map ({ · with yieldCounter := 0 }) else some s

/- CURTHREAD stops running and its time slice is accounted for. -/
def stopCurrent (s : Sched Core) (c : Core) (current : TcbRef Core) (cause : SchedCause)
    (remaining : Nat) : Option (Sched Core) := do
  let b ← s.tcb current
  let state := if b.state = .running then .ready else b.state
  let s := s.set current
    { b with state := state, rts := remaining, lastCause := b.currCause, currCause := cause }
  some (s.setCore c { s.cctx c with stage := .stopping })

def switchTo (s : Sched Core) (c : Core) (current next : TcbRef Core) : Sched Core :=
  s.setCore c
    { currentThread := if current ≠ next then some next else (s.cctx c).currentThread
      previousThread := some current
      stage := .switching }

/- yield up to its unlock and the assignment of CURTHREAD. -/
def yield (s : Sched Core) (c : Core) (cause : SchedCause) (remaining clock : Nat) :
    Option (Sched Core) := do
  let current ← (s.cctx c).currentThread
  let s ← countYield s
  let s ← stopCurrent s c current cause remaining
  let s ← schedWakeupExpiredTimeouts s clock
  let (next, s) ← schedQueueSelect s c current
  let b ← s.tcb current
  let s := s.set current (adjustPriority cause b)
  some (switchTo s c current next)

def releaseTCB (s : Sched Core) (t : TcbRef Core) : Sched Core :=
  { s with tcb := Function.update s.tcb t none, activeThreads := s.activeThreads - 1 }

def gain (s : Sched Core) (c : Core) : Option (Sched Core) := do
  let current ← (s.cctx c).currentThread
  let b ← s.tcb current
  let s := s.set current { b with state := .running, phase := .dirty, rts := b.its }
  let prev ← (s.cctx c).previousThread
  let s := s.setCore c { s.cctx c with stage := .running }
  if current = prev then some s
  else
    let p ← s.tcb prev
    let s := s.set prev { p with phase := .clean }
    match p.state with
    | .ready => if p.type ≠ .idle then schedQueueAdd s prev else some s
    | .exited => some (releaseTCB s prev)
    | .stopped => some s
    | _ => none

def spawnThread (s : Sched Core) (addr : Nat) : Sched Core :=
  { s with
    tcb := Function.update s.tcb (.thread addr) (some
      { type := .normal, state := .init, phase := .clean, wakeupTime := noTimeout,
        its := quantum, rts := quantum, currCause := .idle, lastCause := .idle,
        priority := (priorityQueues : Int) / 2 })
    activeThreads := s.activeThreads + 1 }

/- The initialisation of the CCB by run_scheduler, after which the core runs idle_thread. -/
def runScheduler (s : Sched Core) (c : Core) : Option (Sched Core) := do
  let b ← s.tcb (.idle c)
  let s := s.set (.idle c)
    { b with type := .idle, state := .running, phase := .dirty, wakeupTime := noTimeout,
             its := quantum, rts := quantum, currCause := .idle, lastCause := .idle }
  some (s.setCore c { s.cctx c with currentThread := some (.idle c), stage := .running })

end Operations

/- Static storage is zero before initialize_scheduler and run_scheduler. -/
def zeroTCB : TCB :=
  { type := .idle, state := .init, phase := .clean, wakeupTime := 0, its := 0, rts := 0,
    currCause := .quantum, lastCause := .quantum, priority := 0 }

def initializeScheduler (Core : Type) : Sched Core where
  tcb
    | .idle _ => some zeroTCB
    | .thread _ => none
  queue := fun _ => []
  timeouts := []
  cctx := fun _ => { currentThread := none, previousThread := none, stage := .offline }
  yieldCounter := 0
  activeThreads := 0

inductive Action (Core : Type) where
  | runScheduler (c : Core)
  | spawn (addr : Nat)
  | wakeup (addr : Nat)
  | sleep (c : Core) (state : ThreadState) (clock timeout : Nat)
  | yield (c : Core) (cause : SchedCause) (remaining clock : Nat)
  | gain (c : Core)

section System
variable {Core : Type} [DecidableEq Core]

/- A core takes its sections in program order. Only a normal thread sleeps (idle_thread only
   halts and yields), wakeup is given a thread that has not been freed, and no deadline wraps
   to or past NO_TIMEOUT. -/
def Enabled (s : Sched Core) : Action Core → Prop
  | .runScheduler c => (s.cctx c).stage = .offline
  | .spawn addr => s.tcb (.thread addr) = none
  | .wakeup addr => s.tcb (.thread addr) ≠ none
  | .sleep c state clock timeout =>
    (s.cctx c).stage = .running ∧ (∃ addr, (s.cctx c).currentThread = some (.thread addr)) ∧
      (state = .stopped ∨ state = .exited) ∧
      (timeout = noTimeout ∨ clock + timeout < noTimeout)
  | .yield c _ _ _ => (s.cctx c).stage = .running ∨ (s.cctx c).stage = .stopping
  | .gain c => (s.cctx c).stage = .switching

instance (s : Sched Core) (a : Action Core) : Decidable (Enabled s a) :=
  match a with
  | .runScheduler c => inferInstanceAs (Decidable ((s.cctx c).stage = .offline))
  | .spawn addr => inferInstanceAs (Decidable (s.tcb (.thread addr) = none))
  | .wakeup addr => inferInstanceAs (Decidable (s.tcb (.thread addr) ≠ none))
  | .sleep c state clock timeout =>
    have : Decidable (∃ addr, (s.cctx c).currentThread = some (.thread addr)) :=
      match is : (s.cctx c).currentThread with
      | some (.thread addr) => isTrue ⟨addr,rfl⟩
      | some (.idle d) => isFalse (by rintro ⟨_,h⟩; cases h)
      | none => isFalse (by rintro ⟨_,h⟩; cases h)
    inferInstanceAs (Decidable ((s.cctx c).stage = .running ∧ _ ∧
      (state = .stopped ∨ state = .exited) ∧ (timeout = noTimeout ∨ clock + timeout < noTimeout)))
  | .yield c _ _ _ =>
    inferInstanceAs (Decidable ((s.cctx c).stage = .running ∨ (s.cctx c).stage = .stopping))
  | .gain c => inferInstanceAs (Decidable ((s.cctx c).stage = .switching))

def exec (s : Sched Core) : Action Core → Option (Sched Core)
  | .runScheduler c => runScheduler s c
  | .spawn addr => some (spawnThread s addr)
  | .wakeup addr => (wakeup s (.thread addr)).map Prod.fst
  | .sleep c state clock timeout => sleepReleasing s c state clock timeout
  | .yield c cause remaining clock => yield s c cause remaining clock
  | .gain c => gain s c

def system (Core : Type) [DecidableEq Core] : Machine (Sched Core) (Action Core) where
  start s := s = initializeScheduler Core
  enabled := Enabled
  exec := exec

instance (s : Sched Core) (a : Action Core) : Decidable ((system Core).enabled s a) :=
  inferInstanceAs (Decidable (Enabled s a))

end System
end KernelSched
