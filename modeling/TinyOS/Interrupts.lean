import TinyOS.Bits
import TinyOS.Transition

/- Interrupts of bios.c: the pending vector of each core, the SIGUSR1 that makes a core look at it,
   the loop of dispatch_interrupts, and the vector of halted cores. There is a step for each access
   to what the threads of the machine share. A thread is a context of cpu_swap_context: it takes its
   signal mask and a dispatch_interrupts it is in along to the core that it runs on next. -/
namespace Bios
open Transition

inductive Interrupt where
  | ici | alarm | serialRxReady | serialTxReady
  deriving DecidableEq, Repr

def maxCores : Nat := 32

def Interrupt.number : Interrupt → Nat
  | .ici => 0
  | .alarm => 1
  | .serialRxReady => 2
  | .serialTxReady => 3

def interruptOf : Nat → Option Interrupt
  | 0 => some .ici
  | 1 => some .alarm
  | 2 => some .serialRxReady
  | 3 => some .serialTxReady
  | _ => none

/- In dispatch_interrupts: at the load of the pending vector, at the exchange for one without the
   lowest bit, at the call of the handler, in the handler, at the comparison of the cores, and past
   the loop. -/
inductive Loop where
  | look
  | exchange (ipvec : BitVec 32)
  | call (irq : Interrupt)
  | handler (irq : Interrupt)
  | compare
  | done
  deriving DecidableEq, Repr

/- `dispatch` is called by the signal handler or by cpu_core_halt, for a core; the last four are the
   statements of cpu_core_halt around it. -/
inductive Place (n : Nat) where
  | code
  | dispatch (core : Fin n) (halting : Bool) (loop : Loop)
  | setHalt (core : Fin n)
  | waitSignal (core : Fin n)
  | clearHalt (core : Fin n)
  | unblock (core : Fin n)
  deriving DecidableEq, Repr

/- `usr1` counts the SIGUSR1 that are pending for the thread of a core, and `blocked` is the signal
   mask. `owed` are the calls of interrupt_core that a thread has yet to make, the next one first,
   and `picOwed` is the one of the PIC daemon. The fields from `irqRaised` on are history: the
   counter of raise_interrupt, what each core has taken from its vector and what the vector was, and
   whether a dispatch_interrupts for the core has ended on another core. -/
structure Vm (n : Nat) (Thread : Type) where
  intrPending : Fin n → BitVec 32
  intvec : Fin n → Interrupt → Bool
  usr1 : Fin n → Nat
  haltVector : BitVec 32
  running : Fin n → Thread
  blocked : Thread → Bool
  place : Thread → Place n
  owed : Thread → List (Fin n)
  picOwed : Option (Fin n)
  irqRaised : Fin n → Interrupt → Nat
  taken : Fin n → List (Interrupt × BitVec 32)
  left : Fin n → Bool

inductive Action (n : Nat) (Thread : Type) where
  | picRaise (core : Fin n) (intno : Interrupt)
  | picSend (merged : Bool)
  | ici (c core : Fin n)
  | restart (c core : Fin n)
  | send (c : Fin n) (merged : Bool)
  | disable (c : Fin n)
  | enable (c : Fin n)
  | install (c : Fin n) (interrupt : Interrupt) (present : Bool)
  | switch (c : Fin n) (next : Thread)
  | deliver (c : Fin n)
  | halt (c : Fin n)
  | eintr (c : Fin n)
  | step (c : Fin n)

section Steps
variable {n : Nat} {Thread : Type}

/- A SIGUSR1 may be merged with one that is pending. -/
def queueSignal (pending : Nat) (merged : Bool) : Nat :=
  if merged = true ∧ pending ≠ 0 then pending else pending + 1

/- raise_interrupt up to interrupt_core, and whether it calls it. -/
def raiseInterrupt (s : Vm n Thread) (core : Fin n) (intno : Interrupt) : Vm n Thread × Bool :=
  let old := s.intrPending core
  let s := { s with
    intrPending := Function.update s.intrPending core (Bits.set old intno.number) }
  if Bits.test old intno.number then (s, false)
  else
    let raised := Function.update (s.irqRaised core) intno (s.irqRaised core intno + 1)
    ({ s with irqRaised := Function.update s.irqRaised core raised }, true)

def interruptCore (s : Vm n Thread) (core : Fin n) (merged : Bool) : Vm n Thread :=
  { s with usr1 := Function.update s.usr1 core (queueSignal (s.usr1 core) merged) }

variable [DecidableEq Thread]

def Vm.goto (s : Vm n Thread) (t : Thread) (place : Place n) : Vm n Thread :=
  { s with place := Function.update s.place t place }

def Vm.owe (s : Vm n Thread) (t : Thread) (core : Fin n) : Vm n Thread :=
  { s with owed := Function.update s.owed t (core :: s.owed t) }

/- __core_restart up to interrupt_core. -/
def coreRestart (s : Vm n Thread) (t : Thread) (core : Fin n) : Vm n Thread :=
  let prevhv := s.haltVector
  let s := { s with haltVector := Bits.clear prevhv core }
  if Bits.test prevhv core then s.owe t core else s

/- A pass of intr_fetch_lowest in thread t, for the vector ipvec that it holds. -/
def fetchLowest (s : Vm n Thread) (t : Thread) (core : Fin n) (halting : Bool)
    (ipvec : BitVec 32) : Option (Vm n Thread) := do
  let irq ← interruptOf (Bits.lowest ipvec)
  if s.intrPending core = ipvec then
    some { s.goto t (.dispatch core halting (.call irq)) with
      intrPending := Function.update s.intrPending core (Bits.clear ipvec irq.number)
      taken := Function.update s.taken core (s.taken core ++ [(irq, ipvec)]) }
  else if s.intrPending core = 0 then some (s.goto t (.dispatch core halting .done))
  else some (s.goto t (.dispatch core halting (.exchange (s.intrPending core))))

/- The next step of thread t, which runs on core c, in dispatch_interrupts. -/
def dispatchStep (s : Vm n Thread) (c : Fin n) (t : Thread) (core : Fin n) (halting : Bool) :
    Loop → Option (Vm n Thread)
  | .look =>
    some (s.goto t (.dispatch core halting
      (if s.intrPending core = 0 then .done else .exchange (s.intrPending core))))
  | .exchange ipvec => fetchLowest s t core halting ipvec
  | .call irq =>
    some (s.goto t (.dispatch core halting (if s.intvec core irq then .handler irq else .compare)))
  | .handler _ => some (s.goto t (.dispatch core halting .compare))
  | .compare =>
    if c = core then some (s.goto t (.dispatch core halting .look))
    else some { s.goto t (.dispatch core halting .done) with
      left := Function.update s.left core true }
  | .done =>
    if halting then some (s.goto t (.clearHalt core))
    else some { s.goto t .code with blocked := Function.update s.blocked t false }

def threadStep (s : Vm n Thread) (c : Fin n) (t : Thread) : Option (Vm n Thread) :=
  match s.place t with
  | .code => none
  | .dispatch core halting loop => dispatchStep s c t core halting loop
  | .setHalt core =>
    some { s.goto t (.waitSignal core) with haltVector := Bits.set s.haltVector core }
  | .waitSignal core =>
    some { s.goto t (.dispatch core true .look) with
      usr1 := Function.update s.usr1 c (s.usr1 c - 1) }
  | .clearHalt core =>
    some { s.goto t (.unblock core) with haltVector := Bits.clear s.haltVector core }
  | .unblock _ => some { s.goto t .code with blocked := Function.update s.blocked t false }

def act (s : Vm n Thread) : Action n Thread → Option (Vm n Thread)
  | .picRaise core intno =>
    let (s, send) := raiseInterrupt s core intno
    some (if send then { s with picOwed := some core } else s)
  | .picSend merged => do
    let core ← s.picOwed
    some (interruptCore { s with picOwed := none } core merged)
  | .ici c core =>
    let t := s.running c
    let (s, send) := raiseInterrupt s core .ici
    some (if send then s.owe t core else s)
  | .restart c core => some (coreRestart s (s.running c) core)
  | .send c merged =>
    let t := s.running c
    match s.owed t with
    | [] => none
    | core :: rest =>
      some (interruptCore { s with owed := Function.update s.owed t rest } core merged)
  | .disable c => some { s with blocked := Function.update s.blocked (s.running c) true }
  | .enable c => some { s with blocked := Function.update s.blocked (s.running c) false }
  | .install c interrupt present =>
    some { s with
      intvec := Function.update s.intvec c (Function.update (s.intvec c) interrupt present) }
  | .switch c next => some { s with running := Function.update s.running c next }
  | .deliver c =>
    if s.place (s.running c) = .code then
      some { s.goto (s.running c) (.dispatch c false .look) with
        blocked := Function.update s.blocked (s.running c) true
        usr1 := Function.update s.usr1 c (s.usr1 c - 1) }
    else none
  | .halt c =>
    some { s.goto (s.running c) (.setHalt c) with
      blocked := Function.update s.blocked (s.running c) true }
  | .eintr c =>
    match s.place (s.running c) with
    | .waitSignal core => some (s.goto (s.running c) (.clearHalt core))
    | _ => none
  | .step c => threadStep s c (s.running c)

def Place.Free : Place n → Bool
  | .code | .dispatch _ _ (.handler _) => true
  | .dispatch _ _ .look | .dispatch _ _ (.exchange _) | .dispatch _ _ (.call _)
  | .dispatch _ _ .compare | .dispatch _ _ .done | .setHalt _ | .waitSignal _ | .clearHalt _
  | .unblock _ => false

def Place.Waiting : Place n → Bool
  | .waitSignal _ => true
  | .code | .dispatch _ _ _ | .setHalt _ | .clearHalt _ | .unblock _ => false

/- The scheduler switches with SIGUSR1 blocked, to a thread that no core runs, and to an idle thread
   on its own core only; only idle threads halt. A thread may do more before it makes a call of
   interrupt_core that it owes. -/
def Enabled (idle : Fin n → Thread) (s : Vm n Thread) : Action n Thread → Prop
  | .picRaise _ _ => s.picOwed = none
  | .picSend _ => s.picOwed ≠ none
  | .ici c _ | .restart c _ => (s.place (s.running c)).Free = true
  | .send c _ => s.owed (s.running c) ≠ []
  | .disable c | .enable c | .install c _ _ => s.place (s.running c) = .code
  | .switch c next =>
    (s.place (s.running c)).Free = true ∧ s.blocked (s.running c) = true ∧
      (∀ d, s.running d ≠ next) ∧ ∀ d, next = idle d → c = d
  | .deliver c => s.blocked (s.running c) = false ∧ 0 < s.usr1 c
  | .halt c => s.place (s.running c) = .code ∧ s.running c = idle c
  | .eintr c => (s.place (s.running c)).Waiting = true
  | .step c =>
    s.place (s.running c) ≠ .code ∧ ((s.place (s.running c)).Waiting = true → 0 < s.usr1 c)

instance vmEnabledDecidable (idle : Fin n → Thread) (s : Vm n Thread) (a : Action n Thread) :
    Decidable (Enabled idle s a) :=
  match a with
  | .picRaise _ _ => inferInstanceAs (Decidable (s.picOwed = none))
  | .picSend _ => inferInstanceAs (Decidable (s.picOwed ≠ none))
  | .ici c _ | .restart c _ => inferInstanceAs (Decidable ((s.place (s.running c)).Free = true))
  | .send c _ => inferInstanceAs (Decidable (s.owed (s.running c) ≠ []))
  | .disable c | .enable c | .install c _ _ =>
    inferInstanceAs (Decidable (s.place (s.running c) = .code))
  | .switch c next =>
    inferInstanceAs (Decidable ((s.place (s.running c)).Free = true ∧
      s.blocked (s.running c) = true ∧ (∀ d, s.running d ≠ next) ∧ ∀ d, next = idle d → c = d))
  | .deliver c => inferInstanceAs (Decidable (s.blocked (s.running c) = false ∧ 0 < s.usr1 c))
  | .halt c =>
    inferInstanceAs (Decidable (s.place (s.running c) = .code ∧ s.running c = idle c))
  | .eintr c => inferInstanceAs (Decidable ((s.place (s.running c)).Waiting = true))
  | .step c =>
    inferInstanceAs (Decidable (s.place (s.running c) ≠ .code ∧
      ((s.place (s.running c)).Waiting = true → 0 < s.usr1 c)))

/- Each core runs its idle thread. A thread starts with all signals blocked, a core with SIGUSR1
   alone not blocked. -/
def initial (idle : Fin n → Thread) : Vm n Thread where
  intrPending _ := 0
  intvec _ _ := false
  usr1 _ := 0
  haltVector := 0
  running := idle
  blocked t := decide (∀ c, t ≠ idle c)
  place _ := .code
  owed _ := []
  picOwed := none
  irqRaised _ _ := 0
  taken _ := []
  left _ := false

def vmSystem (idle : Fin n → Thread) : Machine (Vm n Thread) (Action n Thread) where
  start s := s = initial idle
  enabled := Enabled idle
  exec := act

instance vmSystemDecidable (idle : Fin n → Thread) (s : Vm n Thread) (a : Action n Thread) :
    Decidable ((vmSystem idle).enabled s a) := inferInstanceAs (Decidable (Enabled idle s a))

end Steps
end Bios
