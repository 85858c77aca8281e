import TinyOS.Sched

/- The timer of each core over yield and gain of kernel_sched.c and the interrupts of bios.c: yield
   cancels it, gain sets it, and when it goes off the PIC raises ALARM, whose handler yields. What a
   thread is in the middle of is a stack, and the thread takes it along to the core that it runs on
   next. -/
namespace TimeSlices
open Transition KernelSched

/- In yield: at bios_cancel_timer, at its timer_settime for a core, at preempt_off, in the section
   of sched_spinlock, and switched out; in gain: at preempt_on, at bios_set_timer and at its
   timer_settime; and at the return. In dispatch_interrupts for a core, which the signal handler or
   cpu_core_halt has called: at the fetch and at the comparison of the cores. In cpu_core_halt: at
   sigwaitinfo and at its end. -/
inductive Frame (Core : Type) where
  | cancel
  | cancelOf (core : Core)
  | off
  | inside (preempt : Bool)
  | out (preempt : Bool)
  | on (preempt : Bool)
  | set
  | setOf (core : Core)
  | ret
  | look (core : Core) (halting : Bool)
  | compare (core : Core) (halting : Bool)
  | waits (core : Core)
  | unblock
  deriving DecidableEq, Repr

/- `timer` says whether a timer is armed, `expired` whether its SIGALRM is queued for the PIC, and
   `alarm` whether ALARM is pending. `enabled` is the signal mask of a thread, and `stack` what it
   is in, the innermost first. A core that has left idle_thread is `done`. The last is history: whether
   the timer has been cancelled by a thread on another core and not been set since. -/
structure Slices (Core : Type) where
  timer : Core → Bool
  expired : Core → Bool
  alarm : Core → Bool
  done : Core → Bool
  currentThread : Core → TcbRef Core
  enabled : TcbRef Core → Bool
  stack : TcbRef Core → List (Frame Core)
  lost : Core → Bool

/- `expire` is a timer that goes off and `raise` the PIC; `deliver` is a SIGUSR1, and `signal` one,
   or a failure, of sigwaitinfo. -/
inductive Action (Core : Type) where
  | expire (c : Core)
  | raise (c : Core)
  | deliver (c : Core)
  | call (c : Core)
  | preempt (c : Core) (on : Bool)
  | select (c : Core) (next : TcbRef Core)
  | halt (c : Core)
  | signal (c : Core) (got : Bool)
  | leave (c : Core)
  | step (c : Core)

section Steps
variable {Core : Type} [DecidableEq Core]

def Slices.goto (s : Slices Core) (t : TcbRef Core) (stack : List (Frame Core)) : Slices Core :=
  { s with stack := Function.update s.stack t stack }

def Slices.mask (s : Slices Core) (t : TcbRef Core) (enabled : Bool) : Slices Core :=
  { s with enabled := Function.update s.enabled t enabled }

def Slices.setTimer (s : Slices Core) (c : Core) (armed : Bool) : Slices Core :=
  { s with timer := Function.update s.timer c armed }

/- dispatch_interrupts ends. -/
def leaveLoop (s : Slices Core) (t : TcbRef Core) (halting : Bool) (rest : List (Frame Core)) :
    Slices Core :=
  if halting then s.goto t (.unblock :: rest) else (s.goto t rest).mask t true

/- intr_fetch_lowest; the handler of ALARM is yield, and the others neither yield nor set the
   timer. -/
def lookUp (s : Slices Core) (t : TcbRef Core) (core : Core) (halting : Bool)
    (rest : List (Frame Core)) : Slices Core :=
  if s.alarm core then
    { s.goto t (.cancel :: .compare core halting :: rest) with
      alarm := Function.update s.alarm core false }
  else leaveLoop s t halting rest

/- The next step of thread t on core c. -/
def threadStep (s : Slices Core) (c : Core) (t : TcbRef Core) : Option (Slices Core) :=
  match s.stack t with
  | [] | .inside _ :: _ | .out _ :: _ | .waits _ :: _ => none
  | .cancel :: rest => some (s.goto t (.cancelOf c :: rest))
  | .cancelOf core :: rest =>
    some
      { (s.goto t (.off :: rest)).setTimer core false with
        lost := Function.update s.lost core (decide (c ≠ core)) }
  | .off :: rest => some ((s.goto t (.inside (s.enabled t) :: rest)).mask t false)
  | .on preempt :: rest =>
    if preempt then some ((s.goto t (.set :: rest)).mask t true) else some (s.goto t (.set :: rest))
  | .set :: rest => some (s.goto t (.setOf c :: rest))
  | .setOf core :: rest =>
    some
      { (s.goto t (.ret :: rest)).setTimer core true with
        lost := Function.update s.lost core false }
  | .ret :: rest => some (s.goto t rest)
  | .look core halting :: rest => some (lookUp s t core halting rest)
  | .compare core halting :: rest =>
    if c = core then some (s.goto t (.look core halting :: rest))
    else some (leaveLoop s t halting rest)
  | .unblock :: rest => some ((s.goto t rest).mask t true)

/- The next thread is at the gain of its own yield, or of thread_start. -/
def switches (s : Slices Core) (c : Core) (t next : TcbRef Core) : Option (Slices Core) :=
  match s.stack t with
  | .inside preempt :: rest =>
    if next = t then some (s.goto t (.on preempt :: rest))
    else
      match s.stack next with
      | .out preempt' :: rest' =>
        some
          { (s.goto t (.out preempt :: rest)).goto next (.on preempt' :: rest') with
            currentThread := Function.update s.currentThread c next }
      | _ => none
  | _ => none

/- sigwaitinfo returns. -/
def signalled (s : Slices Core) (t : TcbRef Core) (got : Bool) : Option (Slices Core) :=
  match s.stack t with
  | .waits core :: rest => some (s.goto t ((if got then .look core true else .unblock) :: rest))
  | _ => none

def act (s : Slices Core) : Action Core → Option (Slices Core)
  | .expire c => some { s.setTimer c false with expired := Function.update s.expired c true }
  | .raise c =>
    some
      { s with
        expired := Function.update s.expired c false, alarm := Function.update s.alarm c true }
  | .deliver c =>
    let t := s.currentThread c
    some ((s.goto t (.look c false :: s.stack t)).mask t false)
  | .call c => some (s.goto (s.currentThread c) [.cancel])
  | .preempt c on => some (s.mask (s.currentThread c) on)
  | .select c next => switches s c (s.currentThread c) next
  | .halt c => some ((s.goto (s.currentThread c) [.waits c]).mask (s.currentThread c) false)
  | .signal c got => signalled s (s.currentThread c) got
  | .leave c => some { s.setTimer c false with done := Function.update s.done c true }
  | .step c => threadStep s c (s.currentThread c)

def Frame.Steps : Frame Core → Bool
  | .inside _ | .out _ | .waits _ => false
  | _ => true

def Frame.Out : Frame Core → Bool
  | .out _ => true
  | _ => false

def Frame.Inside : Frame Core → Bool
  | .inside _ => true
  | _ => false

def Frame.Waits : Frame Core → Bool
  | .waits _ => true
  | _ => false

/- A core selects its own idle thread or another one. -/
def Own (c : Core) : TcbRef Core → Bool
  | .idle d => d = c
  | .thread _ => true

def Enabled (s : Slices Core) : Action Core → Prop
  | .expire c => s.timer c = true
  | .raise c => s.expired c = true
  | .deliver c => s.done c = false ∧ s.enabled (s.currentThread c) = true
  | .call c => s.done c = false ∧ s.stack (s.currentThread c) = []
  | .preempt c _ => s.done c = false ∧ s.stack (s.currentThread c) = []
  | .select c next =>
    s.done c = false ∧ (s.stack (s.currentThread c)).head?.any Frame.Inside = true ∧
      (next = s.currentThread c ∨ Own c next = true ∧ (s.stack next).head?.any Frame.Out = true)
  | .halt c | .leave c =>
    s.done c = false ∧ s.currentThread c = .idle c ∧ s.stack (s.currentThread c) = []
  | .signal c _ => s.done c = false ∧ (s.stack (s.currentThread c)).head?.any Frame.Waits = true
  | .step c => s.done c = false ∧ (s.stack (s.currentThread c)).head?.any Frame.Steps = true

instance enabledDecidable (s : Slices Core) (a : Action Core) : Decidable (Enabled s a) :=
  match a with
  | .expire c => inferInstanceAs (Decidable (s.timer c = true))
  | .raise c => inferInstanceAs (Decidable (s.expired c = true))
  | .deliver _ => inferInstanceAs (Decidable (_ ∧ _))
  | .call _ | .preempt _ _ => inferInstanceAs (Decidable (_ ∧ _ = []))
  | .select _ _ => inferInstanceAs (Decidable (_ ∧ _ ∧ (_ ∨ _ ∧ _)))
  | .halt _ | .leave _ => inferInstanceAs (Decidable (_ ∧ _ ∧ _ = []))
  | .signal _ _ | .step _ => inferInstanceAs (Decidable (_ ∧ _))

/- Every core is at the first yield of idle_thread, and every thread at its thread_start. -/
def initial : Slices Core where
  timer _ := false
  expired _ := false
  alarm _ := false
  done _ := false
  currentThread c := .idle c
  enabled t := match t with | .idle _ => true | .thread _ => false
  stack t := match t with | .idle _ => [.cancel] | .thread _ => [.out true]
  lost _ := false

def sliceSystem : Machine (Slices Core) (Action Core) where
  start s := s = initial
  enabled := Enabled
  exec := act

instance sliceSystemDecidable (s : Slices Core) (a : Action Core) :
    Decidable (sliceSystem.enabled s a) := inferInstanceAs (Decidable (Enabled s a))

end Steps
end TimeSlices
