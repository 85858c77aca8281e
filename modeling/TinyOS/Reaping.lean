import TinyOS.Tally
import TinyOS.Transition
import TinyOS.TreeInvariant

/- Runs of threads that start processes, wait for them and exit, interleaved at the sleeps of
   WaitChild. `incarnation` counts how often a pid has been given to a process and `reaps` logs
   which call cleaned up which incarnation and returned its pid. -/
namespace KernelProc
open KernelStreams Transition

inductive WaitTarget where
  | any
  | child (c : Pid)
  deriving DecidableEq

structure Reap where
  thread : Thread
  pid : Pid
  incarnation : Nat
  status : Option Int
  deriving DecidableEq

structure ProcRun (Task Obj Dev : Type) where
  kernel : Kernel Task Obj Dev
  calls : Thread → Option WaitTarget
  incarnation : Pid → Nat
  reaps : List Reap

inductive ProcAction (Task : Type) where
  | exec (t : Thread) (call : Option Task) (argl : Int) (args : Option (List UInt8))
  | createThread (t : Thread) (tid : Tid)
  | waitChild (t : Thread) (cpid : Int)
  | resume (t : Thread)
  | exit (t : Thread) (exitval : Int)
  | threadExit (t : Thread)

section System
variable {Task Obj Dev : Type}

/- The thread runs in user code. -/
def ProcRun.Idle (s : ProcRun Task Obj Dev) (t : Thread) : Prop :=
  t.2 ∈ (s.kernel.PT t.1).threads ∧ s.calls t = none

instance (s : ProcRun Task Obj Dev) (t : Thread) : Decidable (s.Idle t) :=
  inferInstanceAs (Decidable (_ ∧ _))

/- Exit of init is a loop of WaitChild followed by ThreadExit; when its last thread has left
   there is nothing more to run. -/
def ProcEnabled (s : ProcRun Task Obj Dev) : ProcAction Task → Prop
  | .exec t _ _ _ => s.Idle t
  | .createThread t tid => s.Idle t ∧ tid ∉ (s.kernel.PT t.1).threads
  | .waitChild t _ => s.Idle t
  | .resume t => s.calls t ≠ none ∧ s.kernel.waits.woken t ≠ none
  | .exit t _ => s.Idle t ∧ t.1 ≠ initpcb
  | .threadExit t => s.Idle t ∧ (t.1 = initpcb → (s.kernel.PT t.1).threadCount ≠ 1)

instance (s : ProcRun Task Obj Dev) (a : ProcAction Task) : Decidable (ProcEnabled s a) :=
  match a with
  | .exec t _ _ _ => inferInstanceAs (Decidable (s.Idle t))
  | .createThread t tid =>
    inferInstanceAs (Decidable (s.Idle t ∧ tid ∉ (s.kernel.PT t.1).threads))
  | .waitChild t _ => inferInstanceAs (Decidable (s.Idle t))
  | .resume t => inferInstanceAs (Decidable (s.calls t ≠ none ∧ s.kernel.waits.woken t ≠ none))
  | .exit t _ => inferInstanceAs (Decidable (s.Idle t ∧ t.1 ≠ initpcb))
  | .threadExit t => inferInstanceAs (Decidable
      (s.Idle t ∧ (t.1 = initpcb → (s.kernel.PT t.1).threadCount ≠ 1)))

/- A section of WaitChild has ended. -/
def ProcRun.settle (s : ProcRun Task Obj Dev) (t : Thread) (target : WaitTarget)
    (result : WaitResult × Kernel Task Obj Dev) : ProcRun Task Obj Dev :=
  match result with
  | (.asleep, k) => { s with kernel := k, calls := Function.update s.calls t (some target) }
  | (.returned none _, k) => { s with kernel := k, calls := Function.update s.calls t none }
  | (.returned (some c) status, k) =>
    { s with
      kernel := k
      calls := Function.update s.calls t none
      reaps := s.reaps ++ [{ thread := t, pid := c, incarnation := s.incarnation c,
                             status := status }] }

def procExec (ops : FileOps Obj Dev) (s : ProcRun Task Obj Dev) :
    ProcAction Task → Option (ProcRun Task Obj Dev)
  | .exec t call argl args =>
    match sysExec s.kernel t.1 call argl args with
    | (none, k) => some { s with kernel := k }
    | (some new, k) =>
      some { s with
        kernel := k
        incarnation := Function.update s.incarnation new (s.incarnation new + 1) }
  | .createThread t tid => some { s with kernel := sysCreateThread s.kernel t.1 tid }
  | .waitChild t cpid =>
    if cpid ≠ -1 then
      some (s.settle t (.child (Fin.ofNat maxProc cpid.toNat))
        (waitForSpecificChild s.kernel t cpid))
    else (waitForAnyChild s.kernel t).map (s.settle t .any)
  | .resume t =>
    let k := { s.kernel with waits := s.kernel.waits.resume t }
    match s.calls t with
    | none => none
    | some (.child c) => some (s.settle t (.child c) (waitForSpecificLoop k t c))
    | some .any => (waitForAnyChild k t).map (s.settle t .any)
  | .exit t exitval => (sysExit ops s.kernel t.1 t.2 exitval).map ({ s with kernel := · })
  | .threadExit t => (sysThreadExit ops s.kernel t.1 t.2).map ({ s with kernel := · })

/- After boot, with the idle process and init. -/
def booted (files : Files Obj Dev) (task : Task) (argl : Int) (args : Option (List UInt8)) :
    ProcRun Task Obj Dev :=
  { kernel := boot files task argl args
    calls := fun _ => none
    incarnation := fun p => if p.val ≤ 1 then 1 else 0
    reaps := [] }

def procSystem (Task : Type) (ops : FileOps Obj Dev) :
    Machine (ProcRun Task Obj Dev) (ProcAction Task) where
  start s := ∃ files task argl args, s = booted files task argl args
  enabled := ProcEnabled
  exec := procExec ops

instance (ops : FileOps Obj Dev) (s : ProcRun Task Obj Dev) (a : ProcAction Task) :
    Decidable ((procSystem Task ops).enabled s a) :=
  inferInstanceAs (Decidable (ProcEnabled s a))

end System
end KernelProc
