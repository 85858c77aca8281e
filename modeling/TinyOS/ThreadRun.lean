import TinyOS.ProcessLife
import TinyOS.StreamCounts
import TinyOS.ThreadCalls

/- Runs of all threads of all processes: they start processes and threads, join and detach each
   other, use streams and exit. `procs` holds the threads of each process, and a thread is named
   by its PTCB in the process table too. -/
namespace KernelThreads
open KernelStreams KernelProc Monitor Transition

structure ThreadRun (Task Obj Dev : Type) where
  files : FileRun Task Obj Dev
  procs : Pid → Threads Task

/- `exit` is Exit, with which the main thread also ends when its task returns; another thread
   whose task returns calls ThreadExit. `files` are the calls on streams and the reaping of a
   zombie by WaitChild. -/
inductive ThreadAction (Task Obj : Type) where
  | start (t : Thread)
  | exec (t : Thread) (call : Option Task) (argl : Int) (args : Option (List UInt8))
  | createThread (t : Thread) (task : Task) (argl : Int) (args : Option (List UInt8))
  | join (t : Thread) (tid : Option PtcbRef) (out : Bool)
  | resume (t : Thread)
  | detach (t : Thread) (tid : Option PtcbRef)
  | threadExit (t : Thread) (exitval : Int)
  | exit (t : Thread) (exitval : Int)
  | files (a : FileAction Task Obj)

section System
variable {Task Obj Dev : Type}

def ThreadRun.kernel (s : ThreadRun Task Obj Dev) : Kernel Task Obj Dev := s.files.kernel

def ThreadRun.setKernel (s : ThreadRun Task Obj Dev) (k : Kernel Task Obj Dev) :
    ThreadRun Task Obj Dev := { s with files := { s.files with kernel := k } }

def ThreadRun.setThreads (s : ThreadRun Task Obj Dev) (p : Pid) (threads : Threads Task) :
    ThreadRun Task Obj Dev := { s with procs := Function.update s.procs p threads }

@[simp] theorem set_kernel_kernel (s : ThreadRun Task Obj Dev) (k : Kernel Task Obj Dev) :
    (s.setKernel k).kernel = k := rfl

@[simp] theorem set_kernel_procs (s : ThreadRun Task Obj Dev) (k : Kernel Task Obj Dev) :
    (s.setKernel k).procs = s.procs := rfl

@[simp] theorem set_threads_kernel (s : ThreadRun Task Obj Dev) (p : Pid) (threads : Threads Task) :
    (s.setThreads p threads).kernel = s.kernel := rfl

@[simp] theorem set_threads_procs (s : ThreadRun Task Obj Dev) (p q : Pid) (threads : Threads Task) :
    (s.setThreads p threads).procs q = if q = p then threads else s.procs q := by
  simp only [ThreadRun.setThreads, Function.update_apply]

/- The thread runs in user code. -/
def ThreadRun.Idle (s : ThreadRun Task Obj Dev) (t : Thread) : Prop :=
  s.files.Idle t ∧ (s.procs t.1).started t.2 = true ∧ (s.procs t.1).calls t.2 = none

instance (s : ThreadRun Task Obj Dev) (t : Thread) : Decidable (s.Idle t) :=
  inferInstanceAs (Decidable (_ ∧ _))

/- A zombie is reaped by a thread of its parent. -/
def ThreadRun.Reapable (s : ThreadRun Task Obj Dev) (p : Pid) : Prop :=
  ((s.kernel.PT p).parent.map fun q => (s.kernel.PT q).threads).getD [] ≠ []

instance (s : ThreadRun Task Obj Dev) (p : Pid) : Decidable (s.Reapable p) :=
  inferInstanceAs (Decidable (_ ≠ _))

/- Who may make a call on streams. Exec and the calls on threads have their own actions. -/
def ThreadRun.Caller (s : ThreadRun Task Obj Dev) : FileAction Task Obj → Prop
  | .exec .. | .createThread .. | .threadExit .. => False
  | .reap p => s.Reapable p
  | .endTransfer .. => True
  | .startTransfer t _ | .close t _ | .dup2 t _ _ | .openDevice t _ | .openInfo t _ | .pipe t _ _
  | .socket t _ _ | .accept t _ _ => s.Idle t

instance (s : ThreadRun Task Obj Dev) (a : FileAction Task Obj) : Decidable (s.Caller a) :=
  match a with
  | .exec .. | .createThread .. | .threadExit .. => instDecidableFalse
  | .reap p => inferInstanceAs (Decidable (s.Reapable p))
  | .endTransfer .. => instDecidableTrue
  | .startTransfer t _ | .close t _ | .dup2 t _ _ | .openDevice t _ | .openInfo t _ | .pipe t _ _
  | .socket t _ _ | .accept t _ _ => inferInstanceAs (Decidable (s.Idle t))

/- Exit of init goes on to ThreadExit when WaitChild has found no child any more. -/
def ThreadEnabled (s : ThreadRun Task Obj Dev) : ThreadAction Task Obj → Prop
  | .start t => t.2 ∈ (s.kernel.PT t.1).threads ∧ (s.procs t.1).started t.2 = false
  | .exec t _ _ _ | .createThread t _ _ _ | .join t _ _ | .detach t _ | .threadExit t _ => s.Idle t
  | .resume t => ((s.procs t.1).waits.woken t.2).isSome
  | .exit t _ => s.Idle t ∧ (t.1 = initpcb → (s.kernel.PT t.1).childrenList = [])
  | .files a => FileEnabled s.files a ∧ s.Caller a

instance (s : ThreadRun Task Obj Dev) (a : ThreadAction Task Obj) : Decidable (ThreadEnabled s a) :=
  match a with
  | .start t => inferInstanceAs (Decidable
      (t.2 ∈ (s.kernel.PT t.1).threads ∧ (s.procs t.1).started t.2 = false))
  | .exec t _ _ _ | .createThread t _ _ _ | .join t _ _ | .detach t _ | .threadExit t _ =>
    inferInstanceAs (Decidable (s.Idle t))
  | .resume t => inferInstanceAs (Decidable ((s.procs t.1).waits.woken t.2).isSome)
  | .exit t _ => inferInstanceAs (Decidable
      (s.Idle t ∧ (t.1 = initpcb → (s.kernel.PT t.1).childrenList = [])))
  | .files a => inferInstanceAs (Decidable (FileEnabled s.files a ∧ s.Caller a))

/- The threads of a process that Exec has made. -/
def execThreads (s : Threads Task) (call : Option Task) (argl : Int)
    (args : Option (List UInt8)) : Threads Task :=
  match call with
  | none => s.renew
  | some task => createMainPTCB s.renew task argl (args.map (List.take argl.toNat))

/- sys_ThreadExit, with what it does to the process and what it does to the PTCBs. -/
def exitThread (ops : FileOps Obj Dev) (s : ThreadRun Task Obj Dev) (t : Thread) (exitval : Int) :
    Option (ThreadRun Task Obj Dev) :=
  let last := decide (((leaveProcess s.kernel t.1 t.2).PT t.1).threadCount = 0)
  (sysThreadExit ops s.kernel t.1 t.2).map fun k =>
    (s.setKernel k).setThreads t.1 (exitPTCB (s.procs t.1) t.2 exitval last)

def threadExec (ops : FileOps Obj Dev) (s : ThreadRun Task Obj Dev) :
    ThreadAction Task Obj → Option (ThreadRun Task Obj Dev)
  | .start t => some (s.setThreads t.1 (threadExe (s.procs t.1) t.2).2)
  | .exec t call argl args =>
    match sysExec s.kernel t.1 call argl args with
    | (none, k) => some (s.setKernel k)
    | (some new, k) =>
      some ((s.setKernel k).setThreads new (execThreads (s.procs new) call argl args))
  | .createThread t task argl args =>
    let (tid, threads) := createPTCB (s.procs t.1) task argl args
    some ((s.setKernel (sysCreateThread s.kernel t.1 tid)).setThreads t.1 threads)
  | .join t tid out => some (s.setThreads t.1 (sysThreadJoin (s.procs t.1) t.2 tid out).2)
  | .resume t => (resumeJoin (s.procs t.1) t.2).map fun r => s.setThreads t.1 r.2
  | .detach t tid => some (s.setThreads t.1 (sysThreadDetach (s.procs t.1) tid).2)
  | .threadExit t exitval => exitThread ops s t exitval
  | .exit t exitval =>
    exitThread ops (s.setKernel (s.kernel.modify t.1 ({ · with exitval := exitval }))) t exitval
  | .files a => (fileExec ops s.files a).map fun files => { s with files := files }

/- Before any thread is made; memory is what xmalloc finds. -/
def noThreads (memory : PTCB Task) : Threads Task :=
  { ptcbs := fun _ => memory
    nextPtcb := 0
    ptcbList := []
    waits := Waits.empty PtcbRef PtcbRef
    calls := fun _ => none
    started := fun _ => false
    passed := fun _ => none
    frees := fun _ => 0
    faults := [] }

/- After boot. -/
def bootedThreads (blank : Obj) (device : Dev) (memory : PTCB Task) (task : Task) (argl : Int)
    (args : Option (List UInt8)) : ThreadRun Task Obj Dev :=
  { files := { kernel := boot (initializeFiles blank device) task argl args, inUse := [] }
    procs := Function.update (fun _ => noThreads memory) initpcb
      (execThreads (noThreads memory) (some task) argl args) }

def threadSystem (Task : Type) (ops : FileOps Obj Dev) :
    Machine (ThreadRun Task Obj Dev) (ThreadAction Task Obj) where
  start s := ∃ blank device memory task argl args,
    s = bootedThreads blank device memory task argl args
  enabled := ThreadEnabled
  exec := threadExec ops

instance (ops : FileOps Obj Dev) (s : ThreadRun Task Obj Dev) (a : ThreadAction Task Obj) :
    Decidable ((threadSystem Task ops).enabled s a) :=
  inferInstanceAs (Decidable (ThreadEnabled s a))

end System
end KernelThreads
