import TinyOS.FreeList
import TinyOS.Monitor
import TinyOS.Streams

/- The process table of kernel_proc.c and the part of kernel_threads.c that ends a process.
   The intrusive lists are lists of pids: a node is pushed where it is in no list, and is
   removed from whichever list holds it. Each function is one section between kernel waits. -/
namespace KernelProc
open KernelStreams

abbrev maxProc : Nat := 65536
abbrev Pid := Fin maxProc
/- A thread within its process; 0 is the thread Exec starts. -/
abbrev Tid := Nat
abbrev Thread := Pid × Tid

inductive PidState where
  | free | alive | zombie
  deriving DecidableEq, Repr

/- `threads` are the threads whose owner_pcb this is and which have not exited. -/
structure PCB (Task : Type) where
  pstate : PidState
  parent : Option Pid
  exitval : Int
  mainTask : Option Task
  argl : Int
  args : Option (List UInt8)
  childrenList : List Pid
  exitedList : List Pid
  FIDT : Fid → Option FcbRef
  threadCount : Int
  threads : List Tid

/- `waits` holds the threads asleep on child_exit of each PCB. -/
structure Kernel (Task Obj Dev : Type) where
  PT : Pid → PCB Task
  pcbFreelist : Option Pid
  processCount : UInt32
  files : Files Obj Dev
  waits : Monitor.Waits Thread Pid

def initpcb : Pid := 1

section Operations
variable {Task Obj Dev : Type}

def Kernel.modify (k : Kernel Task Obj Dev) (p : Pid) (f : PCB Task → PCB Task) :
    Kernel Task Obj Dev :=
  { k with PT := Function.update k.PT p (f (k.PT p)) }

def initialPCB (Task : Type) (next : Option Pid) : PCB Task :=
  { pstate := .free, parent := next, exitval := 0, mainTask := none, argl := 0, args := none
    childrenList := [], exitedList := [], FIDT := fun _ => none, threadCount := 0, threads := [] }

def initializeProcesses (Task : Type) (files : Files Obj Dev) : Kernel Task Obj Dev :=
  { PT := fun p => initialPCB Task
      (if h : p.val + 1 < maxProc then some ⟨p.val + 1,h⟩ else none)
    pcbFreelist := some 0
    processCount := 0
    files := files
    waits := Monitor.Waits.empty Thread Pid }

def acquirePCB (k : Kernel Task Obj Dev) : Option (Pid × Kernel Task Obj Dev) :=
  match k.pcbFreelist with
  | none => none
  | some p =>
    let k := k.modify p ({ · with pstate := .alive })
    some (p, { k with pcbFreelist := (k.PT p).parent, processCount := k.processCount + 1 })

def releasePCB (k : Kernel Task Obj Dev) (p : Pid) : Kernel Task Obj Dev :=
  let k := k.modify p ({ · with pstate := .free, parent := k.pcbFreelist })
  { k with pcbFreelist := some p, processCount := k.processCount - 1 }

def setFid (k : Kernel Task Obj Dev) (cur : Pid) (i : Fid) (v : Option FcbRef) :
    Kernel Task Obj Dev :=
  k.modify cur fun b => { b with FIDT := Function.update b.FIDT i v }

def inheritFid (cur new : Pid) (k : Kernel Task Obj Dev) (i : Fid) : Kernel Task Obj Dev :=
  let fcb := (k.PT cur).FIDT i
  let k := setFid k new i fcb
  match fcb with
  | none => k
  | some f => { k with files := fcbIncref k.files f }

def inheritFIDT (k : Kernel Task Obj Dev) (cur new : Pid) : Kernel Task Obj Dev :=
  (List.finRange maxFileid).foldl (inheritFid cur new) k

def attachChild (k : Kernel Task Obj Dev) (cur new : Pid) : Kernel Task Obj Dev :=
  if new.val ≤ 1 then k.modify new ({ · with parent := none })
  else
    let k := k.modify new ({ · with parent := some cur })
    let k := k.modify cur fun b => { b with childrenList := new :: b.childrenList }
    inheritFIDT k cur new

def setProgram (k : Kernel Task Obj Dev) (new : Pid) (call : Option Task) (argl : Int)
    (args : Option (List UInt8)) : Kernel Task Obj Dev :=
  k.modify new ({ · with mainTask := call, argl := argl, args := args.map (List.take argl.toNat) })

def startMainThread (k : Kernel Task Obj Dev) (new : Pid) (call : Option Task) :
    Kernel Task Obj Dev :=
  match call with
  | none => k
  | some _ => k.modify new fun b =>
      { b with threadCount := b.threadCount + 1, threads := b.threads ++ [0] }

def sysExec (k : Kernel Task Obj Dev) (cur : Pid) (call : Option Task) (argl : Int)
    (args : Option (List UInt8)) : Option Pid × Kernel Task Obj Dev :=
  match acquirePCB k with
  | none => (none, k)
  | some (new, k) =>
    let k := setProgram (attachChild k cur new) new call argl args
    (some new, startMainThread k new call)

def sysCreateThread (k : Kernel Task Obj Dev) (cur : Pid) (tid : Tid) : Kernel Task Obj Dev :=
  k.modify cur fun b =>
    { b with threadCount := b.threadCount + 1, threads := b.threads ++ [tid] }

def unlinkChild (k : Kernel Task Obj Dev) (p : Pid) : Kernel Task Obj Dev :=
  { k with PT := fun q =>
      { k.PT q with
        childrenList := (k.PT q).childrenList.erase p
        exitedList := (k.PT q).exitedList.erase p } }

def cleanupZombie (k : Kernel Task Obj Dev) (p : Pid) : Int × Kernel Task Obj Dev :=
  ((k.PT p).exitval, releasePCB (unlinkChild k p) p)

/- How a section of WaitChild ends: asleep on child_exit, or with the pid (none is NOPROC) and
   the status it returns. -/
inductive WaitResult where
  | asleep
  | returned (cpid : Option Pid) (status : Option Int)

def waitForSpecificLoop (k : Kernel Task Obj Dev) (thread : Thread) (child : Pid) :
    WaitResult × Kernel Task Obj Dev :=
  if (k.PT child).pstate = .alive then
    (.asleep, { k with waits := k.waits.wait thread.1 thread })
  else
    let (status, k) := cleanupZombie k child
    (.returned (some child) (some status), k)

def waitForSpecificChild (k : Kernel Task Obj Dev) (thread : Thread) (cpid : Int) :
    WaitResult × Kernel Task Obj Dev :=
  if legal : 0 ≤ cpid ∧ cpid < maxProc then
    let child : Pid := ⟨cpid.toNat,by omega⟩
    if (k.PT child).pstate = .free ∨ (k.PT child).parent ≠ some thread.1 then
      (.returned none none, k)
    else waitForSpecificLoop k thread child
  else (.returned none none, k)

/- none is the failing assertion. -/
def waitForAnyChild (k : Kernel Task Obj Dev) (thread : Thread) :
    Option (WaitResult × Kernel Task Obj Dev) :=
  if (k.PT thread.1).childrenList = [] then some (.returned none none, k)
  else
    match (k.PT thread.1).exitedList with
    | [] => some (.asleep, { k with waits := k.waits.wait thread.1 thread })
    | child :: _ =>
      if (k.PT child).pstate = .zombie then
        let (status, k) := cleanupZombie k child
        some (.returned (some child) (some status), k)
      else none

def broadcast (k : Kernel Task Obj Dev) (p : Pid) : Kernel Task Obj Dev :=
  { k with waits := k.waits.broadcast p }

def reparentLoop (cur : Pid) : List Pid → Kernel Task Obj Dev → Kernel Task Obj Dev
  | [], k => k
  | child :: rest, k =>
    let k := k.modify cur ({ · with childrenList := rest })
    let k := k.modify child ({ · with parent := some initpcb })
    let k := k.modify initpcb fun b => { b with childrenList := child :: b.childrenList }
    reparentLoop cur rest k

def appendExited (k : Kernel Task Obj Dev) (cur : Pid) : Kernel Task Obj Dev :=
  if (k.PT cur).exitedList = [] then k
  else
    let exited := (k.PT cur).exitedList
    let k := k.modify initpcb fun b => { b with exitedList := b.exitedList ++ exited }
    broadcast (k.modify cur ({ · with exitedList := [] })) initpcb

/- Into the exited list of the parent; a NULL parent would be dereferenced. -/
def joinExited (k : Kernel Task Obj Dev) (cur : Pid) : Option (Kernel Task Obj Dev) := do
  let parent ← (k.PT cur).parent
  some (broadcast (k.modify parent fun b => { b with exitedList := cur :: b.exitedList }) parent)

def clearFid (ops : FileOps Obj Dev) (cur : Pid) (k : Kernel Task Obj Dev) (i : Fid) :
    Kernel Task Obj Dev :=
  match (k.PT cur).FIDT i with
  | none => k
  | some f => setFid { k with files := (fcbDecref ops k.files f).2 } cur i none

def clearFIDT (ops : FileOps Obj Dev) (k : Kernel Task Obj Dev) (cur : Pid) :
    Kernel Task Obj Dev :=
  (List.finRange maxFileid).foldl (clearFid ops cur) k

def leaveTree (k : Kernel Task Obj Dev) (cur : Pid) : Option (Kernel Task Obj Dev) :=
  if cur ≠ initpcb then
    joinExited (appendExited (reparentLoop cur (k.PT cur).childrenList k) cur) cur
  else some k

def cleanupProcess (ops : FileOps Obj Dev) (k : Kernel Task Obj Dev) (cur : Pid) :
    Kernel Task Obj Dev :=
  let k := clearFIDT ops (k.modify cur ({ · with args := none })) cur
  k.modify cur ({ · with pstate := .zombie })

/- What sys_ThreadExit does once no thread is left; none is a failing assertion. -/
def exitProcess (ops : FileOps Obj Dev) (k : Kernel Task Obj Dev) (cur : Pid) :
    Option (Kernel Task Obj Dev) := do
  let k ← leaveTree k cur
  if (k.PT cur).childrenList = [] ∧ (k.PT cur).exitedList = [] then
    some (cleanupProcess ops k cur)
  else none

def leaveProcess (k : Kernel Task Obj Dev) (cur : Pid) (tid : Tid) : Kernel Task Obj Dev :=
  k.modify cur fun b =>
    { b with threadCount := b.threadCount - 1, threads := b.threads.erase tid }

def sysThreadExit (ops : FileOps Obj Dev) (k : Kernel Task Obj Dev) (cur : Pid) (tid : Tid) :
    Option (Kernel Task Obj Dev) :=
  let k := leaveProcess k cur tid
  if (k.PT cur).threadCount = 0 then exitProcess ops k cur else some k

/- sys_Exit of a process other than init, which first waits for all its children. -/
def sysExit (ops : FileOps Obj Dev) (k : Kernel Task Obj Dev) (cur : Pid) (tid : Tid)
    (exitval : Int) : Option (Kernel Task Obj Dev) :=
  sysThreadExit ops (k.modify cur ({ · with exitval := exitval })) cur tid

def boot (files : Files Obj Dev) (initTask : Task) (argl : Int) (args : Option (List UInt8)) :
    Kernel Task Obj Dev :=
  let k := (sysExec (initializeProcesses Task files) 0 none 0 none).2
  (sysExec k 0 (some initTask) argl args).2

end Operations
end KernelProc
