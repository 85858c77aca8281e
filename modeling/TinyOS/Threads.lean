import TinyOS.StreamCounts

/- The threads of one process: the PTCBs of kernel_threads.c beside the process table. cur is
   the process; its threads are named by their PTCBs, that of the main thread being 0. Freed
   PTCBs keep their contents, and a PTCB that is touched when it has been freed is noted among
   the faults. -/
namespace KernelThreads
open KernelStreams KernelProc Monitor Transition

abbrev PtcbRef := Nat

structure PTCB (Task : Type) where
  task : Task
  argl : Int
  args : Option (List UInt8)
  exitval : Int
  exited : Bool
  detached : Bool
  refcount : Int

/- xmalloc hands out the references in order. `waits` holds the threads asleep on exit_cv of each
   PTCB; `calls` are the threads inside sys_ThreadJoin, with the PTCB and whether exitval is not
   NULL; `started` are the threads that have begun to run. `passed` and `frees` are history: the
   value a thread has passed to ThreadExit, and how often a PTCB has been freed. -/
structure Threads (Task : Type) where
  ptcbs : PtcbRef → PTCB Task
  nextPtcb : PtcbRef
  ptcbList : List PtcbRef
  waits : Waits PtcbRef PtcbRef
  calls : PtcbRef → Option (PtcbRef × Bool)
  started : PtcbRef → Bool
  passed : PtcbRef → Option Int
  frees : PtcbRef → Nat
  faults : List PtcbRef

inductive JoinResult where
  | sleeps
  | returns (value : Int) (exitval : Option Int)
  deriving DecidableEq

section Operations
variable {Task : Type}

def Threads.use (s : Threads Task) (r : PtcbRef) : Threads Task :=
  { s with faults := if 0 < s.frees r then r :: s.faults else s.faults }

def Threads.setPTCB (s : Threads Task) (r : PtcbRef) (p : PTCB Task) : Threads Task :=
  { s with ptcbs := Function.update s.ptcbs r p }

def Threads.addRef (s : Threads Task) (r : PtcbRef) (n : Int) : Threads Task :=
  s.setPTCB r { s.ptcbs r with refcount := (s.ptcbs r).refcount + n }

def Threads.free (s : Threads Task) (r : PtcbRef) : Threads Task :=
  { s with frees := Function.update s.frees r (s.frees r + 1) }

/- The value that xmalloc leaves in exitval is the one the memory held. -/
def acquirePTCB (s : Threads Task) (task : Task) (argl : Int) (args : Option (List UInt8)) :
    PtcbRef × Threads Task :=
  let r := s.nextPtcb
  let s := s.setPTCB r
    { task := task, argl := argl, args := args, exitval := (s.ptcbs r).exitval
      exited := false, detached := false, refcount := 0 }
  (r, { s with nextPtcb := r + 1 }.addRef r 1)

def Threads.pushBack (s : Threads Task) (r : PtcbRef) : Threads Task :=
  { s with ptcbList := s.ptcbList ++ [r] }

/- The part of sys_CreateThread that makes the PTCB. -/
def createPTCB (s : Threads Task) (task : Task) (argl : Int) (args : Option (List UInt8)) :
    PtcbRef × Threads Task :=
  let (r, s) := acquirePTCB s task argl args
  (r, s.pushBack r)

/- The part of sys_Exec that makes the PTCB of the main thread, which starts elsewhere. -/
def createMainPTCB (s : Threads Task) (task : Task) (argl : Int) (args : Option (List UInt8)) :
    Threads Task :=
  let (r, s) := acquirePTCB s task argl args
  let s := (s.addRef r 1).pushBack r
  { s with started := Function.update s.started r true }

/- What sys_Exec finds in a PCB: the references are given anew for the threads of the new process,
   and ptcb_list is as the process before has left it. -/
def Threads.renew (s : Threads Task) : Threads Task :=
  { ptcbs := s.ptcbs
    nextPtcb := 0
    ptcbList := s.ptcbList
    waits := Waits.empty PtcbRef PtcbRef
    calls := fun _ => none
    started := fun _ => false
    passed := fun _ => none
    frees := fun _ => 0
    faults := [] }

/- thread_Exe up to the call of the task. -/
def threadExe (s : Threads Task) (t : PtcbRef) :
    (Task × Int × Option (List UInt8)) × Threads Task :=
  let s := s.use t
  let p := s.ptcbs t
  ((p.task, p.argl, p.args), { s with started := Function.update s.started t true })

def joinLoop (s : Threads Task) (t r : PtcbRef) (out : Bool) : JoinResult × Threads Task :=
  let s := s.use r
  let p := s.ptcbs r
  if p.exited = false ∧ p.detached = false then
    (.sleeps, { s with
      waits := s.waits.wait r t
      calls := Function.update s.calls t (some (r,out)) })
  else
    let s := { s.addRef r (-1) with calls := Function.update s.calls t none }
    if p.detached then (.returns (-1) none, s)
    else
      let exitval := if out then some p.exitval else none
      if (s.ptcbs r).refcount = 0 then
        (.returns 0 exitval, { s with ptcbList := s.ptcbList.erase r }.free r)
      else (.returns 0 exitval, s)

/- none stands for the tid NULL. -/
def sysThreadJoin (s : Threads Task) (t : PtcbRef) (tid : Option PtcbRef) (out : Bool) :
    JoinResult × Threads Task :=
  match tid with
  | none => (.returns (-1) none, s)
  | some r =>
    if r ∉ s.ptcbList then (.returns (-1) none, s)
    else if r = t then (.returns (-1) none, s)
    else
      let s := s.use r
      if (s.ptcbs r).detached then (.returns (-1) none, s)
      else joinLoop (s.addRef r 1) t r out

def resumeJoin (s : Threads Task) (t : PtcbRef) : Option (JoinResult × Threads Task) :=
  match s.calls t with
  | none => none
  | some (r, out) => some (joinLoop { s with waits := s.waits.resume t } t r out)

def sysThreadDetach (s : Threads Task) (tid : Option PtcbRef) : Int × Threads Task :=
  match tid with
  | none => (-1, s)
  | some r =>
    if r ∉ s.ptcbList then (-1, s)
    else
      let s := s.use r
      if (s.ptcbs r).exited then (-1, s)
      else
        let s := s.setPTCB r { s.ptcbs r with detached := true }
        (0, { s with waits := s.waits.broadcast r })

def freePTCBs : List PtcbRef → Threads Task → Threads Task
  | [], s => { s with ptcbList := [] }
  | r :: rest, s => freePTCBs rest ({ s with ptcbList := rest }.free r)

/- What sys_ThreadExit does to the PTCBs; last says that thread_count has become 0. -/
def exitPTCB (s : Threads Task) (t : PtcbRef) (exitval : Int) (last : Bool) : Threads Task :=
  let s := s.use t
  let s := s.setPTCB t { s.ptcbs t with exitval := exitval }
  let s := { s with waits := s.waits.broadcast t, passed := Function.update s.passed t (some exitval) }
  let s := s.addRef t (-1)
  let s := s.setPTCB t { s.ptcbs t with exited := true }
  let s := { s with waits := s.waits.broadcast t }
  if last then freePTCBs s.ptcbList s else s

end Operations
end KernelThreads
