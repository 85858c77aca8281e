import TinyOS.Proc
import TinyOS.ArgVector

/- The stream of OpenInfo in kernel_proc.c, and how tinyoslib.c passes the arguments of a program
   to a process and gets them back. `Task` names the main functions of processes, one of which is
   exec_wrapper; none is a read or write out of bounds. -/
namespace ProcInfo
open KernelProc ArgVector

abbrev procinfoMaxArgsSize : Nat := 128

structure Procinfo (Task : Type) where
  pid : Int
  ppid : Int
  alive : Int
  threadCount : Int
  mainTask : Option Task
  argl : Int
  args : Fin procinfoMaxArgsSize → Byte

structure PICB (Task : Type) where
  info : Procinfo Task
  cursor : Nat

variable {Task Obj Dev : Type}

def getPid : Option Pid → Int
  | none => -1
  | some p => p.val

/- The cursor moves to the next PCB that is in use; i bounds the loop. At MAX_PROC the source looks
   at the state of a PCB behind the table before it stops. -/
def skipFree (k : Kernel Task Obj Dev) : Nat → Nat → Nat
  | 0, cursor => cursor
  | i + 1, cursor =>
    if h : cursor < maxProc then
      if (k.PT ⟨cursor,h⟩).pstate = .free then skipFree k i (cursor + 1) else cursor
    else cursor

def copyArgs (old : Fin procinfoMaxArgsSize → Byte) (args : List Byte) (dataLen : Nat) :
    Fin procinfoMaxArgsSize → Byte :=
  fun i => if i.val < dataLen then args.getD i.val 0 else old i

def readArgs (args : Option (List Byte)) (dataLen : Int) : Option (List Byte) :=
  if dataLen < 0 then none
  else if dataLen = 0 then some []
  else args.bind fun args => if args.length < dataLen then none else some args

def procinfoEntry (k : Kernel Task Obj Dev) (p : Pid) (old : Procinfo Task) :
    Option (Procinfo Task) := do
  let b := k.PT p
  let dataLen := if b.argl > procinfoMaxArgsSize then (procinfoMaxArgsSize : Int) else b.argl
  let args ← readArgs b.args dataLen
  some
    { pid := getPid (some p)
      ppid := getPid b.parent
      alive := if b.pstate = .zombie then 0 else 1
      threadCount := b.threadCount
      mainTask := b.mainTask
      argl := b.argl
      args := copyArgs old.args args dataLen.toNat }

/- What is copied to the buffer, none at the end, where 0 is returned. -/
def procinfoRead (k : Kernel Task Obj Dev) (picb : PICB Task) :
    Option (Option (Procinfo Task) × PICB Task) :=
  let cursor := skipFree k (maxProc - picb.cursor) picb.cursor
  if h : cursor < maxProc then do
    let info ← procinfoEntry k ⟨cursor,h⟩ picb.info
    some (some info, { info := info, cursor := cursor + 1 })
  else some (none, { picb with cursor := cursor })

abbrev sizeofProgram : Nat := 8
abbrev Program := { b : List Byte // b.length = sizeofProgram }

def takeProgram (args : List Byte) : Option (Program × List Byte) :=
  if h : sizeofProgram ≤ args.length then
    some (⟨args.take sizeofProgram,List.length_take_of_le h⟩, args.drop sizeofProgram)
  else none

structure ProgramCall where
  prog : Program
  argc : Nat
  argv : List (List Byte)

abbrev sizeofPointer : Nat := 8

abbrev threadStackSize : Nat := 128 * 1024

/- The size of the largest array for which a function still has room on its thread's stack. -/
abbrev StackRoom := { n : Nat // n ≤ threadStackSize }

/- argv is an array on the stack, and none when it overflows the stack. -/
def execWrapper (room : StackRoom) (argl : Int) (args : Option (List Byte)) :
    Option ProgramCall := do
  let args ← args
  let (prog, args) ← takeProgram args
  let argl := toInt (argl - sizeofProgram)
  let argc ← argscount argl args
  if sizeofPointer * argc > room then none
  else do
    let (argv, _) ← argvunpack argc args
    some { prog := prog, argc := argc, argv := argv }

def storePointers (argv pointers : List (List Byte)) : Option (List (List Byte)) :=
  if pointers.length ≤ argv.length then some (pointers ++ argv.drop pointers.length) else none

/- What is returned, and then *prog and argv, of which each may be NULL. The memcpy of the source
   fills its parameter prog and not the location that prog points to. -/
def parseProcInfo [DecidableEq Task] (wrapper : Task) (pinfo : Procinfo Task)
    (prog : Option Program) (argc : Int) (argv : Option (List (List Byte))) :
    Option (Int × Option Program × Option (List (List Byte))) :=
  if pinfo.mainTask ≠ some wrapper then some (-1, prog, argv)
  else if pinfo.argl > procinfoMaxArgsSize then some (-1, prog, argv)
  else do
    let (_, args) ← takeProgram (List.ofFn pinfo.args)
    let N ← argscount (toInt (pinfo.argl - sizeofProgram)) args
    match argv with
    | none => some (toInt N, prog, none)
    | some v =>
      let argc := if toSize argc > N then N else toSize argc
      let (pointers, _) ← argvunpack argc args
      let v ← storePointers v pointers
      some (toInt N, prog, some v)

def packedLength (argv : List CString) : Nat := argvlen argv + sizeofProgram

def executeArgs (prog : Program) (argv : List CString) : List Byte := prog.val ++ (argvpack argv).2

/- The buffer is an array on the stack of the caller. -/
def execute (room : StackRoom) (wrapper : Task) (k : Kernel Task Obj Dev) (cur : Pid)
    (prog : Program) (argv : List CString) : Option (Option Pid × Kernel Task Obj Dev) :=
  if packedLength argv > room then none
  else some (sysExec k cur (some wrapper) (toInt (packedLength argv))
    (some (executeArgs prog argv)))

end ProcInfo
