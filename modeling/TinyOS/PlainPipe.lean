import TinyOS.Pipe
import TinyOS.StreamCounts

/- The pipes of sys_Pipe behind the file ids of their ends. Read and Write are the sections of
   the FCB's user with the pipe's own passes in between; the streams of other modules keep to
   their own data. -/
namespace PlainPipe
open KernelStreams KernelProc KernelPipe Monitor Transition

abbrev PipeRef := Nat

inductive Side where
  | reader | writer
  deriving DecidableEq

def Side.other : Side → Side
  | .reader => .writer
  | .writer => .reader

/- The condition variable on which the calls on this end sleep. -/
def Side.cv : Side → PipeCV
  | .reader => .hasData
  | .writer => .hasSpace

/- A pipe with reader_file_ops or writer_file_ops, or a stream of another module. -/
inductive Stream (Obj : Type) where
  | pipe (r : PipeRef) (side : Side)
  | other (o : Obj)

/- xmalloc hands out the references in order, and freed pipes keep their contents. `closes`
   counts the runs of pipe_reader_close and pipe_writer_close; it and `frees` are history. -/
structure Memory (Dev : Type) where
  pipes : PipeRef → PipeCB
  nextPipe : PipeRef
  waits : Waits Thread (PipeRef × PipeCV)
  others : Dev
  closes : PipeRef → Side → Nat
  frees : PipeRef → Nat

/- `calls` are the threads inside pipe_read and pipe_write. -/
structure PipesRun (Task Obj Dev : Type) where
  files : FileRun Task (Stream Obj) (Memory Dev)
  calls : Thread → Option (PipeRef × Call)

/- `call` is any other system call, `endTransfer` the rest of Read and Write after the method of
   the stream has returned, and `device` whatever the other modules do. -/
inductive PipesAction (Task Obj Dev : Type) where
  | call (a : FileAction Task (Stream Obj))
  | pipe (t : Thread)
  | transfer (t : Thread) (fid : Int) (c : Call)
  | resume (t : Thread)
  | endTransfer (t : Thread) (f : FcbRef)
  | device (d : Dev)

section Methods
variable {Obj Dev : Type}

/- pipe->reader or pipe->writer -/
def Side.fcb (p : PipeCB) : Side → Option FcbRef
  | .reader => p.reader
  | .writer => p.writer

/- The end that a call is made for: the other one has do_nothing in its place. -/
def callSide : Call → Side
  | .read _ => .reader
  | .write _ => .writer

def pipeClose : Side → PipeCB → Option PipeCV × PipeCB
  | .reader => pipeReaderClose
  | .writer => pipeWriterClose

def Memory.setPipe (m : Memory Dev) (r : PipeRef) (p : PipeCB) : Memory Dev :=
  { m with pipes := Function.update m.pipes r p }

def Memory.wakeAll (m : Memory Dev) (r : PipeRef) : Option PipeCV → Memory Dev
  | none => m
  | some cv => { m with waits := m.waits.broadcast (r,cv) }

def Memory.free (m : Memory Dev) (r : PipeRef) : Memory Dev :=
  { m with frees := Function.update m.frees r (m.frees r + 1) }

def Memory.countClose (m : Memory Dev) (r : PipeRef) (side : Side) : Memory Dev :=
  let runs := m.closes r side + 1
  { m with closes := Function.update m.closes r (Function.update (m.closes r) side runs) }

def closeSide (m : Memory Dev) (r : PipeRef) (side : Side) : Memory Dev :=
  let m := m.countClose r side
  match pipeClose side (m.pipes r) with
  | (none, p) => (m.setPipe r p).free r
  | (some cv, p) => (m.setPipe r p).wakeAll r (some cv)

/- The Close methods. -/
def streamClose (ops : FileOps Obj Dev) (o : Stream Obj) (m : Memory Dev) : Int × Memory Dev :=
  match o with
  | .pipe r side => (0, closeSide m r side)
  | .other o =>
    let (retval, d) := ops.close o m.others
    (retval, { m with others := d })

def streamOps (ops : FileOps Obj Dev) : FileOps (Stream Obj) (Memory Dev) :=
  { close := streamClose ops }

/- The part of sys_Pipe that follows the reservation of the two FCBs. -/
def makePipe (m : Memory Dev) (reader writer : Option FcbRef) : Memory Dev :=
  { m.setPipe m.nextPipe (acquirePipeCB reader writer (m.pipes m.nextPipe).BUFFER) with
    nextPipe := m.nextPipe + 1 }

end Methods

section System
variable {Task Obj Dev : Type}

def PipesRun.memory (s : PipesRun Task Obj Dev) : Memory Dev := s.files.kernel.files.device

def PipesRun.setMemory (s : PipesRun Task Obj Dev) (m : Memory Dev) : PipesRun Task Obj Dev :=
  let k := s.files.kernel
  { s with files := { s.files with kernel := { k with files := { k.files with device := m } } } }

/- The calls that do not transfer data and whose streams belong to other modules. -/
def Ordinary : FileAction Task (Stream Obj) → Bool
  | .pipe .. | .startTransfer .. | .endTransfer .. => false
  | .openDevice _ (some (.pipe ..)) | .openInfo _ (.pipe ..) | .socket _ _ (.pipe ..)
  | .accept _ _ (.pipe ..) => false
  | _ => true

/- reader->streamobj = pipeCB; .. for the fids that sys_Pipe has reserved -/
def openPipe (s : PipesRun Task Obj Dev) (t : Thread) : PipesRun Task Obj Dev :=
  let r := s.memory.nextPipe
  match sysPipe s.files.kernel t.1 (.pipe r .reader) (.pipe r .writer) with
  | (none, k) => { s with files := { s.files with kernel := k } }
  | (some (i, j), k) =>
    let FIDT := (k.PT t.1).FIDT
    { s with files := { s.files with kernel := k } }.setMemory
      (makePipe s.memory (FIDT i) (FIDT j))

def endPass (s : PipesRun Task Obj Dev) (t : Thread) (r : PipeRef) (c : Call) :
    Pass × PipeCB → PipesRun Task Obj Dev
  | (.sleeps cv, p) =>
    let m := s.memory.setPipe r p
    { s.setMemory { m with waits := m.waits.wait (r,cv) t } with
      calls := Function.update s.calls t (some (r,c)) }
  | (.returns _ _ broadcast, p) =>
    { s.setMemory ((s.memory.setPipe r p).wakeAll r broadcast) with
      calls := Function.update s.calls t none }

/- The call of the Read or Write method of the stream; other modules return from it later. -/
def startMethod (s : PipesRun Task Obj Dev) (t : Thread) (c : Call) : Stream Obj →
    PipesRun Task Obj Dev
  | .pipe r side => if callSide c = side then endPass s t r c (c.firstPass (s.memory.pipes r)) else s
  | .other _ => s

def PipesEnabled (s : PipesRun Task Obj Dev) : PipesAction Task Obj Dev → Prop
  | .call a => FileEnabled s.files a ∧ Ordinary a = true
  | .pipe t | .transfer t _ _ => s.files.Idle t
  | .resume t => (s.calls t).isSome ∧ (s.memory.waits.woken t).isSome
  | .endTransfer t f => (t,f) ∈ s.files.inUse ∧ s.calls t = none
  | .device _ => True

instance (s : PipesRun Task Obj Dev) (a : PipesAction Task Obj Dev) :
    Decidable (PipesEnabled s a) :=
  match a with
  | .call a => inferInstanceAs (Decidable (FileEnabled s.files a ∧ Ordinary a = true))
  | .pipe t | .transfer t _ _ => inferInstanceAs (Decidable (s.files.Idle t))
  | .resume t =>
    inferInstanceAs (Decidable ((s.calls t).isSome ∧ (s.memory.waits.woken t).isSome))
  | .endTransfer t f => inferInstanceAs (Decidable ((t,f) ∈ s.files.inUse ∧ s.calls t = none))
  | .device _ => inferInstanceAs (Decidable True)

def pipesExec (ops : FileOps Obj Dev) (s : PipesRun Task Obj Dev) :
    PipesAction Task Obj Dev → Option (PipesRun Task Obj Dev)
  | .call a => (fileExec (streamOps ops) s.files a).map ({ s with files := · })
  | .pipe t => some (openPipe s t)
  | .transfer t fid c => do
    let files ← fileExec (streamOps ops) s.files (.startTransfer t fid)
    match getFcb s.files.kernel t.1 fid with
    | none => some { s with files := files }
    | some f => some (startMethod { s with files := files } t c (files.kernel.files.FT f).stream)
  | .resume t => do
    let (r, c) ← s.calls t
    let s := s.setMemory { s.memory with waits := s.memory.waits.resume t }
    some (endPass s t r c (c.nextPass (s.memory.pipes r)))
  | .endTransfer t f =>
    (fileExec (streamOps ops) s.files (.endTransfer t f)).map ({ s with files := · })
  | .device d => some (s.setMemory { s.memory with others := d })

/- After boot, with whatever the memory holds. -/
def pipesSystem (Task : Type) (ops : FileOps Obj Dev) :
    Machine (PipesRun Task Obj Dev) (PipesAction Task Obj Dev) where
  start s := ∃ blank pipes others task argl args,
    s = { files :=
            { kernel := boot (initializeFiles blank
                { pipes := pipes, nextPipe := 0, waits := .empty _ _, others := others
                  closes := fun _ _ => 0, frees := fun _ => 0 }) task argl args
              inUse := [] }
          calls := fun _ => none }
  enabled := PipesEnabled
  exec := pipesExec ops

instance (ops : FileOps Obj Dev) (s : PipesRun Task Obj Dev) (a : PipesAction Task Obj Dev) :
    Decidable ((pipesSystem Task ops).enabled s a) :=
  inferInstanceAs (Decidable (PipesEnabled s a))

end System
end PlainPipe
