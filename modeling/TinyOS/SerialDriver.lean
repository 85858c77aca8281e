import TinyOS.IoDevice
import TinyOS.Monitor

/- The serial device driver of kernel_dev.c over the io_devices: reads that sleep on rx_ready, writes
   that poll, and the interrupt handler that wakes the readers. A call holds the kernel lock but
   while it sleeps; the handler and the PIC daemon run at any time. -/
namespace SerialDriver
open Transition Bios Monitor

/- In serial_read, with the bytes that have been read: in its loop, in a bios_read_serial that has
   failed, at kernel_wait and in it; in serial_write, with the bytes to write and how many have been:
   in its loop, and in a bios_write_serial that has failed. -/
inductive Pc where
  | outside
  | reading (port size : Nat) (buf : List UInt8)
  | readFailed (port size : Nat) (buf : List UInt8)
  | waiting (port size : Nat)
  | asleep (port size : Nat)
  | writing (port : Nat) (buf : List UInt8) (count : Nat)
  | writeFailed (port : Nat) (buf : List UInt8) (count : Nat)
  deriving DecidableEq, Repr

/- `fifo` holds what has been typed and not read. `rxPending` is SERIAL_RX_READY of the core that
   handles it, and `handler` are the ports to which serial_rx_handler has yet to broadcast. The last
   four are history: all that has been typed, the reads that have returned, each with its size and
   what it has read, all that has been written, and the writes that have returned, each with its
   bytes and how many it has written. -/
structure Driver (Thread : Type) where
  io : Io Thread
  fifo : Nat → List UInt8
  owner : Option Thread
  rxReady : Waits Thread Nat
  rxPending : Bool
  handler : List Nat
  pc : Thread → Pc
  typed : Nat → List UInt8
  reads : Nat → List (Nat × List UInt8)
  written : Nat → List UInt8
  writes : Nat → List (List UInt8 × Nat)

inductive Action (Thread : Type) where
  | read (t : Thread) (port size : Nat)
  | write (t : Thread) (port : Nat) (buf : List UInt8)
  | step (t : Thread) (more : Bool)
  | type (port : Nat) (byte : UInt8)
  | drain (port : Nat)
  | pic
  | select (clock : UInt64) (failed : Bool)
  | handle
  | broadcast

abbrev kbd (port : Nat) : Device := ⟨port,.rx⟩
abbrev con (port : Nat) : Device := ⟨port,.tx⟩

section Steps
variable {Thread : Type} [DecidableEq Thread]

def Driver.goto (s : Driver Thread) (t : Thread) (pc : Pc) : Driver Thread :=
  { s with pc := Function.update s.pc t pc }

/- The call returns and sys_Read releases the kernel. -/
def endRead (s : Driver Thread) (t : Thread) (port size : Nat) (buf : List UInt8) :
    Driver Thread :=
  { s.goto t .outside with
    owner := none
    reads := Function.update s.reads port (s.reads port ++ [(size,buf)]) }

def endWrite (s : Driver Thread) (t : Thread) (port : Nat) (buf : List UInt8) (count : Nat) :
    Driver Thread :=
  { s.goto t .outside with
    owner := none
    writes := Function.update s.writes port (s.writes port ++ [(buf,count)]) }

/- A pass of the loop of serial_read up to the outcome of the read of a byte. -/
def readPass (s : Driver Thread) (t : Thread) (port size : Nat) (buf : List UInt8) :
    Driver Thread :=
  if buf.length < size then
    match s.fifo port with
    | [] => { s.goto t (.readFailed port size buf) with io := ioFail s.io t (kbd port) }
    | byte :: rest =>
      { s.goto t (.reading port size (buf ++ [byte])) with
        io := ioTransfer s.io (kbd port) (!rest.isEmpty)
        fifo := Function.update s.fifo port rest }
  else endRead s t port size buf

/- A pass of the loop of serial_write up to the outcome of the write of a byte. -/
def writePass (s : Driver Thread) (t : Thread) (port : Nat) (buf : List UInt8) (count : Nat)
    (more : Bool) : Driver Thread :=
  match buf[count]? with
  | some byte =>
    if s.io.possible (con port) then
      { s.goto t (.writing port buf (count + 1)) with
        io := ioTransfer s.io (con port) more
        written := Function.update s.written port (s.written port ++ [byte]) }
    else { s.goto t (.writeFailed port buf count) with io := ioFail s.io t (con port) }
  | none => endWrite s t port buf count

def threadStep (s : Driver Thread) (t : Thread) (more : Bool) : Option (Driver Thread) :=
  match s.pc t with
  | .outside => none
  | .reading port size buf => some (readPass s t port size buf)
  | .readFailed port size buf =>
    if s.io.caller t = .outside then
      -- kernel_wait if count==0, else break
      if buf = [] then some (s.goto t (.waiting port size)) else some (endRead s t port size buf)
    else some { s with io := callerStep s.io t }
  | .waiting port size =>
    some { s.goto t (.asleep port size) with owner := none, rxReady := s.rxReady.wait port t }
  | .asleep port size =>
    some { s.goto t (.reading port size []) with owner := some t, rxReady := s.rxReady.resume t }
  | .writing port buf count => some (writePass s t port buf count more)
  | .writeFailed port buf count =>
    if s.io.caller t = .outside then
      -- yield(SCHED_IO) if count==0, else break
      if count = 0 then some (s.goto t (.writing port buf 0)) else some (endWrite s t port buf count)
    else some { s with io := callerStep s.io t }

/- The PIC is about to raise SERIAL_RX_READY. -/
def Raises (s : Driver Thread) : Bool :=
  match s.io.pic with
  | .raising dev _ => dev.iodir = .rx
  | _ => false

def act (nterm : Nat) (s : Driver Thread) : Action Thread → Option (Driver Thread)
  | .read t port size => some { s.goto t (.reading port size []) with owner := some t }
  | .write t port buf => some { s.goto t (.writing port buf 0) with owner := some t }
  | .step t more => threadStep s t more
  | .type port byte =>
    some { s with
      io := ioArrive s.io (kbd port)
      fifo := Function.update s.fifo port (s.fifo port ++ [byte])
      typed := Function.update s.typed port (s.typed port ++ [byte]) }
  | .drain port => some { s with io := ioArrive s.io (con port) }
  | .pic => some { s with io := picStep nterm s.io, rxPending := s.rxPending || Raises s }
  | .select clock failed => some { s with io := picSelect nterm s.io clock failed }
  | .handle => some { s with rxPending := false, handler := List.range nterm }
  | .broadcast =>
    match s.handler with
    | [] => none
    | port :: rest => some { s with handler := rest, rxReady := s.rxReady.broadcast port }

def Pc.Asleep : Pc → Bool
  | .asleep _ _ => true
  | .outside | .reading _ _ _ | .readFailed _ _ _ | .waiting _ _ | .writing _ _ _
  | .writeFailed _ _ _ => false

/- A call takes the kernel lock, as does a reader that has been woken. -/
def Enabled (nterm : Nat) (s : Driver Thread) : Action Thread → Prop
  | .read t port _ | .write t port _ => s.pc t = .outside ∧ s.owner = none ∧ port < nterm
  | .step t _ =>
    s.pc t ≠ .outside ∧ ((s.pc t).Asleep = true → s.owner = none ∧ s.rxReady.woken t ≠ none)
  | .type port _ | .drain port => port < nterm
  | .pic => s.io.pic ≠ .selecting
  | .select _ _ => s.io.pic = .selecting
  | .handle => s.rxPending = true ∧ s.handler = []
  | .broadcast => s.handler ≠ []

instance driverEnabledDecidable (nterm : Nat) (s : Driver Thread) (a : Action Thread) :
    Decidable (Enabled nterm s a) :=
  match a with
  | .read t port _ | .write t port _ =>
    inferInstanceAs (Decidable (s.pc t = .outside ∧ s.owner = none ∧ port < nterm))
  | .step t _ =>
    inferInstanceAs (Decidable (s.pc t ≠ .outside ∧
      ((s.pc t).Asleep = true → s.owner = none ∧ s.rxReady.woken t ≠ none)))
  | .type port _ | .drain port => inferInstanceAs (Decidable (port < nterm))
  | .pic => inferInstanceAs (Decidable (s.io.pic ≠ .selecting))
  | .select _ _ => inferInstanceAs (Decidable (s.io.pic = .selecting))
  | .handle => inferInstanceAs (Decidable (s.rxPending = true ∧ s.handler = []))
  | .broadcast => inferInstanceAs (Decidable (s.handler ≠ []))

/- Nothing has been typed, and the consoles may be ready or not. -/
def initial (Thread : Type) (nterm : Nat) (room : Nat → Bool) (clock : UInt64) :
    Driver Thread where
  io := initialIo Thread nterm
    (fun dev => match dev.iodir with | .rx => false | .tx => room dev.term) clock
  fifo _ := []
  owner := none
  rxReady := Waits.empty Thread Nat
  rxPending := false
  handler := []
  pc _ := .outside
  typed _ := []
  reads _ := []
  written _ := []
  writes _ := []

/- Any number of threads read and write nterm terminals. -/
def driverSystem (Thread : Type) [DecidableEq Thread] (nterm : Nat) :
    Machine (Driver Thread) (Action Thread) where
  start s := ∃ room clock, s = initial Thread nterm room clock
  enabled := Enabled nterm
  exec := act nterm

instance driverSystemDecidable (nterm : Nat) (s : Driver Thread) (a : Action Thread) :
    Decidable ((driverSystem Thread nterm).enabled s a) :=
  inferInstanceAs (Decidable (Enabled nterm s a))

end Steps
end SerialDriver
