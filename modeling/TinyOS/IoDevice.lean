import TinyOS.Transition

/- The io_devices of bios.c, whose flag `ready` is cleared by the transfers that fail, and the loop
   of PIC_daemon, which monitors the devices that are not ready and raises an interrupt for those
   that select reports. There is a step for each access to what they share. -/
namespace Bios
open Transition

inductive IoDirection where
  | rx | tx
  deriving DecidableEq, Repr

structure Device where
  term : Nat
  iodir : IoDirection
  deriving DecidableEq, Repr

def serialTimeout : UInt64 := 300000

def addOrder (nterm : Nat) : List Device :=
  (List.range nterm).flatMap fun i => [⟨i,.rx⟩,⟨i,.tx⟩]

def checkOrder (nterm : Nat) : List Device :=
  (List.range nterm).flatMap fun i => [⟨i,.tx⟩,⟨i,.rx⟩]

/- In the loop of PIC_daemon: devices are yet to be added to the selector, it is in select, the
   signals are yet to be drained, devices are yet to be checked, or an interrupt is to be raised. -/
inductive Pic where
  | adding (todo : List Device)
  | selecting
  | draining
  | checking (todo : List Device)
  | raising (dev : Device) (todo : List Device)
  deriving DecidableEq, Repr

/- In io_device_read or io_device_write, after the transfer has failed: at the test of `ready`, at
   its clearing, and at interrupt_pic_thread. -/
inductive Caller where
  | outside
  | failed (dev : Device)
  | clearing (dev : Device)
  | kicking (dev : Device)
  deriving DecidableEq, Repr

/- `possible` is what select would report: there is a byte to read, or room for one to write. `usr1`
   is the signal of interrupt_pic_thread, and `fds` and `clock` are the selector. The last three are
   history: whether an interrupt of the device has been raised since a transfer last failed, what
   select saw at last, and how many rounds of the loop, since the last failed transfer returned and
   since the last interrupt, have found a transfer possible and not raised an interrupt. -/
structure Io (Thread : Type) where
  ready : Device → Bool
  lastInt : Device → UInt64
  possible : Device → Bool
  usr1 : Bool
  pic : Pic
  fds : Device → Bool
  clock : UInt64
  caller : Thread → Caller
  since : Device → Bool
  seen : Device → Bool
  missed : Device → Nat

/- `arrive` is the other end of the fifo; `select` returns at its timeout or earlier, or fails. -/
inductive IoAction (Thread : Type) where
  | arrive (dev : Device)
  | transfer (t : Thread) (dev : Device) (more : Bool)
  | fail (t : Thread) (dev : Device)
  | caller (t : Thread)
  | select (clock : UInt64) (failed : Bool)
  | pic

section Steps
variable {Thread : Type}

def ioArrive (s : Io Thread) (dev : Device) : Io Thread :=
  { s with possible := Function.update s.possible dev true }

def ioTransfer (s : Io Thread) (dev : Device) (more : Bool) : Io Thread :=
  { s with possible := Function.update s.possible dev more }

def picReset (nterm : Nat) (s : Io Thread) : Io Thread :=
  { s with pic := .adding (addOrder nterm), fds := fun _ => false }

def picSelect (nterm : Nat) (s : Io Thread) (clock : UInt64) (failed : Bool) : Io Thread :=
  if failed then picReset nterm s
  else
    { s with
      pic := .draining, clock := clock, seen := s.possible
      fds := fun dev => s.fds dev && s.possible dev }

def termDevCheck (s : Io Thread) (dev : Device) (todo : List Device) : Io Thread :=
  if s.fds dev = true ∨ serialTimeout < s.clock - s.lastInt dev then
    { s with
      pic := .raising dev todo
      ready := Function.update s.ready dev true
      lastInt := Function.update s.lastInt dev s.clock }
  else
    { s with
      pic := .checking todo
      missed := Function.update s.missed dev (s.missed dev + if s.seen dev then 1 else 0) }

def picStep (nterm : Nat) (s : Io Thread) : Io Thread :=
  match s.pic with
  | .adding [] => { s with pic := .selecting }
  | .adding (dev :: todo) =>
    { s with pic := .adding todo, fds := Function.update s.fds dev (s.fds dev || !s.ready dev) }
  | .selecting => s
  | .draining => { s with pic := .checking (checkOrder nterm), usr1 := false }
  | .checking [] => picReset nterm s
  | .checking (dev :: todo) => termDevCheck s dev todo
  | .raising dev todo =>
    { s with
      pic := .checking todo
      since := Function.update s.since dev true
      missed := Function.update s.missed dev 0 }

variable [DecidableEq Thread]

def Io.goto (s : Io Thread) (t : Thread) (caller : Caller) : Io Thread :=
  { s with caller := Function.update s.caller t caller }

def ioFail (s : Io Thread) (t : Thread) (dev : Device) : Io Thread :=
  { s.goto t (.failed dev) with since := Function.update s.since dev false }

def ioReturn (s : Io Thread) (t : Thread) (dev : Device) : Io Thread :=
  { s.goto t .outside with missed := Function.update s.missed dev 0 }

def callerStep (s : Io Thread) (t : Thread) : Io Thread :=
  match s.caller t with
  | .outside => s
  | .failed dev => if s.ready dev then s.goto t (.clearing dev) else ioReturn s t dev
  | .clearing dev => { s.goto t (.kicking dev) with ready := Function.update s.ready dev false }
  | .kicking dev => { ioReturn s t dev with usr1 := true }

def ioAct (nterm : Nat) (s : Io Thread) : IoAction Thread → Option (Io Thread)
  | .arrive dev => some (ioArrive s dev)
  | .transfer _ dev more => some (ioTransfer s dev more)
  | .fail t dev => some (ioFail s t dev)
  | .caller t => some (callerStep s t)
  | .select clock failed => some (picSelect nterm s clock failed)
  | .pic => some (picStep nterm s)

/- A transfer succeeds where select would report the device. -/
def IoEnabled (s : Io Thread) : IoAction Thread → Prop
  | .arrive _ => True
  | .transfer t dev _ => s.caller t = .outside ∧ s.possible dev = true
  | .fail t dev => s.caller t = .outside ∧ s.possible dev = false
  | .caller t => s.caller t ≠ .outside
  | .select _ _ => s.pic = .selecting
  | .pic => s.pic ≠ .selecting

instance ioEnabledDecidable (s : Io Thread) (a : IoAction Thread) : Decidable (IoEnabled s a) :=
  match a with
  | .arrive _ => inferInstanceAs (Decidable True)
  | .transfer t dev _ => inferInstanceAs (Decidable (s.caller t = .outside ∧ s.possible dev = true))
  | .fail t dev => inferInstanceAs (Decidable (s.caller t = .outside ∧ s.possible dev = false))
  | .caller t => inferInstanceAs (Decidable (s.caller t ≠ .outside))
  | .select _ _ => inferInstanceAs (Decidable (s.pic = .selecting))
  | .pic => inferInstanceAs (Decidable (s.pic ≠ .selecting))

def initialIo (Thread : Type) (nterm : Nat) (possible : Device → Bool) (clock : UInt64) :
    Io Thread where
  ready := possible
  lastInt _ := clock
  possible := possible
  usr1 := false
  pic := .adding (addOrder nterm)
  fds _ := false
  clock := clock
  caller _ := .outside
  since _ := true
  seen _ := false
  missed _ := 0

def ioSystem (Thread : Type) [DecidableEq Thread] (nterm : Nat) :
    Machine (Io Thread) (IoAction Thread) where
  start s := ∃ possible clock, s = initialIo Thread nterm possible clock
  enabled := IoEnabled
  exec := ioAct nterm

instance ioSystemDecidable (nterm : Nat) (s : Io Thread) (a : IoAction Thread) :
    Decidable ((ioSystem Thread nterm).enabled s a) := inferInstanceAs (Decidable (IoEnabled s a))

end Steps

end Bios
