import TinyOS.Socket
import TinyOS.Transition

/- Runs of threads that use sockets. A socket stays open as long as its FCB is referred to: by a
   fid of some process, or by a Read or Write in progress; when the last reference goes, its
   Close method runs. -/
namespace KernelSocket
open KernelStreams KernelProc KernelPipe Monitor Transition

/- `fids` counts the fids that name each socket; `calls` are the calls asleep. -/
structure NetRun where
  net : Net
  fids : SocketRef → Nat
  calls : List (Thread × NetCall)

/- A Read or Write on the socket. -/
def NetCall.IsTransfer (a : SocketRef) : NetCall → Prop
  | .io b _ _ => b = a
  | _ => False

instance (a : SocketRef) (c : NetCall) : Decidable (c.IsTransfer a) :=
  match c with
  | .io b _ _ => inferInstanceAs (Decidable (b = a))
  | .connect _ _ _ | .accept _ => inferInstanceAs (Decidable False)

def NetRun.holds (s : NetRun) (a : SocketRef) : Nat := s.calls.countP fun e => e.2.IsTransfer a

def NetRun.refcount (s : NetRun) (a : SocketRef) : Nat := s.fids a + s.holds a

def NetRun.Idle (s : NetRun) (t : Thread) : Prop := t ∉ s.calls.map Prod.fst

/- made is what FCB_reserve gives to the call, should it make a socket. -/
inductive NetAction where
  | socket (port : Int) (made : Option (Fid × FcbRef))
  | listen (a : SocketRef)
  | connect (t : Thread) (a : SocketRef) (port : Int)
  | accept (t : Thread) (l : SocketRef) (made : Option (Fid × FcbRef))
  | io (t : Thread) (a : SocketRef) (c : Call)
  | shutDown (a : SocketRef) (how : ShutdownMode)
  | share (a : SocketRef)
  | close (a : SocketRef)
  | resume (t : Thread) (call : NetCall) (signalled : Bool) (made : Option (Fid × FcbRef))
  | expire (t : Thread) (a l : SocketRef) (r : RequestRef)

/- share is Dup2 or Exec. Of the calls that sleep, Connect has a timeout. -/
def NetEnabled (s : NetRun) : NetAction → Prop
  | .socket _ _ => True
  | .listen a | .shutDown a _ | .share a | .close a => 0 < s.fids a
  | .connect t a _ | .accept t a _ | .io t a _ => 0 < s.fids a ∧ s.Idle t
  | .resume t call signalled _ => (t,call) ∈ s.calls ∧ s.net.waits.woken t = some signalled
  | .expire t a l r => (t,.connect a l r) ∈ s.calls ∧ t ∈ s.net.waits.asleep (.reqAvailable l)

instance (s : NetRun) (t : Thread) : Decidable (s.Idle t) :=
  inferInstanceAs (Decidable (¬ _))

instance (s : NetRun) (a : NetAction) : Decidable (NetEnabled s a) :=
  match a with
  | .socket _ _ => .isTrue trivial
  | .listen a | .shutDown a _ | .share a | .close a => inferInstanceAs (Decidable (0 < s.fids a))
  | .connect t a _ | .accept t a _ | .io t a _ =>
    inferInstanceAs (Decidable (0 < s.fids a ∧ s.Idle t))
  | .resume t call signalled _ => inferInstanceAs (Decidable
      ((t,call) ∈ s.calls ∧ s.net.waits.woken t = some signalled))
  | .expire t a l r => inferInstanceAs (Decidable
      ((t,NetCall.connect a l r) ∈ s.calls ∧ t ∈ s.net.waits.asleep (.reqAvailable l)))

def NetRun.record (s : NetRun) (t : Thread) (p : Progress) (net : Net) : NetRun :=
  match p with
  | .sleeps call => { s with net := net, calls := (t,call) :: s.calls }
  | .returns _ _ => { s with net := net }

/- The socket made by the step, if there is one, gets its fid. -/
def NetRun.adopt (s : NetRun) (before : Net) : NetRun :=
  if s.net.nextSocket = before.nextSocket then s
  else { s with fids := Function.update s.fids before.nextSocket 1 }

/- FCB_decref, the reference being gone. -/
def NetRun.release (s : NetRun) (a : SocketRef) : NetRun :=
  if s.refcount a = 0 then { s with net := (socketClose s.net a).2 } else s

/- What FCB_decref returns: the result of the Close method, if it has run. -/
def NetRun.releaseValue (s : NetRun) (a : SocketRef) : Int :=
  if s.refcount a = 0 then (socketClose s.net a).1 else 0

/- Takes the thread out of its sleep. -/
def NetRun.leave (s : NetRun) (t : Thread) (call : NetCall) : NetRun :=
  { s with
    net := { s.net with waits := s.net.waits.resume t }
    calls := s.calls.erase (t,call) }

def callPass (net : Net) (t : Thread) (signalled : Bool) (made : Option (Fid × FcbRef)) :
    NetCall → Progress × Net
  | .connect a l r => connectPass net a l r signalled
  | .accept l => acceptPass net t l made
  | .io a r c => ioPass net t a r c

def reply (value : Int) : Progress := .returns value []

def netStep (s : NetRun) : NetAction → Progress × NetRun
  | .socket port made =>
    let (fid, net) := sysSocket s.net port made
    (reply (fidValue fid), { s with net := net }.adopt s.net)
  | .listen a =>
    let (value, net) := sysListen s.net a
    (reply value, { s with net := net })
  | .connect t a port =>
    let (p, net) := sysConnect s.net t a port
    (p, s.record t p net)
  | .accept t l made =>
    let (p, net) := sysAccept s.net t l made
    (p, (s.record t p net).adopt s.net)
  | .io t a c =>
    let (p, net) := socketTransfer s.net t a c
    (p, (s.record t p net).release a)
  | .shutDown a how =>
    let (value, net) := sysShutDown s.net a how
    (reply value, { s with net := net })
  | .share a => (reply 0, { s with fids := Function.update s.fids a (s.fids a + 1) })
  | .close a =>
    let s := { s with fids := Function.update s.fids a (s.fids a - 1) }
    (reply (s.releaseValue a), s.release a)
  | .resume t call signalled made =>
    let left := s.leave t call
    let (p, net) := callPass left.net t signalled made call
    let s' := (left.record t p net).adopt s.net
    (p, match call with | .io a _ _ => s'.release a | _ => s')
  | .expire t _ l _ =>
    (reply 0, { s with net := { s.net with waits := s.net.waits.expire (.reqAvailable l) t } })

def netExec (s : NetRun) (a : NetAction) : NetRun := (netStep s a).2

/- Nothing has been allocated; memory holds what the blocks of pipes will find there. -/
def bootNet (memory : PipeRef → PipeCB) : NetRun :=
  { net :=
      { sockets := fun _ => { refcount := 0, fcb := none, type := .unbound, port := noport }
        nextSocket := 0
        pipes := memory
        nextPipe := 0
        requests := fun _ => { admitted := false, peer := 0 }
        nextRequest := 0
        portMap := fun _ => none
        waits := .empty Thread NetCV
        returned := fun _ => false
        fate := fun _ => none
        received := fun _ => []
        sent := fun _ => []
        socketFrees := fun _ => 0
        pipeFrees := fun _ => 0
        faults := [] }
    fids := fun _ => 0
    calls := [] }

def netSystem : Machine NetRun NetAction :=
  { start := fun s => ∃ memory, s = bootNet memory
    enabled := NetEnabled
    exec := fun s a => some (netExec s a) }

instance (s : NetRun) (a : NetAction) : Decidable (netSystem.enabled s a) :=
  inferInstanceAs (Decidable (NetEnabled s a))

/- Memory that has been freed or left, or a member of the union that is not there. -/
def Fault.Dangling : Fault → Bool
  | .portBounds _ => false
  | .freedSocket _ | .freedPipe _ | .deadNode _ | .notListener _ | .notPeer _ => true

/- What the step touches is there; past any other step the source says nothing. -/
def Intact (s : NetRun) (a : NetAction) : Prop := ∀ f ∈ (netExec s a).net.faults, f.Dangling = false

def intactSystem : Machine NetRun NetAction := netSystem.restrict Intact

instance (s : NetRun) (a : NetAction) : Decidable (Intact s a) :=
  inferInstanceAs (Decidable (∀ f ∈ (netExec s a).net.faults, f.Dangling = false))

instance (s : NetRun) (a : NetAction) : Decidable (intactSystem.enabled s a) :=
  inferInstanceAs (Decidable (NetEnabled s a ∧ Intact s a))

end KernelSocket
