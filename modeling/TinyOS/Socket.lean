import TinyOS.Pipe
import TinyOS.FileTable

/- Sockets of kernel_socket.c. A call acts on the socket that the stream of its file id holds;
   like a pipe's, it passes from its start or a kernel_wait to the next wait or its return.
   Blocks that have been freed keep their contents, and what the source may not touch is noted
   among the faults before it is touched. -/
namespace KernelSocket
open KernelStreams KernelProc KernelPipe Monitor

abbrev SocketRef := Nat
abbrev PipeRef := Nat
abbrev RequestRef := Nat

def noport : Int := 0

structure PeerSocket where
  peer : SocketRef
  writePipe : PipeRef
  readPipe : PipeRef
  deriving DecidableEq

/- The type of a socket and the member of the union that belongs to it. The requests of a queue
   stand front first. -/
inductive SocketType where
  | listener (queue : List RequestRef)
  | unbound
  | peer (link : PeerSocket)
  deriving DecidableEq

def SocketType.IsListener (ty : SocketType) : Prop := ∃ queue, ty = .listener queue

def SocketType.queue : SocketType → List RequestRef
  | .listener queue => queue
  | _ => []

instance (ty : SocketType) : Decidable ty.IsListener :=
  match ty with
  | .listener queue => .isTrue ⟨queue,rfl⟩
  | .unbound | .peer _ => .isFalse (by rintro ⟨_,same⟩; cases same)

@[simp] theorem listener_isListener (queue : List RequestRef) :
    (SocketType.listener queue).IsListener := ⟨queue,rfl⟩

@[simp] theorem unbound_not_listener : ¬ SocketType.unbound.IsListener := by
  rintro ⟨_,same⟩
  cases same

@[simp] theorem peer_not_listener (link : PeerSocket) : ¬ (SocketType.peer link).IsListener := by
  rintro ⟨_,same⟩
  cases same

structure Socket where
  refcount : Int
  fcb : Option FcbRef
  type : SocketType
  port : Int

/- connection_request. The node that stands for it in a queue is not the one inside it: sys_Connect
   links request_node, which lies on its stack. -/
structure Request where
  admitted : Bool
  peer : SocketRef

inductive NetCV where
  | pipe (r : PipeRef) (cv : PipeCV)
  | reqAvailable (l : SocketRef)
  | connected (r : RequestRef)
  deriving DecidableEq

inductive Fault where
  | freedSocket (a : SocketRef)
  | freedPipe (r : PipeRef)
  | portBounds (p : Int)
  | deadNode (r : RequestRef)
  | notListener (a : SocketRef)
  | notPeer (a : SocketRef)
  deriving DecidableEq

/- What an Accept made of the request it took: it found no file id, or made the requesting
   socket the peer of a new one. -/
inductive Fate where
  | refused
  | honoured (b : SocketRef)
  deriving DecidableEq

/- A reference is a block that xmalloc has handed out, and not its address, which it may hand out
   again (Peers has both). `returned` says that the Connect of a request has returned, so
   that its request_node is gone from the stack. The fields from there on are history; `received`
   and `sent` are the bytes that Reads on a socket have delivered and Writes on it accepted. -/
structure Net where
  sockets : SocketRef → Socket
  nextSocket : SocketRef
  pipes : PipeRef → PipeCB
  nextPipe : PipeRef
  requests : RequestRef → Request
  nextRequest : RequestRef
  portMap : Int → Option SocketRef
  waits : Waits Thread NetCV
  returned : RequestRef → Bool
  fate : RequestRef → Option Fate
  received : SocketRef → List Byte
  sent : SocketRef → List Byte
  socketFrees : SocketRef → Nat
  pipeFrees : PipeRef → Nat
  faults : List Fault

inductive NetCall where
  | connect (a l : SocketRef) (r : RequestRef)
  | accept (l : SocketRef)
  | io (a : SocketRef) (r : PipeRef) (c : Call)
  deriving DecidableEq

inductive Progress where
  | sleeps (call : NetCall)
  | returns (value : Int) (data : List Byte)

section Memory

def Net.note (net : Net) (bad : Prop) [Decidable bad] (f : Fault) : Net :=
  { net with faults := if bad then f :: net.faults else net.faults }

def Net.useSocket (net : Net) (a : SocketRef) : Net :=
  net.note (0 < net.socketFrees a) (.freedSocket a)

def Net.usePipe (net : Net) (r : PipeRef) : Net :=
  net.note (0 < net.pipeFrees r) (.freedPipe r)

/- The nodes of a queue that rl_splice reads or writes. -/
def Net.useNodes (net : Net) (nodes : List RequestRef) : Net :=
  { net with faults := (nodes.filter net.returned).map .deadNode ++ net.faults }

/- Port_Map has MAX_PORT elements. -/
def Net.usePort (net : Net) (p : Int) : Net :=
  net.note (¬ (0 ≤ p ∧ p < maxPort)) (.portBounds p)

def Net.setSocket (net : Net) (a : SocketRef) (s : Socket) : Net :=
  { net with sockets := Function.update net.sockets a s }

def Net.setType (net : Net) (a : SocketRef) (ty : SocketType) : Net :=
  net.setSocket a { net.sockets a with type := ty }

def Net.addRef (net : Net) (a : SocketRef) (n : Int) : Net :=
  net.setSocket a { net.sockets a with refcount := (net.sockets a).refcount + n }

def Net.setFate (net : Net) (r : RequestRef) (f : Fate) : Net :=
  { net with fate := Function.update net.fate r (some f) }

def Net.signal (net : Net) (cv : NetCV) : Net := { net with waits := net.waits.signal cv }

def Net.broadcast (net : Net) (cv : NetCV) : Net := { net with waits := net.waits.broadcast cv }

def Net.wait (net : Net) (cv : NetCV) (t : Thread) : Net := { net with waits := net.waits.wait cv t }

def Net.freeSocket (net : Net) (a : SocketRef) : Net :=
  { net with socketFrees := Function.update net.socketFrees a (net.socketFrees a + 1) }

def Net.freePipe (net : Net) (r : PipeRef) : Net :=
  { net with pipeFrees := Function.update net.pipeFrees r (net.pipeFrees r + 1) }

def Net.setPipe (net : Net) (r : PipeRef) (p : PipeCB) : Net :=
  { net with pipes := Function.update net.pipes r p }

def Net.transfer (net : Net) (a : SocketRef) (c : Call) (data : List Byte) : Net :=
  { net with
    received := Function.update net.received a (net.received a ++ c.taken data)
    sent := Function.update net.sent a (net.sent a ++ c.put data) }

/- The rest of a pipe's block is what the memory held before. -/
def Net.newPipe (net : Net) (reader writer : Option FcbRef) : Net :=
  { net with
    pipes := Function.update net.pipes net.nextPipe
      (acquirePipeCB reader writer (net.pipes net.nextPipe).BUFFER)
    nextPipe := net.nextPipe + 1 }

end Memory

section Calls

/- made is what FCB_reserve gives, if the call gets to it. -/
def sysSocket (net : Net) (port : Int) (made : Option (Fid × FcbRef)) : Option Fid × Net :=
  if port < 0 ∨ port > maxPort then (none, net)
  else
    match made with
    | none => (none, net)
    | some (fid, fcb) =>
      let s : Socket := { refcount := 0, fcb := some fcb, type := .unbound, port := port }
      (some fid, { net.setSocket net.nextSocket s with nextSocket := net.nextSocket + 1 })

def becomeListener (net : Net) (a : SocketRef) : Net :=
  { net.setType a (.listener []) with
    portMap := Function.update net.portMap (net.sockets a).port (some a) }

def sysListen (net : Net) (a : SocketRef) : Int × Net :=
  let net := net.useSocket a
  let s := net.sockets a
  if s.type ≠ .unbound ∨ s.port = noport then (-1, net)
  else
    let net := net.usePort s.port
    match net.portMap s.port with
    | some l =>
      let net := net.useSocket l
      if (net.sockets l).type ≠ .unbound then (-1, net)
      else (0, becomeListener net a)
    | none => (0, becomeListener net a)

def connectPeers (net : Net) (a b : SocketRef) : Net :=
  let r := net.nextPipe
  let aFcb := (net.sockets a).fcb
  let bFcb := (net.sockets b).fcb
  let net := net.newPipe aFcb bFcb
  let net := net.newPipe bFcb aFcb
  let net := net.setType a (.peer { peer := b, readPipe := r, writePipe := r + 1 })
  net.setType b (.peer { peer := a, readPipe := r + 1, writePipe := r })

def acceptRequest (net : Net) (l : SocketRef) (r : RequestRef) (rest : List RequestRef)
    (made : Option (Fid × FcbRef)) : Option Fid × Net :=
  let net := (net.useNodes (r :: rest.take 1)).setType l (.listener rest)
  let q := net.requests r
  let net := { net with requests := Function.update net.requests r { q with admitted := true } }
  let b := net.nextSocket
  match sysSocket net (net.sockets l).port made with
  | (none, net) => (none, (net.setFate r .refused).addRef l (-1))
  | (some fid, net) =>
    let net := connectPeers (net.useSocket q.peer) q.peer b
    let net := net.signal (.connected r)
    (some fid, (net.setFate r (.honoured b)).addRef l (-1))

def fidValue : Option Fid → Int
  | none => -1
  | some fid => fid

def acceptPass (net : Net) (t : Thread) (l : SocketRef) (made : Option (Fid × FcbRef)) :
    Progress × Net :=
  let net := net.useSocket l
  let s := net.sockets l
  let net := net.note (¬ s.type.IsListener) (.notListener l)
  let net := net.usePort s.port
  match net.portMap s.port, s.type.queue with
  | none, _ => (.returns (-1) [], net.addRef l (-1))
  | some _, [] => (.sleeps (.accept l), net.wait (.reqAvailable l) t)
  | some _, r :: rest =>
    let (fid, net) := acceptRequest net l r rest made
    (.returns (fidValue fid) [], net)

def sysAccept (net : Net) (t : Thread) (l : SocketRef) (made : Option (Fid × FcbRef)) :
    Progress × Net :=
  let net := net.useSocket l
  let s := net.sockets l
  if s.port < 0 ∨ s.port > maxPort ∨ s.port = noport then (.returns (-1) [], net)
  else if ¬ s.type.IsListener then (.returns (-1) [], net)
  else acceptPass (net.addRef l 1) t l made

def enqueue (net : Net) (a l : SocketRef) : Net :=
  let r := net.nextRequest
  let queue := (net.sockets l).type.queue
  let net := { net.useNodes (queue.take 1) with
    requests := Function.update net.requests r { admitted := false, peer := a }
    nextRequest := r + 1 }
  net.setType l (.listener (r :: queue))

def sysConnect (net : Net) (t : Thread) (a : SocketRef) (port : Int) : Progress × Net :=
  if port < 0 ∨ port > maxPort then (.returns (-1) [], net)
  else
    let net := net.usePort port
    match net.portMap port with
    | none => (.returns (-1) [], net)
    | some l =>
      let net := net.useSocket l
      if ¬ (net.sockets l).type.IsListener then (.returns (-1) [], net)
      else
        let net := net.useSocket a
        if (net.sockets a).type ≠ .unbound then (.returns (-1) [], net)
        else
          let r := net.nextRequest
          let net := enqueue (net.addRef a 1) a l
          let net := net.signal (.reqAvailable l)
          (.sleeps (.connect a l r), net.wait (.reqAvailable l) t)

/- sys_Connect after its wait on req_available, a part of the listener's block; a request that is
   still queued stays there. -/
def connectPass (net : Net) (a l : SocketRef) (r : RequestRef) (signalled : Bool) :
    Progress × Net :=
  let net := ((net.useSocket l).useSocket a).addRef a (-1)
  let net := { net with returned := Function.update net.returned r true }
  if signalled then
    if (net.requests r).admitted then (.returns 0 [], net) else (.returns (-1) [], net)
  else (.returns (-1) [], net)

def closeEnd (net : Net) (r : PipeRef) : Option PipeCV × PipeCB → Net
  | (none, p) => (net.setPipe r p).freePipe r
  | (some cv, p) => (net.setPipe r p).broadcast (.pipe r cv)

def readerClose (net : Net) (r : PipeRef) : Int × Net :=
  (0, closeEnd (net.usePipe r) r (pipeReaderClose (net.pipes r)))

def writerClose (net : Net) (r : PipeRef) : Int × Net :=
  (0, closeEnd (net.usePipe r) r (pipeWriterClose (net.pipes r)))

inductive ShutdownMode where
  | read | write | both
  deriving DecidableEq

/- A how that is no shutdown_mode does nothing. -/
def sysShutDown (net : Net) (a : SocketRef) (how : ShutdownMode) : Int × Net :=
  let net := net.useSocket a
  match (net.sockets a).type with
  | .peer link =>
    match how with
    | .read => readerClose net link.readPipe
    | .write => writerClose net link.writePipe
    | .both =>
      let (res, net) := readerClose net link.readPipe
      let (res', net) := writerClose net link.writePipe
      (if res + res' = 0 then 0 else -1, net)
  | _ => (0, net.note True (.notPeer a))

def endTransfer (net : Net) (t : Thread) (a : SocketRef) (r : PipeRef) (c : Call) :
    Pass × PipeCB → Progress × Net
  | (.sleeps cv, p) => (.sleeps (.io a r c), (net.setPipe r p).wait (.pipe r cv) t)
  | (.returns value data cv, p) =>
    let net := (net.setPipe r p).transfer a c data
    (.returns value data, match cv with | none => net | some cv => net.broadcast (.pipe r cv))

def PeerSocket.pipe (link : PeerSocket) : Call → PipeRef
  | .read _ => link.readPipe
  | .write _ => link.writePipe

def socketTransfer (net : Net) (t : Thread) (a : SocketRef) (c : Call) : Progress × Net :=
  let net := net.useSocket a
  match (net.sockets a).type with
  | .listener _ | .unbound => (.returns (-1) [], net)
  | .peer link =>
    let r := link.pipe c
    endTransfer (net.usePipe r) t a r c (c.firstPass (net.pipes r))

def ioPass (net : Net) (t : Thread) (a : SocketRef) (r : PipeRef) (c : Call) : Progress × Net :=
  endTransfer (net.usePipe r) t a r c (c.nextPass (net.pipes r))

def freeUnused (net : Net) (a : SocketRef) : Net :=
  if (net.sockets a).refcount = 0 then net.freeSocket a else net

def socketClose (net : Net) (a : SocketRef) : Int × Net :=
  let net := net.useSocket a
  let s := net.sockets a
  match s.type with
  | .unbound => (0, freeUnused net a)
  | .listener _ =>
    let net := net.usePort s.port
    let net := { net with portMap := Function.update net.portMap s.port none }
    let net := net.broadcast (.reqAvailable a)
    if (net.sockets a).refcount = 0 then (0, net.freeSocket a) else (-1, net)
  | .peer link =>
    let (failed, net) := writerClose net link.writePipe
    if failed ≠ 0 then (-1, net)
    else
      let (failed, net) := readerClose net link.readPipe
      if failed ≠ 0 then (-1, net) else (0, freeUnused net a)

end Calls
end KernelSocket
