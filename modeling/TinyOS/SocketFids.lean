import TinyOS.PortTable

/- The socket calls of kernel_socket.c as a process makes them, with a file id: what they check
   of it before they use the socket behind it. -/
namespace SocketFids
open KernelStreams KernelProc KernelPipe KernelSocket Monitor

/- What streamobj points to; null is the NULL of the null device and of the console. -/
inductive StreamObject where
  | null
  | serial (minor : Nat)
  | pipe (r : PipeRef)
  | socket (a : SocketRef)
  | procinfo (cb : Nat)
  deriving DecidableEq

/- What a call must not do; it has no result then. -/
inductive Undefined where
  | fidtBounds (fid : Int)
  | nullFcb
  | otherStream (object : StreamObject)

structure State (Task Dev : Type) where
  kernel : Kernel Task StreamObject Dev
  net : Net

variable {Task Dev : Type}

section Calls

def streamobj (s : State Task Dev) : Option FcbRef → Except Undefined StreamObject
  | none => .error .nullFcb
  | some fcb => .ok (s.kernel.files.FT fcb).stream

/- A call that reads the object as a Socket_CB unless it is NULL. -/
def onSocket (object : StreamObject) (isNull : α) (call : SocketRef → α) : Except Undefined α :=
  match object with
  | .null => .ok isNull
  | .socket a => .ok (call a)
  | other => .error (.otherStream other)

def withNet (s : State Task Dev) : Int × Net → Progress × State Task Dev
  | (value, net) => (reply value, { s with net := net })

def sysListen (s : State Task Dev) (cur : Pid) (sock : Int) :
    Except Undefined (Progress × State Task Dev) :=
  if sock < 0 ∨ sock > maxFileid then .ok (reply (-1), s)
  else do
    let object ← streamobj s (getFcb s.kernel cur sock)
    onSocket object (reply (-1), s) fun a => withNet s (KernelSocket.sysListen s.net a)

def reserved (s : State Task Dev) (cur : Pid) : Option (Fid × FcbRef) :=
  (fcbReserve s.kernel cur 1).1.bind List.head?

/- The new socket of an Accept that has made one gets its file id. -/
def openPeer (s : State Task Dev) (cur : Pid) (l : SocketRef) :
    Progress × Net → Progress × State Task Dev
  | (p, net) =>
    if net.nextSocket = s.net.nextSocket then (p, { s with net := net })
    else
      let port := (s.net.sockets l).port
      (p, { kernel := (KernelStreams.sysSocket s.kernel cur port (.socket s.net.nextSocket)).2
            net := net })

def sysAccept (s : State Task Dev) (cur : Pid) (t : Thread) (lsock : Int) :
    Except Undefined (Progress × State Task Dev) :=
  if 0 ≤ lsock ∧ lsock < maxFileid then do
    let object ← streamobj s (getFcb s.kernel cur lsock)
    onSocket object (reply (-1), s) fun l =>
      openPeer s cur l (KernelSocket.sysAccept s.net t l (reserved s cur))
  else .error (.fidtBounds lsock)

/- The port is looked up before the file id. -/
def sysConnect (s : State Task Dev) (cur : Pid) (t : Thread) (sock port : Int) :
    Except Undefined (Progress × State Task Dev) :=
  if sock < 0 ∨ sock > maxFileid then .ok (reply (-1), s)
  else if port < 0 ∨ port > maxPort then .ok (reply (-1), s)
  else
    let net := s.net.usePort port
    match net.portMap port with
    | none => .ok (reply (-1), { s with net := net })
    | some l =>
      let net := net.useSocket l
      if ¬ (net.sockets l).type.IsListener then .ok (reply (-1), { s with net := net })
      else
        match getFcb s.kernel cur sock with
        | none => .ok (reply (-1), { s with net := net })
        | some fcb =>
          onSocket (s.kernel.files.FT fcb).stream (reply (-1), { s with net := net }) fun a =>
            let (p, net) := KernelSocket.sysConnect s.net t a port
            (p, { s with net := net })

def shutdownMode : Int → Option ShutdownMode
  | 1 => some .read
  | 2 => some .write
  | 3 => some .both
  | _ => none

def sysShutDown (s : State Task Dev) (cur : Pid) (sock how : Int) :
    Except Undefined (Progress × State Task Dev) :=
  if sock < 0 ∨ sock > maxFileid then .ok (reply (-1), s)
  else
    match getFcb s.kernel cur sock with
    | none => .ok (reply (-1), s)
    | some fcb =>
      let object := (s.kernel.files.FT fcb).stream
      if object = .null then .ok (reply (-1), s)
      else
        match shutdownMode how with
        | none => .ok (reply 0, s)
        | some mode =>
          onSocket object (reply (-1), s) fun a => withNet s (KernelSocket.sysShutDown s.net a mode)

end Calls

section Property

inductive SocketCall where
  | listen (sock : Int)
  | accept (t : Thread) (lsock : Int)
  | connect (t : Thread) (sock port : Int)
  | shutDown (sock how : Int)

def SocketCall.run (s : State Task Dev) (cur : Pid) :
    SocketCall → Except Undefined (Progress × State Task Dev)
  | .listen sock => sysListen s cur sock
  | .accept t lsock => sysAccept s cur t lsock
  | .connect t sock port => sysConnect s cur t sock port
  | .shutDown sock how => sysShutDown s cur sock how

def objectOf (s : State Task Dev) (cur : Pid) (fid : Int) : Option StreamObject :=
  (getFcb s.kernel cur fid).map fun fcb => (s.kernel.files.FT fcb).stream

def Net.listens (n : Net) (port : Int) : Prop :=
  ∃ l, n.portMap port = some l ∧ (n.sockets l).type.IsListener

def SocketCall.Legal (s : State Task Dev) (cur : Pid) : SocketCall → Prop
  | .listen sock => ∃ a, objectOf s cur sock = some (.socket a) ∧ (s.net.sockets a).type = .unbound
  | .accept _ lsock =>
    ∃ l, objectOf s cur lsock = some (.socket l) ∧ (s.net.sockets l).type.IsListener
  | .connect _ sock port =>
    (∃ a, objectOf s cur sock = some (.socket a) ∧ (s.net.sockets a).type = .unbound) ∧
    (0 ≤ port ∧ port ≤ maxPort) ∧ Net.listens s.net port
  | .shutDown sock _ =>
    ∃ a link, objectOf s cur sock = some (.socket a) ∧ (s.net.sockets a).type = .peer link

/- The faults are notes about a state and no part of it. -/
def quiet (n : Net) : Net := { n with faults := [] }

def State.quiet (s : State Task Dev) : State Task Dev := { s with net := SocketFids.quiet s.net }

/- Accesses beyond Port_Map and to the peer of a socket that has none. -/
def IsStray : Fault → Prop
  | .portBounds _ | .notPeer _ => True
  | _ => False

def Tame (n : Net) : Prop := ∀ f ∈ n.faults, ¬ IsStray f

/- The call does nothing it must not do, and without a legal file id nothing at all. -/
def Rejects (s : State Task Dev) (cur : Pid) (call : SocketCall) : Prop :=
  ∃ p s', call.run s.quiet cur = .ok (p,s') ∧ Tame s'.net ∧
    (¬ call.Legal s cur → p = reply (-1) ∧ s'.quiet = s.quiet)

def InRange (fid : Int) : Prop := 0 ≤ fid ∧ fid ≤ maxFileid

/- There is a stream, and it is a socket that is ok or has no object. -/
def SocketOrNull (object : Option StreamObject) (ok : SocketRef → Prop) : Prop :=
  match object with
  | some .null => True
  | some (.socket a) => ok a
  | _ => False

/- What a call relies on without a check. -/
def SocketCall.Trusted (s : State Task Dev) (cur : Pid) : SocketCall → Prop
  | .listen sock => InRange sock → SocketOrNull (objectOf s cur sock) fun a =>
    (s.net.sockets a).type = .unbound → (s.net.sockets a).port ≠ noport →
      InTable (s.net.sockets a).port
  | .accept _ lsock => SocketOrNull (objectOf s cur lsock) fun l =>
    (s.net.sockets l).type.IsListener → 0 ≤ (s.net.sockets l).port →
      (s.net.sockets l).port ≤ maxPort → (s.net.sockets l).port ≠ noport →
      InTable (s.net.sockets l).port
  | .connect _ sock port => InRange sock → 0 ≤ port → port ≤ maxPort → InTable port ∧
    (Net.listens s.net port → objectOf s cur sock ≠ none → SocketOrNull (objectOf s cur sock) fun _ => True)
  | .shutDown sock _ => InRange sock → objectOf s cur sock ≠ none →
    SocketOrNull (objectOf s cur sock) fun a => ∃ link, (s.net.sockets a).type = .peer link

end Property

section Notes
variable {n : Net}

theorem tame_note (bad : Prop) [Decidable bad] (f : Fault) :
    Tame (n.note bad f) ↔ Tame n ∧ (bad → ¬ IsStray f) := by
  simp only [Tame, Net.note]
  by_cases yes : bad
  · simp only [if_pos yes, List.mem_cons, forall_eq_or_imp]
    tauto
  · simp [yes]

@[simp] theorem tame_useSocket (a : SocketRef) : Tame (n.useSocket a) ↔ Tame n := by
  simp [Net.useSocket, tame_note, IsStray]

@[simp] theorem tame_usePipe (r : PipeRef) : Tame (n.usePipe r) ↔ Tame n := by
  simp [Net.usePipe, tame_note, IsStray]

@[simp] theorem tame_usePort (p : Int) : Tame (n.usePort p) ↔ Tame n ∧ InTable p := by
  simp only [Net.usePort, tame_note, IsStray, InTable]
  tauto

theorem tame_useNodes (nodes : List RequestRef) : Tame (n.useNodes nodes) ↔ Tame n := by
  simp only [Tame, Net.useNodes, List.mem_append, List.mem_map]
  constructor
  · exact fun tame f old => tame f (.inr old)
  · rintro tame f (⟨r,_,rfl⟩ | old)
    · exact id
    · exact tame f old

theorem tame_same {n' : Net} (same : n'.faults = n.faults) : Tame n' ↔ Tame n := by
  unfold Tame
  rw [same]

@[simp] theorem quiet_note (bad : Prop) [Decidable bad] (f : Fault) :
    quiet (n.note bad f) = quiet n := rfl

@[simp] theorem quiet_useSocket (a : SocketRef) : quiet (n.useSocket a) = quiet n := rfl

@[simp] theorem quiet_usePort (p : Int) : quiet (n.usePort p) = quiet n := rfl

@[simp] theorem quiet_quiet : quiet (quiet n) = quiet n := rfl

theorem tame_quiet : Tame (quiet n) := by simp [Tame, quiet]

end Notes

section Sockets
variable {n : Net}

theorem listen_spec (a : SocketRef) (unstained : Tame n) :
    (Tame (KernelSocket.sysListen n a).2 ↔ ((n.sockets a).type = .unbound →
      (n.sockets a).port ≠ noport → InTable (n.sockets a).port)) ∧
    ((n.sockets a).type ≠ .unbound → (KernelSocket.sysListen n a).1 = -1 ∧
      quiet (KernelSocket.sysListen n a).2 = quiet n) := by
  have sockets : (n.useSocket a).sockets = n.sockets := rfl
  have ports : ((n.useSocket a).usePort (n.sockets a).port).portMap = n.portMap := rfl
  simp only [KernelSocket.sysListen, sockets, ports]
  split
  · rename_i refused
    refine ⟨iff_of_true ?_ ?_,fun _ => ⟨rfl,rfl⟩⟩
    · simpa using unstained
    · tauto
  · rename_i allowed
    obtain ⟨unbound,bound⟩ : (n.sockets a).type = .unbound ∧ (n.sockets a).port ≠ noport := by
      simpa [not_or] using allowed
    refine ⟨?_,fun other => absurd unbound other⟩
    have named : Tame ((n.useSocket a).usePort (n.sockets a).port) ↔ InTable (n.sockets a).port := by
      simp [unstained]
    have listens (n' : Net) : Tame (becomeListener n' a) ↔ Tame n' := tame_same rfl
    split
    · split
      · simp [unbound, bound, unstained]
      · simp [listens, unbound, bound, unstained]
    · simp [listens, unbound, bound, unstained]

theorem tame_acceptRequest (l : SocketRef) (r : RequestRef) (rest : List RequestRef)
    (made : Option (Fid × FcbRef)) : Tame (acceptRequest n l r rest made).2 ↔ Tame n := by
  have popped : Tame (n.useNodes (r :: rest.take 1)) ↔ Tame n := tame_useNodes _
  simp only [acceptRequest, KernelSocket.sysSocket]
  split
  · rename_i refused
    split at refused
    · cases refused
      exact (tame_same rfl).trans popped
    · split at refused
      · cases refused
        exact (tame_same rfl).trans popped
      · cases refused
  · rename_i honoured
    split at honoured
    · cases honoured
    · split at honoured
      · cases honoured
      · cases honoured
        have used := (tame_useSocket (n := n.useNodes (r :: rest.take 1)) (n.requests r).peer).trans
          popped
        exact (tame_same rfl).trans used

theorem pass_spec (t : Thread) (l : SocketRef) (made : Option (Fid × FcbRef)) (unstained : Tame n) :
    Tame (acceptPass n t l made).2 ↔ InTable (n.sockets l).port := by
  have sockets : (n.useSocket l).sockets = n.sockets := rfl
  have entered : Tame (((n.useSocket l).note (¬ (n.sockets l).type.IsListener)
      (.notListener l)).usePort (n.sockets l).port) ↔ InTable (n.sockets l).port := by
    simp [tame_note, IsStray, unstained]
  simp only [acceptPass, sockets]
  split
  · exact (tame_same rfl).trans entered
  · exact (tame_same rfl).trans entered
  · exact (tame_acceptRequest l _ _ made).trans entered

theorem accept_spec (t : Thread) (l : SocketRef) (made : Option (Fid × FcbRef))
    (unstained : Tame n) :
    (Tame (KernelSocket.sysAccept n t l made).2 ↔ ((n.sockets l).type.IsListener →
      0 ≤ (n.sockets l).port → (n.sockets l).port ≤ maxPort → (n.sockets l).port ≠ noport →
      InTable (n.sockets l).port)) ∧
    (¬ (n.sockets l).type.IsListener → (KernelSocket.sysAccept n t l made).1 = reply (-1) ∧
      quiet (KernelSocket.sysAccept n t l made).2 = quiet n) := by
  have sockets : (n.useSocket l).sockets = n.sockets := rfl
  simp only [KernelSocket.sysAccept, sockets]
  split
  · rename_i illegal
    refine ⟨iff_of_true ((tame_useSocket l).mpr unstained) ?_,fun _ => ⟨rfl,rfl⟩⟩
    intro _ low high bound
    omega
  · rename_i legal
    split
    · rename_i idle
      exact ⟨iff_of_true ((tame_useSocket l).mpr unstained) fun listens => absurd listens idle,
        fun _ => ⟨rfl,rfl⟩⟩
    · rename_i listens
      have port : (((n.useSocket l).addRef l 1).sockets l).port = (n.sockets l).port := by
        simp [Net.addRef, Net.setSocket, sockets]
      have pass := pass_spec (n := (n.useSocket l).addRef l 1) t l made
        ((tame_same rfl).mpr ((tame_useSocket l).mpr unstained))
      rw [port] at pass
      refine ⟨pass.trans ⟨fun inside _ _ _ _ => inside,fun inside => ?_⟩,
        fun idle => absurd idle listens⟩
      exact inside (of_not_not listens) (by omega) (by omega) (by omega)

theorem connect_spec (t : Thread) (a : SocketRef) {port : Int} (legal : 0 ≤ port ∧ port ≤ maxPort)
    (unstained : Tame n) :
    (Tame (KernelSocket.sysConnect n t a port).2 ↔ InTable port) ∧
    ((n.sockets a).type ≠ .unbound → (KernelSocket.sysConnect n t a port).1 = reply (-1) ∧
      quiet (KernelSocket.sysConnect n t a port).2 = quiet n) := by
  have ports : (n.usePort port).portMap = n.portMap := rfl
  have named : Tame (n.usePort port) ↔ InTable port := by simp [unstained]
  simp only [KernelSocket.sysConnect, ports]
  rw [if_neg (by omega)]
  split
  · exact ⟨named,fun _ => ⟨rfl,rfl⟩⟩
  · rename_i l mapped
    have looked : Tame ((n.usePort port).useSocket l) ↔ InTable port :=
      (tame_useSocket l).trans named
    split
    · exact ⟨looked,fun _ => ⟨rfl,rfl⟩⟩
    · have used : Tame (((n.usePort port).useSocket l).useSocket a) ↔ InTable port :=
        (tame_useSocket a).trans looked
      split
      · exact ⟨used,fun _ => ⟨rfl,rfl⟩⟩
      · rename_i fresh
        refine ⟨?_,fun other => absurd (of_not_not fresh) other⟩
        exact (tame_same rfl).trans ((tame_useNodes (n := (((n.usePort port).useSocket l).useSocket
          a).addRef a 1) _).trans ((tame_same rfl).trans used))

theorem closeEnd_faults (r : PipeRef) (e : Option PipeCV × PipeCB) :
    (closeEnd n r e).faults = n.faults := by
  obtain ⟨cv,p⟩ := e
  cases cv <;> rfl

theorem tame_readerClose (r : PipeRef) : Tame (readerClose n r).2 ↔ Tame n :=
  (tame_same (closeEnd_faults r _)).trans (tame_usePipe r)

theorem tame_writerClose (r : PipeRef) : Tame (writerClose n r).2 ↔ Tame n :=
  (tame_same (closeEnd_faults r _)).trans (tame_usePipe r)

theorem shut_down_spec (a : SocketRef) (how : ShutdownMode) (unstained : Tame n) :
    Tame (KernelSocket.sysShutDown n a how).2 ↔ ∃ link, (n.sockets a).type = .peer link := by
  have sockets : (n.useSocket a).sockets = n.sockets := rfl
  have used : Tame (n.useSocket a) := (tame_useSocket a).mpr unstained
  simp only [KernelSocket.sysShutDown, sockets]
  split
  · rename_i link known
    refine iff_of_true ?_ ⟨link,known⟩
    cases how with
    | read => exact (tame_readerClose _).mpr used
    | write => exact (tame_writerClose _).mpr used
    | both => exact (tame_writerClose _).mpr ((tame_readerClose _).mpr used)
  · rename_i other
    refine iff_of_false (fun tame => ?_) ?_
    · exact tame (.notPeer a) (by simp [Net.note]) trivial
    · rintro ⟨link,known⟩
      exact other link known

theorem connect_pass_spec (a l : SocketRef) (r : RequestRef) (signalled : Bool)
    (unstained : Tame n) : Tame (connectPass n a l r signalled).2 := by
  have left : Tame (((n.useSocket l).useSocket a).addRef a (-1)) :=
    (tame_same rfl).mpr ((tame_useSocket a).mpr ((tame_useSocket l).mpr unstained))
  simp only [connectPass]
  split
  · split <;> exact left
  · exact left

end Sockets

section Checks
variable {s : State Task Dev} {cur : Pid}

theorem rejects_ok {call : SocketCall} {e : Progress × State Task Dev}
    (run : call.run s.quiet cur = .ok e) : Rejects s cur call ↔
    Tame e.2.net ∧ (¬ call.Legal s cur → e.1 = reply (-1) ∧ e.2.quiet = s.quiet) := by
  constructor
  · rintro ⟨p,s',run',tame,rejected⟩
    cases run.symm.trans run'
    exact ⟨tame,rejected⟩
  · rintro ⟨tame,rejected⟩
    exact ⟨e.1,e.2,run,tame,rejected⟩

theorem rejects_error {call : SocketCall} {u : Undefined} (run : call.run s.quiet cur = .error u) :
    ¬ Rejects s cur call := by
  rintro ⟨p,s',run',_⟩
  cases run.symm.trans run'

/- The call has returned -1 without a change. -/
theorem rejects_failed {call : SocketCall} {n : Net} (same : quiet n = quiet s.net)
    (run : call.run s.quiet cur = .ok (reply (-1),{ s with net := n })) :
    Rejects s cur call ↔ Tame n :=
  (rejects_ok run).trans ⟨And.left,fun tame => ⟨tame,fun _ => ⟨rfl,by simp [State.quiet, same]⟩⟩⟩

theorem rejects_early {call : SocketCall} (run : call.run s.quiet cur = .ok (reply (-1),s.quiet)) :
    Rejects s cur call :=
  (rejects_failed (n := quiet s.net) rfl run).mpr tame_quiet

theorem streamobj_object (fid : Int) : streamobj s.quiet (getFcb s.kernel cur fid) =
    match objectOf s cur fid with
    | none => .error .nullFcb
    | some object => .ok object := by
  unfold objectOf
  cases getFcb s.kernel cur fid <;> rfl

theorem listen_checked (sock : Int) :
    Rejects s cur (.listen sock) ↔ SocketCall.Trusted s cur (.listen sock) := by
  by_cases range : InRange sock
  · have run : SocketCall.run s.quiet cur (.listen sock) =
        (do
          let object ← streamobj s.quiet (getFcb s.kernel cur sock)
          onSocket object (reply (-1),s.quiet) fun a =>
            withNet s.quiet (KernelSocket.sysListen (quiet s.net) a)) := by
      obtain ⟨low,high⟩ := range
      simp only [SocketCall.run, sysListen]
      rw [if_neg (by omega)]
      rfl
    rw [streamobj_object] at run
    have trusted : SocketCall.Trusted s cur (.listen sock) ↔ _ := forall_prop_of_true range
    rw [trusted]
    cases known : objectOf s cur sock with
    | none =>
      rw [known] at run
      exact iff_of_false (rejects_error run) id
    | some object =>
      rw [known] at run
      cases object with
      | null => exact iff_of_true (rejects_early run) trivial
      | socket a =>
        obtain ⟨tame,refuses⟩ := listen_spec (n := quiet s.net) a tame_quiet
        rw [rejects_ok run]
        refine Iff.trans ⟨And.left,fun tame => ⟨tame,fun illegal => ?_⟩⟩ tame
        obtain ⟨failed,same⟩ := refuses fun unbound => illegal ⟨a,known,unbound⟩
        exact ⟨congrArg reply failed,congrArg (State.mk s.kernel) same⟩
      | _ => exact iff_of_false (rejects_error run) id
  · have run : SocketCall.run s.quiet cur (.listen sock) = .ok (reply (-1),s.quiet) := by
      simp only [SocketCall.run, sysListen]
      rw [if_pos (by unfold InRange at range; omega)]
    exact iff_of_true (rejects_early run) fun inside => absurd inside range

theorem open_peer_net (l : SocketRef) (e : Progress × Net) :
    (openPeer s cur l e).1 = e.1 ∧ (openPeer s cur l e).2.net = e.2 := by
  obtain ⟨p,net⟩ := e
  simp only [openPeer]
  split <;> exact ⟨rfl,rfl⟩

theorem open_peer_same (l : SocketRef) {e : Progress × Net}
    (same : e.2.nextSocket = s.net.nextSocket) :
    (openPeer s cur l e).2 = { s with net := e.2 } := by
  obtain ⟨p,net⟩ := e
  simp only [openPeer]
  rw [if_pos same]

theorem accept_checked (t : Thread) (lsock : Int) :
    Rejects s cur (.accept t lsock) ↔ SocketCall.Trusted s cur (.accept t lsock) := by
  simp only [SocketCall.Trusted]
  by_cases range : 0 ≤ lsock ∧ lsock < maxFileid
  · have run : SocketCall.run s.quiet cur (.accept t lsock) =
        (do
          let object ← streamobj s.quiet (getFcb s.kernel cur lsock)
          onSocket object (reply (-1),s.quiet) fun l => openPeer s.quiet cur l
            (KernelSocket.sysAccept (quiet s.net) t l (reserved s.quiet cur))) := by
      simp only [SocketCall.run, sysAccept]
      rw [if_pos range]
      rfl
    rw [streamobj_object] at run
    cases known : objectOf s cur lsock with
    | none =>
      rw [known] at run
      exact iff_of_false (rejects_error run) id
    | some object =>
      rw [known] at run
      cases object with
      | null => exact iff_of_true (rejects_early run) trivial
      | socket l =>
        obtain ⟨tame,refuses⟩ := accept_spec (n := quiet s.net) t l (reserved s.quiet cur) tame_quiet
        obtain ⟨value,net⟩ := @open_peer_net _ _ s.quiet cur l
          (KernelSocket.sysAccept (quiet s.net) t l (reserved s.quiet cur))
        rw [rejects_ok run, value, net]
        refine Iff.trans ⟨And.left,fun tame => ⟨tame,fun illegal => ?_⟩⟩ tame
        obtain ⟨failed,same⟩ := refuses fun listens => illegal ⟨l,known,listens⟩
        have next : (KernelSocket.sysAccept (quiet s.net) t l (reserved s.quiet cur)).2.nextSocket =
            s.quiet.net.nextSocket := by
          have counters := congrArg Net.nextSocket same
          exact counters
        have unopened := @open_peer_same _ _ _ cur l _ next
        exact ⟨failed,(congrArg State.quiet unopened).trans (congrArg (State.mk s.kernel) same)⟩
      | _ => exact iff_of_false (rejects_error run) id
  · have run : SocketCall.run s.quiet cur (.accept t lsock) = .error (.fidtBounds lsock) := by
      simp only [SocketCall.run, sysAccept]
      rw [if_neg range]
    have absent : objectOf s cur lsock = none := by
      unfold objectOf getFcb
      rw [dif_neg range]
      rfl
    rw [absent]
    exact iff_of_false (rejects_error run) id

theorem shut_down_legal {object : StreamObject} {sock : Int} (how : Int) (some' : object ≠ .null)
    (known : objectOf s cur sock = some object) :
    SocketCall.Legal s cur (.shutDown sock how) ↔
      SocketOrNull (some object) fun a => ∃ link, (s.net.sockets a).type = .peer link := by
  simp only [SocketCall.Legal, known, Option.some.injEq]
  constructor
  · rintro ⟨a,link,rfl,peer⟩
    exact ⟨link,peer⟩
  · intro ok
    cases object with
    | null => exact absurd rfl some'
    | socket a => exact ⟨a,ok.choose,rfl,ok.choose_spec⟩
    | _ => cases ok

theorem shut_down_checked (sock how : Int) :
    Rejects s cur (.shutDown sock how) ↔ SocketCall.Trusted s cur (.shutDown sock how) := by
  simp only [SocketCall.Trusted]
  by_cases range : InRange sock
  · have run : SocketCall.run s.quiet cur (.shutDown sock how) =
        match objectOf s cur sock with
        | none => .ok (reply (-1),s.quiet)
        | some object =>
          if object = .null then .ok (reply (-1),s.quiet)
          else
            match shutdownMode how with
            | none => .ok (reply 0,s.quiet)
            | some mode => onSocket object (reply (-1),s.quiet) fun a =>
              withNet s.quiet (KernelSocket.sysShutDown (quiet s.net) a mode) := by
      obtain ⟨low,high⟩ := range
      have kernel : s.quiet.kernel = s.kernel := rfl
      simp only [SocketCall.run, sysShutDown, objectOf, kernel]
      rw [if_neg (by omega)]
      cases getFcb s.kernel cur sock <;> rfl
    have trusted : ∀ p : Prop, (InRange sock → p) ↔ p := fun p => forall_prop_of_true range
    rw [trusted]
    cases known : objectOf s cur sock with
    | none =>
      rw [known] at run
      exact iff_of_true (rejects_early run)
        fun object => absurd rfl object
    | some object =>
      have opened : ∀ p : Prop, (some object ≠ none → p) ↔ p := fun p =>
        forall_prop_of_true (by simp)
      rw [known] at run
      rw [opened]
      by_cases null : object = .null
      · subst null
        exact iff_of_true (rejects_early run) trivial
      · simp only [if_neg null] at run
        cases mode : shutdownMode how with
        | none =>
          rw [mode] at run
          rw [rejects_ok run, ← shut_down_legal how null known]
          constructor
          · rintro ⟨_,rejected⟩
            by_contra illegal
            cases (rejected illegal).1
          · exact fun legal => ⟨tame_quiet,fun illegal => absurd legal illegal⟩
        | some mode' =>
          rw [mode] at run
          cases object with
          | null => exact absurd rfl null
          | socket a =>
            have tame := shut_down_spec (n := quiet s.net) a mode' tame_quiet
            rw [rejects_ok run]
            refine Iff.trans ⟨And.left,fun tame' => ⟨tame',fun illegal => ?_⟩⟩ tame
            exact absurd ((shut_down_legal how null known).mpr (tame.mp tame')) illegal
          | _ => exact iff_of_false (rejects_error run) id
  · have run : SocketCall.run s.quiet cur (.shutDown sock how) = .ok (reply (-1),s.quiet) := by
      simp only [SocketCall.run, sysShutDown]
      rw [if_pos (by unfold InRange at range; omega)]
    exact iff_of_true (rejects_early run)
      fun inside => absurd inside range

/- A Connect with a file id and a port in range. -/
theorem connect_run (t : Thread) {sock port : Int} (range : InRange sock)
    (legal : 0 ≤ port ∧ port ≤ maxPort) :
    SocketCall.run s.quiet cur (.connect t sock port) =
      match s.net.portMap port with
      | none => .ok (reply (-1),{ s with net := (quiet s.net).usePort port })
      | some l =>
        if (s.net.sockets l).type.IsListener then
          match objectOf s cur sock with
          | none => .ok (reply (-1),{ s with net := ((quiet s.net).usePort port).useSocket l })
          | some object => onSocket object
              (reply (-1),{ s with net := ((quiet s.net).usePort port).useSocket l }) fun a =>
                ((KernelSocket.sysConnect (quiet s.net) t a port).1,
                  { s with net := (KernelSocket.sysConnect (quiet s.net) t a port).2 })
        else .ok (reply (-1),{ s with net := ((quiet s.net).usePort port).useSocket l }) := by
  obtain ⟨low,high⟩ := range
  have ports : ((quiet s.net).usePort port).portMap = s.net.portMap := rfl
  have sockets (l : SocketRef) :
      (((quiet s.net).usePort port).useSocket l).sockets = s.net.sockets := rfl
  have kernel : s.quiet.kernel = s.kernel := rfl
  have net : s.quiet.net = quiet s.net := rfl
  simp only [SocketCall.run, sysConnect, objectOf, kernel, net, ports, sockets, ite_not]
  rw [if_neg (by omega), if_neg (by omega)]
  cases s.net.portMap port with
  | none => rfl
  | some l =>
    simp only
    split
    · cases getFcb s.kernel cur sock <;> rfl
    · rfl

theorem connect_checked (t : Thread) (sock port : Int) :
    Rejects s cur (.connect t sock port) ↔ SocketCall.Trusted s cur (.connect t sock port) := by
  simp only [SocketCall.Trusted]
  by_cases range : InRange sock
  · by_cases legal : 0 ≤ port ∧ port ≤ maxPort
    · have run := @connect_run _ _ s cur t _ _ range legal
      have named : Tame ((quiet s.net).usePort port) ↔ InTable port := by simp [tame_quiet]
      have looked (l : SocketRef) : Tame (((quiet s.net).usePort port).useSocket l) ↔ InTable port :=
        (tame_useSocket l).trans named
      have checks : ∀ p : Prop, (InRange sock → 0 ≤ port → port ≤ maxPort → p) ↔ p := fun p =>
        ⟨fun ok => ok range legal.1 legal.2,fun ok _ _ _ => ok⟩
      rw [checks]
      cases mapped : s.net.portMap port with
      | none =>
        rw [mapped] at run
        have idle : ¬ Net.listens s.net port := by
          rintro ⟨l,here,_⟩
          cases mapped.symm.trans here
        rw [rejects_failed (by rfl) run, named]
        exact ⟨fun inside => ⟨inside,fun listens => absurd listens idle⟩,And.left⟩
      | some l =>
        rw [mapped] at run
        by_cases listens : (s.net.sockets l).type.IsListener
        · have here : Net.listens s.net port := ⟨l,mapped,listens⟩
          simp only [if_pos listens] at run
          cases known : objectOf s cur sock with
          | none =>
            rw [known] at run
            rw [rejects_failed (by rfl) run, looked]
            exact ⟨fun inside => ⟨inside,fun _ object => absurd rfl object⟩,And.left⟩
          | some object =>
            rw [known] at run
            cases object with
            | null =>
              rw [rejects_failed (by rfl) run, looked]
              exact ⟨fun inside => ⟨inside,fun _ _ => trivial⟩,And.left⟩
            | socket a =>
              obtain ⟨tame,refuses⟩ := connect_spec (n := quiet s.net) t a legal tame_quiet
              rw [rejects_ok run]
              refine ⟨fun rejected => ⟨tame.mp rejected.1,fun _ _ => trivial⟩,fun ok => ?_⟩
              refine ⟨tame.mpr ok.1,fun illegal => ?_⟩
              obtain ⟨failed,same⟩ := refuses fun unbound => illegal ⟨⟨a,known,unbound⟩,legal,here⟩
              exact ⟨failed,congrArg (State.mk s.kernel) same⟩
            | _ => exact iff_of_false (rejects_error run) fun ok => ok.2 here (by simp)
        · have idle : ¬ Net.listens s.net port := by
            rintro ⟨l',here,listens'⟩
            cases mapped.symm.trans here
            exact listens listens'
          simp only [if_neg listens] at run
          rw [rejects_failed (by rfl) run, looked]
          exact ⟨fun inside => ⟨inside,fun here => absurd here idle⟩,And.left⟩
    · have run : SocketCall.run s.quiet cur (.connect t sock port) = .ok (reply (-1),s.quiet) := by
        simp only [SocketCall.run, sysConnect]
        rw [if_neg (by unfold InRange at range; omega), if_pos (by omega)]
      exact iff_of_true (rejects_early run)
        fun _ low high => absurd ⟨low,high⟩ legal
  · have run : SocketCall.run s.quiet cur (.connect t sock port) = .ok (reply (-1),s.quiet) := by
      simp only [SocketCall.run, sysConnect]
      rw [if_pos (by unfold InRange at range; omega)]
    exact iff_of_true (rejects_early run)
      fun inside => absurd inside range

/-- A call rejects every illegal file id, and keeps to the memory it may use, if and only if what
    it trusts holds; the later passes of Accept and Connect add only the port of the listener. -/
theorem socket_calls_checked (s : State Task Dev) (cur : Pid) :
    (∀ call : SocketCall, Rejects s cur call ↔ call.Trusted s cur) ∧
    (∀ t l made, Tame (acceptPass (quiet s.net) t l made).2 ↔ InTable (s.net.sockets l).port) ∧
    ∀ a l r signalled, Tame (connectPass (quiet s.net) a l r signalled).2 := by
  refine ⟨fun call => ?_,fun t l made => pass_spec t l made tame_quiet,
    fun a l r signalled => connect_pass_spec a l r signalled tame_quiet⟩
  cases call with
  | listen sock => exact listen_checked sock
  | accept t lsock => exact accept_checked t lsock
  | connect t sock port => exact connect_checked t sock port
  | shutDown sock how => exact shut_down_checked sock how

end Checks

def bootState : State Unit Unit :=
  { kernel := boot (initializeFiles .null ()) () 0 none
    net := (bootNet fun _ => blankPipe).net }

/-- Listen follows the null pointer of a file id that is not open. -/
theorem listen_follows_null : ¬ Rejects bootState initpcb (.listen 7) := by
  refine rejects_error (u := .nullFcb) ?_
  rfl

end SocketFids
