import TinyOS.SocketRun

/- The sockets, the port table and the connection requests without the bytes, the waits and the
   counters: what one step of a thread can do to them. -/
namespace KernelSocket
open KernelStreams KernelProc KernelPipe Monitor Transition

structure View where
  type : SocketRef → SocketType
  port : SocketRef → Int
  fcb : SocketRef → Option FcbRef
  nextSocket : SocketRef
  nextPipe : PipeRef
  nextRequest : RequestRef
  owner : RequestRef → SocketRef
  admitted : RequestRef → Bool
  fate : RequestRef → Option Fate
  portMap : Int → Option SocketRef
  isOpen : SocketRef → Prop

def Net.view (net : Net) (isOpen : SocketRef → Prop) : View :=
  { type := fun a => (net.sockets a).type
    port := fun a => (net.sockets a).port
    fcb := fun a => (net.sockets a).fcb
    nextSocket := net.nextSocket
    nextPipe := net.nextPipe
    nextRequest := net.nextRequest
    owner := fun r => (net.requests r).peer
    admitted := fun r => (net.requests r).admitted
    fate := net.fate
    portMap := net.portMap
    isOpen := isOpen }

def NetRun.view (s : NetRun) : View := s.net.view fun a => 0 < s.refcount a

section Effects

def View.setType (v : View) (a : SocketRef) (ty : SocketType) : View :=
  { v with type := Function.update v.type a ty }

def View.withOpen (v : View) (isOpen : SocketRef → Prop) : View := { v with isOpen := isOpen }

def View.addSocket (v : View) (port : Int) (fcb : FcbRef) : View :=
  { v with
    type := Function.update v.type v.nextSocket .unbound
    port := Function.update v.port v.nextSocket port
    fcb := Function.update v.fcb v.nextSocket (some fcb)
    nextSocket := v.nextSocket + 1 }

def View.openNew (v w : View) : View :=
  w.withOpen fun x => v.isOpen x ∨ x = v.nextSocket

def View.listen (v : View) (a : SocketRef) : View :=
  { v.setType a (.listener []) with portMap := Function.update v.portMap (v.port a) (some a) }

def View.enqueue (v : View) (a l : SocketRef) : View :=
  { v.setType l (.listener (v.nextRequest :: (v.type l).queue)) with
    nextRequest := v.nextRequest + 1
    owner := Function.update v.owner v.nextRequest a
    admitted := Function.update v.admitted v.nextRequest false }

def View.takeRequest (v : View) (l : SocketRef) (r : RequestRef) (rest : List RequestRef) : View :=
  { v.setType l (.listener rest) with admitted := Function.update v.admitted r true }

def View.setFate (v : View) (r : RequestRef) (f : Fate) : View :=
  { v with fate := Function.update v.fate r (some f) }

def View.connectPeers (v : View) (a b : SocketRef) : View :=
  { (v.setType a (.peer { peer := b, readPipe := v.nextPipe, writePipe := v.nextPipe + 1 })).setType b
      (.peer { peer := a, readPipe := v.nextPipe + 1, writePipe := v.nextPipe }) with
    nextPipe := v.nextPipe + 2 }

/- An Accept takes the request r and finds no file id. -/
def View.refuse (v : View) (l : SocketRef) (r : RequestRef) (rest : List RequestRef) : View :=
  (v.takeRequest l r rest).setFate r .refused

/- An Accept takes the request r and gets a new socket. -/
def View.honour (v : View) (l : SocketRef) (r : RequestRef) (rest : List RequestRef)
    (fcb : FcbRef) : View :=
  (((v.takeRequest l r rest).addSocket (v.port l) fcb).connectPeers (v.owner r) v.nextSocket).setFate r
    (.honoured v.nextSocket)

/- socket_close, when the last reference has gone. -/
def View.unmap (v : View) (a : SocketRef) : View :=
  { v with
    portMap := if (v.type a).IsListener then Function.update v.portMap (v.port a) none
      else v.portMap }

def View.close (v : View) (a : SocketRef) : View :=
  (v.unmap a).withOpen fun x => v.isOpen x ∧ x ≠ a

/- The request an Accept on the listener would take. -/
def View.Front (v : View) (l : SocketRef) (r : RequestRef) : Prop :=
  v.portMap (v.port l) ≠ none ∧ ∃ rest, v.type l = .listener (r :: rest)

end Effects

/- What later results ask of a step: the socket that has begun to listen, got a request or was
   closed, the request that an Accept has taken. -/
inductive Event where
  | other
  | listened (a : SocketRef)
  | enqueued (l : SocketRef)
  | closed (a : SocketRef)
  | refused (r : RequestRef)
  | honoured (r : RequestRef)

/- One step. -/
inductive Move (v : View) : Event → View → Prop where
  | quiet : Move v .other v
  | socket (port : Int) (fcb : FcbRef) (legal : 0 ≤ port ∧ port ≤ maxPort) :
      Move v .other (v.openNew (v.addSocket port fcb))
  | listen (a : SocketRef) (opened : v.isOpen a) (unbound : v.type a = .unbound)
      (bound : v.port a ≠ noport)
      (free : ∀ l, v.portMap (v.port a) = some l → v.type l = .unbound) :
      Move v (.listened a) (v.listen a)
  | enqueue (a l : SocketRef) (port : Int) (opened : v.isOpen a) (unbound : v.type a = .unbound)
      (mapped : v.portMap port = some l) (listens : (v.type l).IsListener) :
      Move v (.enqueued l) (v.enqueue a l)
  | refuse (l : SocketRef) (r : RequestRef) (rest : List RequestRef)
      (queue : v.type l = .listener (r :: rest)) : Move v (.refused r) (v.refuse l r rest)
  | honour (l : SocketRef) (r : RequestRef) (rest : List RequestRef) (fcb : FcbRef)
      (queue : v.type l = .listener (r :: rest)) (legal : 0 ≤ v.port l ∧ v.port l ≤ maxPort) :
      Move v (.honoured r) (v.openNew (v.honour l r rest fcb))
  | close (a : SocketRef) (opened : v.isOpen a) : Move v (.closed a) (v.close a)

section NetViews
variable {n : Net} {o : SocketRef → Prop}

@[simp] theorem note_view (bad : Prop) [Decidable bad] (f : Fault) :
    (n.note bad f).view o = n.view o := rfl

@[simp] theorem useSocket_view (a : SocketRef) : (n.useSocket a).view o = n.view o := rfl

@[simp] theorem usePipe_view (r : PipeRef) : (n.usePipe r).view o = n.view o := rfl

@[simp] theorem useNodes_view (nodes : List RequestRef) : (n.useNodes nodes).view o = n.view o :=
  rfl

@[simp] theorem returned_view (returned : RequestRef → Bool) :
    ({ n with returned := returned } : Net).view o = n.view o := rfl

@[simp] theorem usePort_view (p : Int) : (n.usePort p).view o = n.view o := rfl

@[simp] theorem signal_view (cv : NetCV) : (n.signal cv).view o = n.view o := rfl

@[simp] theorem broadcast_view (cv : NetCV) : (n.broadcast cv).view o = n.view o := rfl

@[simp] theorem wait_view (cv : NetCV) (t : Thread) : (n.wait cv t).view o = n.view o := rfl

@[simp] theorem freeSocket_view (a : SocketRef) : (n.freeSocket a).view o = n.view o := rfl

@[simp] theorem freePipe_view (r : PipeRef) : (n.freePipe r).view o = n.view o := rfl

@[simp] theorem setPipe_view (r : PipeRef) (p : PipeCB) :
    (n.setPipe r p).view o = n.view o := rfl

@[simp] theorem transfer_view (a : SocketRef) (c : Call) (data : List Byte) :
    (n.transfer a c data).view o = n.view o := rfl

@[simp] theorem setFate_view (r : RequestRef) (f : Fate) :
    (n.setFate r f).view o = (n.view o).setFate r f := rfl

@[simp] theorem setType_view (a : SocketRef) (ty : SocketType) :
    (n.setType a ty).view o = (n.view o).setType a ty := by
  simp only [Net.view, Net.setType, Net.setSocket, View.setType, View.mk.injEq, and_true]
  refine ⟨?_,?_,?_⟩ <;> funext x <;> by_cases same : x = a <;> simp [same]

@[simp] theorem addRef_view (a : SocketRef) (c : Int) :
    (n.addRef a c).view o = n.view o := by
  simp only [Net.view, Net.addRef, Net.setSocket, View.mk.injEq, and_true]
  refine ⟨?_,?_,?_⟩ <;> funext x <;> by_cases same : x = a <;> simp [same]

@[simp] theorem freeUnused_view (a : SocketRef) : (freeUnused n a).view o = n.view o := by
  unfold freeUnused
  split <;> rfl

@[simp] theorem closeEnd_view (r : PipeRef) (e : Option PipeCV × PipeCB) :
    (closeEnd n r e).view o = n.view o := by
  obtain ⟨cv,p⟩ := e
  cases cv <;> rfl

@[simp] theorem readerClose_view (r : PipeRef) : (readerClose n r).2.view o = n.view o := by
  simp [readerClose]

@[simp] theorem writerClose_view (r : PipeRef) : (writerClose n r).2.view o = n.view o := by
  simp [writerClose]

@[simp] theorem endTransfer_view (t : Thread) (a : SocketRef) (r : PipeRef) (c : Call)
    (e : Pass × PipeCB) : (endTransfer n t a r c e).2.view o = n.view o := by
  obtain ⟨pass,p⟩ := e
  cases pass with
  | sleeps cv => rfl
  | returns value data cv => cases cv <;> rfl

@[simp] theorem sysShutDown_view (a : SocketRef) (how : ShutdownMode) :
    (sysShutDown n a how).2.view o = n.view o := by
  simp only [sysShutDown]
  split
  · cases how <;> simp
  · simp

@[simp] theorem socketTransfer_view (t : Thread) (a : SocketRef) (c : Call) :
    (socketTransfer n t a c).2.view o = n.view o := by
  simp only [socketTransfer]
  split <;> simp

@[simp] theorem ioPass_view (t : Thread) (a : SocketRef) (r : PipeRef) (c : Call) :
    (ioPass n t a r c).2.view o = n.view o := by
  simp [ioPass]

@[simp] theorem connectPass_view (a l : SocketRef) (r : RequestRef) (signalled : Bool) :
    (connectPass n a l r signalled).2.view o = n.view o := by
  simp only [connectPass]
  split
  · split <;> simp
  · simp

theorem socketClose_view (a : SocketRef) :
    (socketClose n a).2.view o = (n.view o).unmap a := by
  have type : (n.view o).type a = (n.sockets a).type := rfl
  have sockets : (n.useSocket a).sockets = n.sockets := rfl
  cases known : (n.sockets a).type with
  | unbound => simp [socketClose, View.unmap, type, sockets, known]
  | listener queue =>
    simp only [socketClose, View.unmap, type, sockets, known, listener_isListener, if_true]
    split <;> rfl
  | peer link =>
    simp [socketClose, View.unmap, type, sockets, known, writerClose, readerClose]

theorem sysSocket_nextPipe (port : Int) (made : Option (Fid × FcbRef)) :
    (sysSocket n port made).2.nextPipe = n.nextPipe := by
  unfold sysSocket
  split
  · rfl
  · cases made <;> rfl

theorem sysSocket_view (port : Int) (made : Option (Fid × FcbRef)) :
    ((sysSocket n port made).1 = none ∧ (sysSocket n port made).2 = n ∧
      (made = none ∨ ¬ (0 ≤ port ∧ port ≤ maxPort))) ∨
    ∃ fid fcb, made = some (fid,fcb) ∧ (0 ≤ port ∧ port ≤ maxPort) ∧
      (sysSocket n port made).1 = some fid ∧
      (sysSocket n port made).2.view o = (n.view o).addSocket port fcb := by
  unfold sysSocket
  split
  · rename_i illegal
    exact Or.inl ⟨rfl,rfl,Or.inr (by omega)⟩
  · rename_i legal
    cases made with
    | none => exact Or.inl ⟨rfl,rfl,Or.inl rfl⟩
    | some e =>
      obtain ⟨fid,fcb⟩ := e
      refine Or.inr ⟨fid,fcb,rfl,by omega,rfl,?_⟩
      simp only [Net.view, Net.setSocket, View.addSocket, View.mk.injEq, and_true]
      refine ⟨?_,?_,?_⟩ <;> funext x <;> by_cases same : x = n.nextSocket <;> simp [same]

/- The socket may listen. -/
def View.Listenable (v : View) (a : SocketRef) : Prop :=
  v.type a = .unbound ∧ v.port a ≠ noport ∧
    ∀ l, v.portMap (v.port a) = some l → v.type l = .unbound

theorem becomeListener_view {net' : Net} (a : SocketRef) (same : net'.view o = n.view o) :
    (becomeListener net' a).view o = (n.view o).listen a := by
  have typed := setType_view (n := net') (o := o) a (.listener [])
  rw [View.listen, ← same, ← typed]
  rfl

theorem sysListen_view (a : SocketRef) :
    ((sysListen n a).1 = 0 ∧ (n.view o).Listenable a ∧
      (sysListen n a).2.view o = (n.view o).listen a) ∨
    ((sysListen n a).1 = -1 ∧ ¬ (n.view o).Listenable a ∧
      (sysListen n a).2.view o = n.view o) := by
  have sockets : (n.useSocket a).sockets = n.sockets := rfl
  have ports : ((n.useSocket a).usePort (n.sockets a).port).portMap = n.portMap := rfl
  simp only [sysListen, sockets, ports]
  split
  · rename_i refused
    refine Or.inr ⟨rfl,?_,rfl⟩
    rintro ⟨unbound,bound,_⟩
    rcases refused with typed | unported
    · exact typed unbound
    · exact bound unported
  · rename_i allowed
    have unbound : (n.sockets a).type = .unbound := by
      by_contra other
      exact allowed (Or.inl other)
    have bound : (n.sockets a).port ≠ noport := fun zero => allowed (Or.inr zero)
    split
    · rename_i l mapped
      split
      · rename_i busy
        refine Or.inr ⟨rfl,?_,rfl⟩
        rintro ⟨_,_,free⟩
        exact busy (free l mapped)
      · rename_i stale
        refine Or.inl ⟨rfl,⟨unbound,bound,?_⟩,becomeListener_view a (by simp)⟩
        intro l' mapped'
        cases mapped.symm.trans mapped'
        by_contra other
        exact stale other
    · rename_i unmapped
      refine Or.inl ⟨rfl,⟨unbound,bound,?_⟩,becomeListener_view a (by simp)⟩
      intro l mapped
      cases unmapped.symm.trans mapped

theorem enqueue_view {net' : Net} (a : SocketRef) {l : SocketRef}
    (same : net'.view o = n.view o) :
    (enqueue net' a l).view o = (n.view o).enqueue a l := by
  unfold enqueue
  rw [setType_view, View.enqueue, ← same]
  simp only [Net.view, Net.useNodes, View.setType, View.mk.injEq, and_true, true_and]
  refine ⟨?_,?_⟩ <;> funext r <;> by_cases new : r = net'.nextRequest <;> simp [new]

theorem sysConnect_view (t : Thread) (a : SocketRef) (port : Int) :
    ((sysConnect n t a port).1 = .returns (-1) [] ∧
      (sysConnect n t a port).2.view o = n.view o) ∨
    ∃ l, (0 ≤ port ∧ port ≤ maxPort) ∧ n.portMap port = some l ∧
      (n.sockets l).type.IsListener ∧ (n.sockets a).type = .unbound ∧
      (sysConnect n t a port).1 = .sleeps (.connect a l n.nextRequest) ∧
      (sysConnect n t a port).2.view o = (n.view o).enqueue a l := by
  have ports : (n.usePort port).portMap = n.portMap := rfl
  simp only [sysConnect, ports]
  split
  · exact Or.inl ⟨rfl,rfl⟩
  · rename_i legal
    split
    · exact Or.inl ⟨rfl,rfl⟩
    · rename_i l mapped
      split
      · exact Or.inl ⟨rfl,rfl⟩
      · rename_i listens
        split
        · exact Or.inl ⟨rfl,rfl⟩
        · rename_i fresh
          have unbound : (n.sockets a).type = .unbound := by
            by_contra other
            exact fresh other
          refine Or.inr ⟨l,by omega,mapped,of_not_not listens,unbound,rfl,?_⟩
          simp only [wait_view, signal_view]
          exact enqueue_view a (by simp)

inductive AcceptOutcome (v : View) (l : SocketRef) (made : Option (Fid × FcbRef)) :
    Progress → View → Prop where
  | closed (unmapped : v.portMap (v.port l) = none) : AcceptOutcome v l made (.returns (-1) []) v
  | sleeps (mapped : v.portMap (v.port l) ≠ none) (empty : (v.type l).queue = []) :
      AcceptOutcome v l made (.sleeps (.accept l)) v
  | refused (r : RequestRef) (rest : List RequestRef) (mapped : v.portMap (v.port l) ≠ none)
      (queue : v.type l = .listener (r :: rest))
      (no : made = none ∨ ¬ (0 ≤ v.port l ∧ v.port l ≤ maxPort)) :
      AcceptOutcome v l made (.returns (-1) []) (v.refuse l r rest)
  | honoured (r : RequestRef) (rest : List RequestRef) (fid : Fid) (fcb : FcbRef)
      (mapped : v.portMap (v.port l) ≠ none) (queue : v.type l = .listener (r :: rest))
      (yes : made = some (fid,fcb)) (legal : 0 ≤ v.port l ∧ v.port l ≤ maxPort) :
      AcceptOutcome v l made (.returns fid []) (v.honour l r rest fcb)

/- The listener's queue is popped and the request marked. -/
def popRequest (n : Net) (l : SocketRef) (r : RequestRef) (rest : List RequestRef) : Net :=
  { (n.useNodes (r :: rest.take 1)).setType l (.listener rest) with
    requests := Function.update n.requests r { n.requests r with admitted := true } }

@[simp] theorem popRequest_port (n : Net) (l : SocketRef) (r : RequestRef)
    (rest : List RequestRef) (x : SocketRef) :
    ((popRequest n l r rest).sockets x).port = (n.sockets x).port := by
  by_cases same : x = l
  · simp [popRequest, Net.useNodes, Net.setType, Net.setSocket, same]
  · simp [popRequest, Net.useNodes, Net.setType, Net.setSocket, same]

/-- The request is refused or honoured, as there is a new socket or not. -/
theorem acceptRequest_cases (n : Net) (l : SocketRef) (r : RequestRef) (rest : List RequestRef)
    (made : Option (Fid × FcbRef)) :
    (∃ net', sysSocket (popRequest n l r rest) (n.sockets l).port made = (none,net') ∧
      acceptRequest n l r rest made = (none,(net'.setFate r .refused).addRef l (-1))) ∨
    ∃ fid net', sysSocket (popRequest n l r rest) (n.sockets l).port made = (some fid,net') ∧
      acceptRequest n l r rest made = (some fid,
        (((connectPeers (net'.useSocket (n.requests r).peer) (n.requests r).peer
          n.nextSocket).signal (.connected r)).setFate r (.honoured n.nextSocket)).addRef l (-1)) := by
  rw [← popRequest_port n l r rest l]
  simp only [acceptRequest]
  split
  · rename_i net' result
    exact Or.inl ⟨net',result,rfl⟩
  · rename_i fid net' result
    exact Or.inr ⟨fid,net',result,rfl⟩

theorem popRequest_view (l : SocketRef) (r : RequestRef) (rest : List RequestRef) :
    (popRequest n l r rest).view o = (n.view o).takeRequest l r rest := by
  have typed := setType_view (n := n.useNodes (r :: rest.take 1)) (o := o) l (.listener rest)
  rw [useNodes_view] at typed
  unfold popRequest View.takeRequest
  rw [← typed]
  simp only [Net.view, View.mk.injEq, and_true, true_and]
  refine ⟨?_,?_⟩ <;> funext x <;> by_cases same : x = r <;>
    simp [same, Net.useNodes, Net.setType, Net.setSocket]

theorem connectPeers_view (a b : SocketRef) :
    (connectPeers n a b).view o = (n.view o).connectPeers a b := by
  simp only [connectPeers, setType_view]
  rfl

theorem acceptRequest_outcome (l : SocketRef) (r : RequestRef) (rest : List RequestRef)
    (made : Option (Fid × FcbRef)) :
    ((acceptRequest n l r rest made).1 = none ∧
      (made = none ∨ ¬ (0 ≤ (n.sockets l).port ∧ (n.sockets l).port ≤ maxPort)) ∧
      (acceptRequest n l r rest made).2.view o = (n.view o).refuse l r rest) ∨
    ∃ fid fcb, made = some (fid,fcb) ∧
      (0 ≤ (n.sockets l).port ∧ (n.sockets l).port ≤ maxPort) ∧
      (acceptRequest n l r rest made).1 = some fid ∧
      (acceptRequest n l r rest made).2.view o = (n.view o).honour l r rest fcb := by
  have popped := popRequest_view (n := n) (o := o) l r rest
  have spec := sysSocket_view (n := popRequest n l r rest) (o := o) (n.sockets l).port made
  rcases acceptRequest_cases n l r rest made with
    ⟨net',result,accepted⟩ | ⟨fid,net',result,accepted⟩
  · rw [result] at spec
    rw [accepted]
    rcases spec with ⟨_,same,no⟩ | ⟨_,_,_,_,other,_⟩
    · obtain rfl : net' = popRequest n l r rest := same
      refine Or.inl ⟨rfl,no,?_⟩
      simp [popped, View.refuse]
    · cases other
  · rw [result] at spec
    rw [accepted]
    rcases spec with ⟨other,_,_⟩ | ⟨fid',fcb,yes,legal,some,view⟩
    · cases other
    · obtain rfl : fid = fid' := Option.some.inj some
      refine Or.inr ⟨fid,fcb,yes,legal,rfl,?_⟩
      simp only [addRef_view, setFate_view, signal_view, connectPeers_view, useSocket_view, view,
        popped]
      rfl

theorem acceptPass_outcome (t : Thread) (l : SocketRef) (made : Option (Fid × FcbRef)) :
    AcceptOutcome (n.view o) l made (acceptPass n t l made).1
      ((acceptPass n t l made).2.view o) := by
  have sockets : (n.useSocket l).sockets = n.sockets := rfl
  simp only [acceptPass, sockets]
  split
  · rename_i unmapped
    simp only [addRef_view, usePort_view, note_view, useSocket_view]
    exact .closed unmapped
  · rename_i l' mapped empty
    simp only [wait_view, usePort_view, note_view, useSocket_view]
    refine .sleeps ?_ empty
    intro none
    cases mapped.symm.trans none
  · rename_i l' r rest mapped queue
    have mapped' : (n.view o).portMap ((n.view o).port l) ≠ none := by
      intro none
      cases mapped.symm.trans none
    have listens : (n.view o).type l = .listener (r :: rest) := by
      change (n.sockets l).type = _
      cases known : (n.sockets l).type with
      | listener q => rw [known] at queue; exact congrArg _ queue
      | unbound => rw [known] at queue; cases queue
      | peer link => rw [known] at queue; cases queue
    rcases acceptRequest_outcome (n := ((n.useSocket l).note
        (¬ (n.sockets l).type.IsListener) (.notListener l)).usePort (n.sockets l).port)
        (o := o) l r rest made with ⟨none,no,view⟩ | ⟨fid,fcb,yes,legal,some,view⟩
    · rw [none, view]
      exact .refused r rest mapped' listens no
    · rw [some, view]
      exact .honoured r rest fid fcb mapped' listens yes legal

theorem sysAccept_outcome (t : Thread) (l : SocketRef) (made : Option (Fid × FcbRef)) :
    (¬ ((0 ≤ (n.sockets l).port ∧ (n.sockets l).port ≤ maxPort) ∧
        (n.sockets l).port ≠ noport ∧ (n.sockets l).type.IsListener) ∧
      (sysAccept n t l made).1 = .returns (-1) [] ∧
      (sysAccept n t l made).2.view o = n.view o) ∨
    ((0 ≤ (n.sockets l).port ∧ (n.sockets l).port ≤ maxPort) ∧
      (n.sockets l).type.IsListener ∧
      AcceptOutcome (n.view o) l made (sysAccept n t l made).1
        ((sysAccept n t l made).2.view o)) := by
  have sockets : (n.useSocket l).sockets = n.sockets := rfl
  simp only [sysAccept, sockets]
  split
  · rename_i illegal
    refine Or.inl ⟨?_,rfl,rfl⟩
    rintro ⟨legal,bound,_⟩
    omega
  · split
    · rename_i idle
      exact Or.inl ⟨fun ok => idle ok.2.2,rfl,rfl⟩
    · rename_i listens
      have outcome := acceptPass_outcome (n := (n.useSocket l).addRef l 1) (o := o) t l made
      simp only [addRef_view, useSocket_view] at outcome
      exact Or.inr ⟨by omega,of_not_not listens,outcome⟩

theorem view_congr {o' : SocketRef → Prop} (same : ∀ x, o x ↔ o' x) : n.view o = n.view o' := by
  have equal : o = o' := funext fun x => propext (same x)
  rw [equal]

end NetViews

section RunViews
variable {s : NetRun}

/- The request that a step honours. -/
def NetRun.Admits (s : NetRun) : NetAction → RequestRef → Prop
  | .accept _ l (some _), r => s.view.Front l r
  | .resume _ (.accept l) _ (some _), r => s.view.Front l r
  | _, _ => False

/- The request that a step takes, whatever becomes of it. -/
def NetRun.Takes (s : NetRun) : NetAction → RequestRef → Prop
  | .accept _ l _, r => s.view.Front l r
  | .resume _ (.accept l) _ _, r => s.view.Front l r
  | _, _ => False

/- If an Accept has been woken, it has been in vain. -/
def NetRun.InVain (s : NetRun) : NetAction → Prop
  | .resume _ (.accept l) _ _ => ∀ r, ¬ s.view.Front l r
  | _ => True

/- The event is the doing of the action, which replies p. -/
def NetRun.Explains (s : NetRun) (a : NetAction) (p : Progress) : Event → Prop
  | .other => s.InVain a
  | .listened x => a = .listen x
  | .enqueued l => ∃ t x port, a = .connect t x port ∧ p = .sleeps (.connect x l s.net.nextRequest)
  | .closed x => s.InVain a ∧ ((s.view.type x).IsListener →
      (netExec s a).net.waits.asleep (.reqAvailable x) = [])
  | .refused r => s.Takes a r ∧ p = .returns (-1) []
  | .honoured r => s.Admits a r ∧ ∃ fid : Fid, p = .returns fid []

/- The event of an Accept on the listener. -/
def View.Accepts (v : View) (l : SocketRef) (made : Option (Fid × FcbRef)) (p : Progress) :
    Event → Prop
  | .other => ∀ r, ¬ v.Front l r
  | .listened _ | .enqueued _ | .closed _ => False
  | .refused r => v.Front l r ∧ p = .returns (-1) [] ∧
      (0 ≤ v.port l ∧ v.port l ≤ maxPort → made = none)
  | .honoured r => v.Front l r ∧ made.isSome ∧ ∃ fid : Fid, p = .returns fid []

theorem front_unique {v : View} {l : SocketRef} {r r' : RequestRef} (front : v.Front l r)
    (front' : v.Front l r') : r = r' := by
  obtain ⟨_,rest,queue⟩ := front
  obtain ⟨_,rest',queue'⟩ := front'
  cases queue.symm.trans queue'
  rfl

theorem accepts_front {v : View} {l : SocketRef} {made : Option (Fid × FcbRef)} {p : Progress}
    {e : Event} {r : RequestRef} (accepts : v.Accepts l made p e)
    (legal : 0 ≤ v.port l ∧ v.port l ≤ maxPort) (ok : made.isSome) (front : v.Front l r) :
    e = .honoured r := by
  cases e with
  | other => exact absurd front (accepts r)
  | listened x => cases accepts
  | enqueued x => cases accepts
  | closed x => cases accepts
  | refused r' =>
    rw [accepts.2.2 legal] at ok
    cases ok
  | honoured r' => rw [front_unique front accepts.1]

theorem record_refcount (t : Thread) (p : Progress) (net : Net) (a : SocketRef) :
    (s.record t p net).refcount a = s.refcount a +
      (match p with | .sleeps call => if call.IsTransfer a then 1 else 0 | .returns _ _ => 0) := by
  cases p with
  | sleeps call =>
    simp only [NetRun.record, NetRun.refcount, NetRun.holds, List.countP_cons, decide_eq_true_eq]
    omega
  | returns value data => rfl

theorem leave_refcount {t : Thread} {call : NetCall} (asleep : (t,call) ∈ s.calls)
    (a : SocketRef) :
    (s.leave t call).refcount a + (if call.IsTransfer a then 1 else 0) = s.refcount a := by
  have perm := (List.perm_cons_erase asleep).countP_eq (fun e => decide (e.2.IsTransfer a))
  rw [List.countP_cons] at perm
  simp only [NetRun.leave, NetRun.refcount, NetRun.holds, decide_eq_true_eq] at perm ⊢
  omega

theorem record_view (t : Thread) (p : Progress) (net : Net) :
    (s.record t p net).view = net.view fun a => 0 < (s.record t p net).refcount a := by
  cases p <;> rfl

theorem release_view (a : SocketRef) :
    (s.release a).view = if s.refcount a = 0 then s.view.unmap a else s.view := by
  unfold NetRun.release
  split
  · exact socketClose_view a
  · rfl

theorem release_open {a : SocketRef} (opened : 0 < s.refcount a) : s.release a = s := by
  unfold NetRun.release
  rw [if_neg (by omega)]

theorem adopt_same {before : Net} (same : s.net.nextSocket = before.nextSocket) :
    s.adopt before = s := by
  unfold NetRun.adopt
  rw [if_pos same]

theorem adopt_new {before : Net} (new : s.net.nextSocket ≠ before.nextSocket) :
    (s.adopt before).view =
      s.view.withOpen fun x => 0 < s.refcount x ∨ x = before.nextSocket := by
  have opens (x : SocketRef) :
      0 < (s.adopt before).refcount x ↔ 0 < s.refcount x ∨ x = before.nextSocket := by
    unfold NetRun.adopt
    rw [if_neg new]
    by_cases same : x = before.nextSocket
    · simp [same, NetRun.refcount]
    · simp [same, NetRun.refcount, NetRun.holds]
  have net : (s.adopt before).net = s.net := by
    unfold NetRun.adopt
    split <;> rfl
  unfold NetRun.view View.withOpen
  rw [net, view_congr opens]
  rfl

theorem accept_sleeps {v w : View} {l : SocketRef} {made : Option (Fid × FcbRef)}
    {p : Progress} {call : NetCall} (outcome : AcceptOutcome v l made p w)
    (asleep : p = .sleeps call) : call = .accept l := by
  cases outcome <;> cases asleep
  rfl

theorem accept_holds_nothing {v w : View} {l : SocketRef} {made : Option (Fid × FcbRef)}
    {p : Progress} (outcome : AcceptOutcome v l made p w) (a : SocketRef) :
    (match p with | .sleeps call => if call.IsTransfer a then 1 else 0 | .returns _ _ => 0) = 0 := by
  cases outcome <;> simp [NetCall.IsTransfer]

/- An Accept that has run from the state s0, which looks like s. -/
theorem accept_move {s0 : NetRun} {t : Thread} {l : SocketRef} {made : Option (Fid × FcbRef)}
    {p : Progress} {net : Net} (opens : ∀ x, 0 < s0.refcount x ↔ 0 < s.refcount x)
    (outcome : AcceptOutcome s.view l made p (net.view fun x => 0 < s.refcount x)) :
    ∃ e, Move s.view e ((s0.record t p net).adopt s.net).view ∧ s.view.Accepts l made p e := by
  have recorded : (s0.record t p net).view = net.view fun x => 0 < s.refcount x := by
    rw [record_view]
    apply view_congr
    intro x
    rw [record_refcount, accept_holds_nothing outcome, Nat.add_zero, ← opens]
  have next :
      (s0.record t p net).net.nextSocket = (net.view fun x => 0 < s.refcount x).nextSocket := by
    rw [← recorded]
    rfl
  generalize net.view (fun x => 0 < s.refcount x) = w at outcome recorded next
  cases outcome with
  | closed unmapped =>
    rw [adopt_same next, recorded]
    exact ⟨.other,.quiet,fun _ front => front.1 unmapped⟩
  | sleeps mapped empty =>
    rw [adopt_same next, recorded]
    refine ⟨.other,.quiet,?_⟩
    rintro r ⟨_,rest,queue⟩
    rw [queue] at empty
    cases empty
  | refused r rest mapped queue no =>
    rw [adopt_same next, recorded]
    refine ⟨.refused r,.refuse l r rest queue,⟨mapped,rest,queue⟩,rfl,?_⟩
    intro legal
    rcases no with none | illegal
    · exact none
    · exact absurd legal illegal
  | honoured r rest fid fcb mapped queue yes legal =>
    have new : (s0.record t (.returns fid []) net).net.nextSocket ≠ s.net.nextSocket := by
      rw [next]
      exact Nat.succ_ne_self _
    rw [adopt_new new, recorded]
    have equal : (s.view.honour l r rest fcb).withOpen (fun x =>
        0 < (s0.record t (.returns fid []) net).refcount x ∨ x = s.net.nextSocket) =
        s.view.openNew (s.view.honour l r rest fcb) := by
      unfold View.openNew View.withOpen
      congr 1
      funext x
      exact propext (or_congr (opens x) Iff.rfl)
    rw [equal]
    exact ⟨.honoured r,.honour l r rest fcb queue legal,⟨mapped,rest,queue⟩,by simp [yes],fid,rfl⟩

theorem holds_open {t : Thread} {a : SocketRef} {r : PipeRef} {c : Call}
    (asleep : (t,.io a r c) ∈ s.calls) : 0 < s.refcount a := by
  have held : 0 < s.holds a := List.countP_pos_iff.mpr ⟨_,asleep,by simp [NetCall.IsTransfer]⟩
  unfold NetRun.refcount
  omega

theorem socket_move (port : Int) (made : Option (Fid × FcbRef)) :
    Move s.view .other (netExec s (.socket port made)).view := by
  have spec := sysSocket_view (n := s.net) (o := fun a => 0 < s.refcount a) port made
  simp only [netExec, netStep]
  rcases spec with ⟨_,same,_⟩ | ⟨fid,fcb,_,legal,_,view⟩
  · rw [adopt_same (by rw [same]), same]
    exact .quiet
  · have new : (sysSocket s.net port made).2.nextSocket ≠ s.net.nextSocket := by
      have next := congrArg View.nextSocket view
      change (sysSocket s.net port made).2.nextSocket = s.net.nextSocket + 1 at next
      rw [next]
      exact Nat.succ_ne_self _
    rw [adopt_new (s := { s with net := (sysSocket s.net port made).2 }) new]
    have same : ({ s with net := (sysSocket s.net port made).2 } : NetRun).view =
        s.view.addSocket port fcb := view
    rw [same]
    exact .socket port fcb legal

theorem listen_move {a : SocketRef} (named : 0 < s.fids a) :
    ∃ e, Move s.view e (netExec s (.listen a)).view ∧ (e = .other ∨ e = .listened a) := by
  have opened : s.view.isOpen a := Nat.lt_of_lt_of_le named (Nat.le_add_right _ _)
  rcases sysListen_view (n := s.net) (o := fun a => 0 < s.refcount a) a with
    ⟨_,⟨unbound,bound,free⟩,view⟩ | ⟨_,_,view⟩
  · have moved : (netExec s (.listen a)).view = s.view.listen a := view
    rw [moved]
    exact ⟨_,.listen a opened unbound bound free,Or.inr rfl⟩
  · have moved : (netExec s (.listen a)).view = s.view := view
    rw [moved]
    exact ⟨_,.quiet,Or.inl rfl⟩

theorem connect_move (t : Thread) {a : SocketRef} (port : Int) (named : 0 < s.fids a) :
    ∃ e, Move s.view e (netExec s (.connect t a port)).view ∧
      s.Explains (.connect t a port) (netStep s (.connect t a port)).1 e := by
  have opened : s.view.isOpen a := Nat.lt_of_lt_of_le named (Nat.le_add_right _ _)
  simp only [netExec, netStep]
  rcases sysConnect_view (n := s.net) (o := fun a => 0 < s.refcount a) t a port with
    ⟨failed,view⟩ | ⟨l,_,mapped,listens,unbound,asleep,view⟩
  · have same : (s.record t (sysConnect s.net t a port).1 (sysConnect s.net t a port).2).view =
        s.view := by
      rw [record_view, failed]
      exact view
    exact ⟨.other,same ▸ .quiet,trivial⟩
  · have same : (s.record t (sysConnect s.net t a port).1 (sysConnect s.net t a port).2).view =
        s.view.enqueue a l := by
      rw [record_view, asleep]
      refine (view_congr fun x => ?_).trans view
      rw [record_refcount]
      simp [NetCall.IsTransfer]
    exact ⟨.enqueued l,same ▸ .enqueue a l port opened unbound mapped listens,t,a,port,rfl,asleep⟩

theorem close_listener_wakes {net : Net} {a : SocketRef} (listens : (net.sockets a).type.IsListener) :
    (socketClose net a).2.waits.asleep (.reqAvailable a) = [] := by
  have sockets : (net.useSocket a).sockets = net.sockets := rfl
  obtain ⟨queue,known⟩ := listens
  simp only [socketClose, sockets, known]
  split <;> exact Function.update_self _ _ _

/- The last reference to a socket may have gone. -/
structure Released (s s1 : NetRun) (a : SocketRef) (e : Event) : Prop where
  move : Move s.view e (s1.release a).view
  event : e = .other ∨ e = .closed a ∧ ((s.view.type a).IsListener →
    (s1.release a).net.waits.asleep (.reqAvailable a) = [])

/- A state like s but for the references to a. -/
theorem release_move {s1 : NetRun} {a : SocketRef} (tables : ∀ o, s1.net.view o = s.net.view o)
    (others : ∀ x, x ≠ a → (0 < s1.refcount x ↔ 0 < s.refcount x)) (opened : 0 < s.refcount a) :
    ∃ e, Released s s1 a e := by
  by_cases gone : s1.refcount a = 0
  · have closed : s1.view.unmap a = s.view.close a := by
      have opens : ∀ x, 0 < s1.refcount x ↔ 0 < s.refcount x ∧ x ≠ a := by
        intro x
        by_cases same : x = a
        · simp [same, gone]
        · simp [same, others x same]
      unfold NetRun.view
      rw [tables, view_congr opens]
      rfl
    refine ⟨.closed a,?_,Or.inr ⟨rfl,?_⟩⟩
    · rw [release_view, if_pos gone, closed]
      exact .close a opened
    · intro listens
      have type : (s1.net.sockets a).type = s.view.type a :=
        congrFun (congrArg View.type (tables fun _ => True)) a
      unfold NetRun.release
      rw [if_pos gone]
      exact close_listener_wakes (type ▸ listens)
  · have same : s1.view = s.view := by
      unfold NetRun.view
      rw [tables]
      apply view_congr
      intro x
      by_cases same : x = a
      · subst same
        exact iff_of_true (Nat.pos_of_ne_zero gone) opened
      · exact others x same
    refine ⟨.other,?_,Or.inl rfl⟩
    rw [release_view, if_neg gone, same]
    exact .quiet

theorem released_explains {s1 : NetRun} {x : SocketRef} {e : Event} {a : NetAction}
    {p : Progress} (released : Released s s1 x e) (run : netExec s a = s1.release x)
    (vain : s.InVain a) : Move s.view e (netExec s a).view ∧ s.Explains a p e := by
  rw [run]
  refine ⟨released.move,?_⟩
  rcases released.event with rfl | ⟨rfl,woken⟩
  · exact vain
  · refine ⟨vain,fun listens => ?_⟩
    rw [run]
    exact woken listens

theorem endTransfer_sleeps {net : Net} {t : Thread} {a : SocketRef} {r : PipeRef} {c : Call}
    {e : Pass × PipeCB} {call : NetCall} (asleep : (endTransfer net t a r c e).1 = .sleeps call) :
    call = .io a r c := by
  obtain ⟨pass,p⟩ := e
  cases pass with
  | sleeps cv =>
    cases asleep
    rfl
  | returns value data cv => cases asleep

theorem socketTransfer_sleeps {net : Net} {t : Thread} {a : SocketRef} {c : Call} {call : NetCall}
    (asleep : (socketTransfer net t a c).1 = .sleeps call) : ∃ r, call = .io a r c := by
  simp only [socketTransfer] at asleep
  split at asleep
  · cases asleep
  · cases asleep
  · exact ⟨_,endTransfer_sleeps asleep⟩

theorem record_net (t : Thread) (p : Progress) (net : Net) : (s.record t p net).net = net := by
  cases p <;> rfl

theorem connectPass_returns {net : Net} {a l : SocketRef} {r : RequestRef} {signalled : Bool}
    (call : NetCall) : (connectPass net a l r signalled).1 ≠ .sleeps call := by
  simp only [connectPass]
  split
  · split <;> simp
  · simp

theorem io_move (t : Thread) {a : SocketRef} (c : Call) (named : 0 < s.fids a) :
    ∃ e, Move s.view e (netExec s (.io t a c)).view ∧
      s.Explains (.io t a c) (netStep s (.io t a c)).1 e := by
  have opened : 0 < s.refcount a := Nat.lt_of_lt_of_le named (Nat.le_add_right _ _)
  have view (o : SocketRef → Prop) : (socketTransfer s.net t a c).2.view o = s.net.view o :=
    socketTransfer_view t a c
  have asleep (call : NetCall) (same : (socketTransfer s.net t a c).1 = .sleeps call) :
      ∃ r, call = .io a r c := socketTransfer_sleeps same
  have released : ∃ e, Released s
      (s.record t (socketTransfer s.net t a c).1 (socketTransfer s.net t a c).2) a e := by
    generalize socketTransfer s.net t a c = e at view asleep
    obtain ⟨p,net⟩ := e
    apply release_move _ _ opened
    · intro o
      rw [record_net, view]
    · intro x other
      rw [record_refcount]
      cases p with
      | sleeps call =>
        obtain ⟨r,rfl⟩ := asleep call rfl
        simp [NetCall.IsTransfer, Ne.symm other]
      | returns value data => simp
  obtain ⟨e,released⟩ := released
  exact ⟨e,released_explains released rfl trivial⟩

theorem close_move {a : SocketRef} (named : 0 < s.fids a) :
    ∃ e, Move s.view e (netExec s (.close a)).view ∧
      s.Explains (.close a) (netStep s (.close a)).1 e := by
  have opened : 0 < s.refcount a := Nat.lt_of_lt_of_le named (Nat.le_add_right _ _)
  have released : ∃ e, Released s
      { s with fids := Function.update s.fids a (s.fids a - 1) } a e := by
    apply release_move _ _ opened
    · intro o
      rfl
    · intro x other
      simp [NetRun.refcount, NetRun.holds, other]
  obtain ⟨e,released⟩ := released
  exact ⟨e,released_explains released rfl trivial⟩

theorem resume_io_move {t : Thread} {a : SocketRef} {r : PipeRef} {c : Call} (signalled : Bool)
    (made : Option (Fid × FcbRef)) (asleep : (t,.io a r c) ∈ s.calls) :
    ∃ e, Move s.view e (netExec s (.resume t (.io a r c) signalled made)).view ∧
      s.Explains (.resume t (.io a r c) signalled made)
        (netStep s (.resume t (.io a r c) signalled made)).1 e := by
  have left := leave_refcount asleep
  have view (o : SocketRef → Prop) :
      (ioPass (s.leave t (.io a r c)).net t a r c).2.view o = s.net.view o := ioPass_view t a r c
  have again (call : NetCall)
      (same : (ioPass (s.leave t (.io a r c)).net t a r c).1 = .sleeps call) :
      call = .io a r c := endTransfer_sleeps same
  have released : ∃ e, Released s (((s.leave t (.io a r c)).record t
      (ioPass (s.leave t (.io a r c)).net t a r c).1
      (ioPass (s.leave t (.io a r c)).net t a r c).2).adopt s.net) a e := by
    generalize ioPass (s.leave t (.io a r c)).net t a r c = e at view again
    obtain ⟨p,net⟩ := e
    have next : ((s.leave t (.io a r c)).record t p net).net.nextSocket = s.net.nextSocket := by
      rw [record_net]
      exact congrArg View.nextSocket (view fun _ => True)
    rw [adopt_same next]
    apply release_move _ _ (holds_open asleep)
    · intro o
      rw [record_net, view]
    · intro x other
      have same := left x
      rw [record_refcount]
      cases p with
      | sleeps call =>
        cases again call rfl
        simp only [NetCall.IsTransfer, Ne.symm other, if_false] at same ⊢
        omega
      | returns value data =>
        simp only [NetCall.IsTransfer, Ne.symm other, if_false] at same ⊢
        omega
  obtain ⟨e,released⟩ := released
  exact ⟨e,released_explains released rfl trivial⟩

theorem resume_connect_view {t : Thread} {a l : SocketRef} {r : RequestRef} (signalled : Bool)
    (made : Option (Fid × FcbRef)) (asleep : (t,.connect a l r) ∈ s.calls) :
    (netExec s (.resume t (.connect a l r) signalled made)).view = s.view := by
  have left := leave_refcount asleep
  have view (o : SocketRef → Prop) :
      (connectPass (s.leave t (.connect a l r)).net a l r signalled).2.view o = s.net.view o :=
    connectPass_view a l r signalled
  have done (call : NetCall) :
      (connectPass (s.leave t (.connect a l r)).net a l r signalled).1 ≠ .sleeps call :=
    connectPass_returns call
  simp only [netExec, netStep, callPass]
  generalize connectPass (s.leave t (.connect a l r)).net a l r signalled = e at view done
  obtain ⟨p,net⟩ := e
  have next : ((s.leave t (.connect a l r)).record t p net).net.nextSocket =
      s.net.nextSocket := by
    rw [record_net]
    exact congrArg View.nextSocket (view fun _ => True)
  rw [adopt_same next, record_view, view]
  apply view_congr
  intro x
  have count := left x
  rw [record_refcount]
  cases p with
  | sleeps call => exact absurd rfl (done call)
  | returns value data =>
    have same : (s.leave t (.connect a l r)).refcount x + 0 = s.refcount x := count
    change 0 < (s.leave t (.connect a l r)).refcount x + 0 ↔ _
    omega

theorem resume_move {t : Thread} {call : NetCall} (signalled : Bool)
    (made : Option (Fid × FcbRef)) (asleep : (t,call) ∈ s.calls) :
    ∃ e, Move s.view e (netExec s (.resume t call signalled made)).view ∧
      s.Explains (.resume t call signalled made)
        (netStep s (.resume t call signalled made)).1 e := by
  have left := leave_refcount asleep
  cases call with
  | io a r c => exact resume_io_move signalled made asleep
  | connect a l r =>
    refine ⟨.other,?_,trivial⟩
    rw [resume_connect_view signalled made asleep]
    exact .quiet
  | accept l =>
    have opens (x : SocketRef) : 0 < (s.leave t (.accept l)).refcount x ↔ 0 < s.refcount x := by
      have same : (s.leave t (.accept l)).refcount x + 0 = s.refcount x := left x
      omega
    obtain ⟨e,move,accepts⟩ := accept_move opens (t := t)
      (acceptPass_outcome (n := (s.leave t (.accept l)).net) t l made)
    refine ⟨e,move,?_⟩
    cases e with
    | other => exact accepts
    | listened x => cases accepts
    | enqueued x => cases accepts
    | closed x => cases accepts
    | refused r => exact ⟨accepts.1,accepts.2.1⟩
    | honoured r =>
      obtain ⟨front,ok,fid,replied⟩ := accepts
      cases made with
      | none => cases ok
      | some e => exact ⟨front,fid,replied⟩

/-- What one step of a thread does to the sockets. -/
theorem step_move {a : NetAction} (enabled : NetEnabled s a) :
    ∃ e, Move s.view e (netExec s a).view ∧ s.Explains a (netStep s a).1 e := by
  cases a with
  | socket port made => exact ⟨.other,socket_move port made,trivial⟩
  | listen a =>
    obtain ⟨e,move,rfl | rfl⟩ := listen_move enabled
    · exact ⟨.other,move,trivial⟩
    · exact ⟨.listened a,move,rfl⟩
  | connect t a port => exact connect_move t port enabled.1
  | accept t l made =>
    rcases sysAccept_outcome (n := s.net) (o := fun a => 0 < s.refcount a) t l made with
      ⟨_,failed,view⟩ | ⟨legal,_,outcome⟩
    · refine ⟨.other,?_,trivial⟩
      simp only [netExec, netStep]
      generalize sysAccept s.net t l made = e at failed view
      obtain ⟨p,net⟩ := e
      simp only at failed view
      subst failed
      have same : (s.record t (.returns (-1) []) net).view = s.view := view
      rw [adopt_same (congrArg View.nextSocket view), same]
      exact .quiet
    · obtain ⟨e,move,accepts⟩ := accept_move (fun _ => Iff.rfl) outcome (t := t)
      refine ⟨e,move,?_⟩
      cases e with
      | other => trivial
      | listened x => cases accepts
      | enqueued x => cases accepts
      | closed x => cases accepts
      | refused r => exact ⟨accepts.1,accepts.2.1⟩
      | honoured r =>
        obtain ⟨front,ok,fid,replied⟩ := accepts
        cases made with
        | none => cases ok
        | some e => exact ⟨front,fid,replied⟩
  | io t a c => exact io_move t c enabled.1
  | shutDown a how =>
    refine ⟨.other,?_,trivial⟩
    have same : (netExec s (.shutDown a how)).view = s.view := sysShutDown_view a how
    rw [same]
    exact .quiet
  | share a =>
    refine ⟨.other,?_,trivial⟩
    have same : (netExec s (.share a)).view = s.view := by
      have named : 0 < s.fids a := enabled
      apply view_congr
      intro x
      simp only [netExec, netStep]
      by_cases same : x = a
      · subst same
        simp only [NetRun.refcount, Function.update_self]
        omega
      · simp [NetRun.refcount, NetRun.holds, same]
    rw [same]
    exact .quiet
  | close a => exact close_move enabled
  | resume t call signalled made => exact resume_move signalled made enabled.1
  | expire t a l r => exact ⟨.other,.quiet,trivial⟩

theorem adopt_net (before : Net) : (s.adopt before).net = s.net := by
  unfold NetRun.adopt
  split <;> rfl

theorem adopt_calls (before : Net) : (s.adopt before).calls = s.calls := by
  unfold NetRun.adopt
  split <;> rfl

theorem release_calls (a : SocketRef) : (s.release a).calls = s.calls := by
  unfold NetRun.release
  split <;> rfl

theorem record_calls {t : Thread} {p : Progress} {net : Net} {e : Thread × NetCall}
    (asleep : e ∈ (s.record t p net).calls) : e ∈ s.calls ∨ p = .sleeps e.2 := by
  cases p with
  | sleeps call =>
    rcases List.mem_cons.mp asleep with same | old
    · exact Or.inr (by rw [same])
    · exact Or.inl old
  | returns value data => exact Or.inl asleep

/-- The calls asleep after a step were asleep before, or it has put one to sleep. -/
theorem step_calls {a : NetAction} {e : Thread × NetCall} (asleep : e ∈ (netExec s a).calls) :
    e ∈ s.calls ∨ (netStep s a).1 = .sleeps e.2 := by
  cases a with
  | socket port made =>
    simp only [netExec, netStep, adopt_calls] at asleep
    exact Or.inl asleep
  | connect t a port => exact record_calls asleep
  | accept t l made =>
    simp only [netExec, netStep, adopt_calls] at asleep
    exact record_calls asleep
  | io t a c =>
    simp only [netExec, netStep, release_calls] at asleep
    exact record_calls asleep
  | close a =>
    simp only [netExec, netStep, release_calls] at asleep
    exact Or.inl asleep
  | resume t call signalled made =>
    have recorded : e ∈ ((s.leave t call).record t
        (callPass (s.leave t call).net t signalled made call).1
        (callPass (s.leave t call).net t signalled made call).2).calls := by
      cases call with
      | io a r c => simpa only [netExec, netStep, release_calls, adopt_calls] using asleep
      | connect a l r => simpa only [netExec, netStep, adopt_calls] using asleep
      | accept l => simpa only [netExec, netStep, adopt_calls] using asleep
    rcases record_calls recorded with old | new
    · exact Or.inl (List.mem_of_mem_erase old)
    · exact Or.inr new
  | _ => exact Or.inl asleep

/-- An Accept that may take a request, and gets a file id, does so. -/
theorem admits_move {a : NetAction} {r : RequestRef} (enabled : NetEnabled s a)
    (ports : ∀ l, (s.view.type l).IsListener → (0 ≤ s.view.port l ∧ s.view.port l ≤ maxPort) ∧
      s.view.port l ≠ noport)
    (admits : s.Admits a r) : Move s.view (.honoured r) (netExec s a).view := by
  cases a with
  | accept t l made =>
    cases made with
    | none => cases admits
    | some e =>
      obtain ⟨mapped,rest,queue⟩ := admits
      have listens : (s.view.type l).IsListener := ⟨_,queue⟩
      obtain ⟨legal,bound⟩ := ports l listens
      rcases sysAccept_outcome (n := s.net) (o := fun a => 0 < s.refcount a) t l (some e) with
        ⟨refused,_,_⟩ | ⟨_,_,outcome⟩
      · exact absurd ⟨legal,bound,listens⟩ refused
      · obtain ⟨e,move,accepts⟩ := accept_move (fun _ => Iff.rfl) outcome (t := t)
        rw [accepts_front accepts legal rfl ⟨mapped,rest,queue⟩] at move
        exact move
  | resume t call signalled made =>
    cases call with
    | connect a l r => cases made <;> cases admits
    | io a r c => cases made <;> cases admits
    | accept l =>
      cases made with
      | none => cases admits
      | some e =>
        have opens (x : SocketRef) :
            0 < (s.leave t (.accept l)).refcount x ↔ 0 < s.refcount x := by
          have same : (s.leave t (.accept l)).refcount x + 0 = s.refcount x :=
            leave_refcount enabled.1 x
          omega
        obtain ⟨mapped,rest,queue⟩ := admits
        obtain ⟨legal,_⟩ := ports l ⟨_,queue⟩
        obtain ⟨e,move,accepts⟩ := accept_move opens (t := t)
          (acceptPass_outcome (n := (s.leave t (.accept l)).net) t l (some e))
        rw [accepts_front accepts legal rfl ⟨mapped,rest,queue⟩] at move
        exact move
  | _ => cases admits

end RunViews
end KernelSocket
