import TinyOS.SocketView

/- What one step of a thread does to one pipe, and which bytes it moves. -/
namespace KernelSocket
open KernelStreams KernelProc KernelPipe Monitor Transition

/- A pipe, how often it has been freed, and how often it was used after that; the bytes that have
   been read and written on some socket. -/
structure Flow where
  pipe : PipeCB
  frees : Nat
  faults : Nat
  received : List Byte
  sent : List Byte

def Net.flow (n : Net) (q : PipeRef) (x : SocketRef) : Flow :=
  { pipe := n.pipes q
    frees := n.pipeFrees q
    faults := n.faults.count (.freedPipe q)
    received := n.received x
    sent := n.sent x }

/- A call that a step makes of one of the functions of a pipe; next is one that goes on after a
   wait. -/
inductive PipeEvent where
  | first (c : Call)
  | next (c : Call)
  | readerClose
  | writerClose

def Flow.use (v : Flow) : Flow :=
  { v with faults := v.faults + if 0 < v.frees then 1 else 0 }

def Flow.closed (v : Flow) (e : Option PipeCV × PipeCB) : Flow :=
  { v with pipe := e.2, frees := v.frees + if e.1 = none then 1 else 0 }

def Flow.append (v : Flow) (moved : List Byte × List Byte) : Flow :=
  { v with received := v.received ++ moved.1, sent := v.sent ++ moved.2 }

def Flow.apply (v : Flow) : PipeEvent → Flow
  | .first c => { v.use with pipe := (c.firstPass v.pipe).2 }
  | .next c => { v.use with pipe := (c.nextPass v.pipe).2 }
  | .readerClose => v.use.closed (pipeReaderClose v.pipe)
  | .writerClose => v.use.closed (pipeWriterClose v.pipe)

def ShutdownMode.events (link : PeerSocket) (q : PipeRef) : ShutdownMode → List PipeEvent
  | .read => if link.readPipe = q then [.readerClose] else []
  | .write => if link.writePipe = q then [.writerClose] else []
  | .both => (if link.readPipe = q then [.readerClose] else []) ++
      if link.writePipe = q then [.writerClose] else []

/- socket_close -/
def SocketType.closeEvents (q : PipeRef) : SocketType → List PipeEvent
  | .peer link => (if link.writePipe = q then [.writerClose] else []) ++
      if link.readPipe = q then [.readerClose] else []
  | _ => []

def Pass.data : Pass → List Byte
  | .sleeps _ => []
  | .returns _ data _ => data

def Pass.Returns : Pass → Prop
  | .sleeps _ => False
  | .returns _ _ _ => True

instance (p : Pass) : Decidable (Pass.Returns p) :=
  match p with
  | .sleeps _ => .isFalse id
  | .returns _ _ _ => .isTrue trivial

/- The calls that a step makes of the functions of the pipe q. -/
def NetRun.pipeEvents (s : NetRun) (q : PipeRef) : NetAction → List PipeEvent
  | .io _ a c =>
    match (s.net.sockets a).type with
    | .peer link => if link.pipe c = q then [.first c] else []
    | _ => []
  | .shutDown a how =>
    match (s.net.sockets a).type with
    | .peer link => how.events link q
    | _ => []
  | .close a => if s.refcount a = 1 then (s.net.sockets a).type.closeEvents q else []
  | .resume _ (.io a r c) _ _ =>
    (if r = q then [.next c] else []) ++
      if s.refcount a = 1 ∧ Pass.Returns (c.nextPass (s.net.pipes r)).1 then
        (s.net.sockets a).type.closeEvents q
      else []
  | _ => []

/- The bytes that a pass on a delivers on the socket x, and those it accepts there. -/
def transferOf (a x : SocketRef) (c : Call) (p : Pass) : List Byte × List Byte :=
  if a = x then (c.taken (Pass.data p), c.put (Pass.data p)) else ([], [])

def NetRun.moved (s : NetRun) (x : SocketRef) : NetAction → List Byte × List Byte
  | .io _ a c =>
    match (s.net.sockets a).type with
    | .peer link => transferOf a x c (c.firstPass (s.net.pipes (link.pipe c))).1
    | _ => ([], [])
  | .resume _ (.io a r c) _ _ => transferOf a x c (c.nextPass (s.net.pipes r)).1
  | _ => ([], [])

section Calls
variable {n : Net} {q : PipeRef} {x : SocketRef}

theorem note_flow (bad : Prop) [Decidable bad] {f : Fault} (other : f ≠ .freedPipe q) :
    (n.note bad f).flow q x = n.flow q x := by
  simp only [Net.note, Net.flow]
  split
  · rw [List.count_cons_of_ne other]
  · rfl

@[simp] theorem useSocket_flow (a : SocketRef) : (n.useSocket a).flow q x = n.flow q x :=
  note_flow _ (by simp)

@[simp] theorem usePort_flow (p : Int) : (n.usePort p).flow q x = n.flow q x :=
  note_flow _ (by simp)

theorem useNodes_flow (nodes : List RequestRef) : (n.useNodes nodes).flow q x = n.flow q x := by
  have others : (((nodes.filter n.returned).map Fault.deadNode).count (.freedPipe q)) = 0 := by
    simp [List.count_eq_zero]
  simp only [Net.useNodes, Net.flow, List.count_append, others, Nat.zero_add]

@[simp] theorem addRef_flow (a : SocketRef) (c : Int) : (n.addRef a c).flow q x = n.flow q x := rfl

theorem usePipe_flow (r : PipeRef) :
    (n.usePipe r).flow q x = if r = q then (n.flow q x).use else n.flow q x := by
  by_cases same : r = q
  · subst same
    simp only [Net.usePipe, Net.note, Net.flow, Flow.use, if_true]
    split <;> simp_all
  · simp only [Net.usePipe, Net.note, Net.flow, same, if_false]
    split <;> simp [same]

theorem setPipe_flow (r : PipeRef) (p : PipeCB) :
    (n.setPipe r p).flow q x = if r = q then { n.flow q x with pipe := p } else n.flow q x := by
  by_cases same : r = q
  · subst same
    simp [Net.setPipe, Net.flow]
  · simp [Net.setPipe, Net.flow, same, Ne.symm same]

theorem closeEnd_flow (r : PipeRef) (e : Option PipeCV × PipeCB) :
    (closeEnd n r e).flow q x = if r = q then (n.flow q x).closed e else n.flow q x := by
  obtain ⟨cv,p⟩ := e
  by_cases same : r = q
  · subst same
    cases cv <;> simp [closeEnd, Net.setPipe, Net.freePipe, Net.broadcast, Net.flow,
      Flow.closed]
  · cases cv <;> simp [closeEnd, Net.setPipe, Net.freePipe, Net.broadcast, Net.flow, same,
      Ne.symm same]

theorem readerClose_flow (r : PipeRef) :
    (readerClose n r).2.flow q x =
      (if r = q then [.readerClose] else [] : List PipeEvent).foldl Flow.apply (n.flow q x) := by
  simp only [readerClose, closeEnd_flow, usePipe_flow]
  split
  · rename_i same
    subst same
    rfl
  · rfl

theorem writerClose_flow (r : PipeRef) :
    (writerClose n r).2.flow q x =
      (if r = q then [.writerClose] else [] : List PipeEvent).foldl Flow.apply (n.flow q x) := by
  simp only [writerClose, closeEnd_flow, usePipe_flow]
  split
  · rename_i same
    subst same
    rfl
  · rfl

theorem freeUnused_flow (a : SocketRef) : (freeUnused n a).flow q x = n.flow q x := by
  unfold freeUnused
  split <;> rfl

theorem sysShutDown_flow (a : SocketRef) (how : ShutdownMode) :
    (sysShutDown n a how).2.flow q x =
      (match (n.sockets a).type with
        | .peer link => how.events link q
        | _ => []).foldl Flow.apply (n.flow q x) := by
  have sockets : (n.useSocket a).sockets = n.sockets := rfl
  have other : ((n.useSocket a).note True (.notPeer a)).flow q x = n.flow q x :=
    (note_flow _ (by simp)).trans (useSocket_flow a)
  simp only [sysShutDown, sockets]
  cases (n.sockets a).type with
  | listener queue => exact other
  | unbound => exact other
  | peer link =>
    cases how with
    | read => simp only [readerClose_flow, useSocket_flow, ShutdownMode.events]
    | write => simp only [writerClose_flow, useSocket_flow, ShutdownMode.events]
    | both =>
      simp only [readerClose_flow, writerClose_flow, useSocket_flow,
        ShutdownMode.events, List.foldl_append]

theorem socketClose_flow (a : SocketRef) :
    (socketClose n a).2.flow q x =
      ((n.sockets a).type.closeEvents q).foldl Flow.apply (n.flow q x) := by
  have sockets : (n.useSocket a).sockets = n.sockets := rfl
  cases known : (n.sockets a).type with
  | unbound =>
    simp only [socketClose, sockets, known, freeUnused_flow, useSocket_flow]
    rfl
  | listener queue =>
    have same : ((n.useSocket a).usePort (n.sockets a).port).flow q x = n.flow q x := by simp
    simp only [socketClose, sockets, known]
    split <;> exact same
  | peer link =>
    have zero (net : Net) (r : PipeRef) : (writerClose net r).1 = 0 := rfl
    have zero' (net : Net) (r : PipeRef) : (readerClose net r).1 = 0 := rfl
    simp only [socketClose, sockets, known, zero, zero', ne_eq, not_true_eq_false, if_false,
      freeUnused_flow, readerClose_flow, writerClose_flow, useSocket_flow,
      SocketType.closeEvents, List.foldl_append]

/- All stays, but that the pipe may be a new one. -/
def Flow.Renews (v w : Flow) (old : Prop) : Prop :=
  ∃ p, w = { v with pipe := p } ∧ (old → p = v.pipe)

theorem renews_same {v w : Flow} {old : Prop} (same : w = v) : v.Renews w old :=
  ⟨v.pipe,same,fun _ => rfl⟩

@[simp] theorem append_nothing (v : Flow) : v.append ([],[]) = v := by
  simp [Flow.append]

theorem append_apply (es : List PipeEvent) (v : Flow) (moved : List Byte × List Byte) :
    es.foldl Flow.apply (v.append moved) = (es.foldl Flow.apply v).append moved := by
  induction es generalizing v with
  | nil => rfl
  | cons e es ih =>
    have one : (v.append moved).apply e = (v.apply e).append moved := by cases e <;> rfl
    simp only [List.foldl_cons, one, ih]

theorem apply_moves_nothing (es : List PipeEvent) (v : Flow) :
    (es.foldl Flow.apply v).received = v.received ∧ (es.foldl Flow.apply v).sent = v.sent := by
  induction es generalizing v with
  | nil => exact ⟨rfl,rfl⟩
  | cons e es ih =>
    have one : (v.apply e).received = v.received ∧ (v.apply e).sent = v.sent := by
      cases e <;> exact ⟨rfl,rfl⟩
    obtain ⟨received,sent⟩ := ih (v.apply e)
    exact ⟨received.trans one.1,sent.trans one.2⟩

theorem transfer_flow (a : SocketRef) (c : Call) (data : List Byte) :
    (n.transfer a c data).flow q x =
      (n.flow q x).append (if a = x then (c.taken data, c.put data) else ([],[])) := by
  by_cases same : a = x
  · subst same
    simp [Net.transfer, Net.flow, Flow.append]
  · simp [Net.transfer, Net.flow, Flow.append, same, Ne.symm same]

theorem endTransfer_flow (t : Thread) (a : SocketRef) (r : PipeRef) (c : Call)
    (e : Pass × PipeCB) :
    (endTransfer n t a r c e).2.flow q x =
      (if r = q then { n.flow q x with pipe := e.2 } else n.flow q x).append
        (transferOf a x c e.1) := by
  obtain ⟨pass,p⟩ := e
  rw [← setPipe_flow]
  cases pass with
  | sleeps cv =>
    have none : transferOf a x c (.sleeps cv) = ([],[]) := by
      unfold transferOf
      split <;> cases c <;> rfl
    rw [none, append_nothing]
    rfl
  | returns value data cv =>
    rw [transferOf, Pass.data, ← transfer_flow]
    cases cv <;> rfl

theorem socketTransfer_flow (t : Thread) (a : SocketRef) (c : Call) :
    (socketTransfer n t a c).2.flow q x =
      ((match (n.sockets a).type with
        | .peer link => if link.pipe c = q then [.first c] else []
        | _ => [] : List PipeEvent).foldl Flow.apply (n.flow q x)).append
        (match (n.sockets a).type with
          | .peer link => transferOf a x c (c.firstPass (n.pipes (link.pipe c))).1
          | _ => ([],[])) := by
  have sockets : (n.useSocket a).sockets = n.sockets := rfl
  simp only [socketTransfer, sockets]
  cases (n.sockets a).type with
  | listener queue => simp
  | unbound => simp
  | peer link =>
    simp only [endTransfer_flow, usePipe_flow, useSocket_flow]
    split
    · rename_i same
      subst same
      rfl
    · rfl

theorem ioPass_flow (t : Thread) (a : SocketRef) (r : PipeRef) (c : Call) :
    (ioPass n t a r c).2.flow q x =
      ((if r = q then [.next c] else [] : List PipeEvent).foldl Flow.apply (n.flow q x)).append
        (transferOf a x c (c.nextPass (n.pipes r)).1) := by
  simp only [ioPass, endTransfer_flow, usePipe_flow]
  split
  · rename_i same
    subst same
    rfl
  · rfl

theorem sysSocket_flow (port : Int) (made : Option (Fid × FcbRef)) :
    (sysSocket n port made).2.flow q x = n.flow q x := by
  unfold sysSocket
  split
  · rfl
  · cases made <;> rfl

theorem sysListen_flow (a : SocketRef) : (sysListen n a).2.flow q x = n.flow q x := by
  have base : ((n.useSocket a).usePort (n.sockets a).port).flow q x = n.flow q x := by simp
  have sockets : (n.useSocket a).sockets = n.sockets := rfl
  have made (net : Net) : (becomeListener net a).flow q x = net.flow q x := rfl
  simp only [sysListen, sockets]
  split
  · exact useSocket_flow a
  · split
    · split
      · rw [useSocket_flow]
        exact base
      · rw [made, useSocket_flow]
        exact base
    · exact base

theorem sysConnect_flow (t : Thread) (a : SocketRef) (port : Int) :
    (sysConnect n t a port).2.flow q x = n.flow q x := by
  have waited (m : Net) (cv cv' : NetCV) (l : SocketRef) :
      ((((enqueue (m.addRef a 1) a l)).signal cv).wait cv' t).flow q x = m.flow q x :=
    useNodes_flow (n := m.addRef a 1) _
  simp only [sysConnect]
  split
  · rfl
  · split
    · exact usePort_flow port
    · split
      · simp
      · split
        · simp
        · simp [waited]

theorem connectPass_flow (a l : SocketRef) (r : RequestRef) (signalled : Bool) :
    (connectPass n a l r signalled).2.flow q x = n.flow q x := by
  have same : (((n.useSocket l).useSocket a).addRef a (-1)).flow q x = n.flow q x := by simp
  simp only [connectPass]
  split
  · split <;> exact same
  · exact same

/- The new pipes are none of those that exist. -/
theorem connectPeers_flow (a b : SocketRef) :
    (n.flow q x).Renews ((connectPeers n a b).flow q x) (q < n.nextPipe) := by
  refine ⟨(connectPeers n a b).pipes q,rfl,fun old => ?_⟩
  have first : q ≠ n.nextPipe := Nat.ne_of_lt old
  have second : q ≠ n.nextPipe + 1 := Nat.ne_of_lt (Nat.lt_succ_of_lt old)
  simp [connectPeers, Net.newPipe, Net.setType, Net.setSocket, Net.flow, first, second]

theorem acceptRequest_flow (l : SocketRef) (r : RequestRef) (rest : List RequestRef)
    (made : Option (Fid × FcbRef)) :
    (n.flow q x).Renews ((acceptRequest n l r rest made).2.flow q x) (q < n.nextPipe) := by
  have same : (sysSocket (popRequest n l r rest) (n.sockets l).port made).2.flow q x = n.flow q x :=
    (sysSocket_flow _ made).trans (useNodes_flow (n := n) (r :: rest.take 1))
  have next : (sysSocket (popRequest n l r rest) (n.sockets l).port made).2.nextPipe =
      n.nextPipe := sysSocket_nextPipe _ made
  rcases acceptRequest_cases n l r rest made with
    ⟨net',result,accepted⟩ | ⟨fid,net',result,accepted⟩
  · rw [result] at same
    rw [accepted]
    exact renews_same same
  · have peers := connectPeers_flow (n := net'.useSocket (n.requests r).peer) (q := q) (x := x)
      (n.requests r).peer n.nextSocket
    rw [result] at same next
    rw [useSocket_flow, same] at peers
    obtain ⟨p,kept,old⟩ := peers
    rw [accepted]
    exact ⟨p,kept,fun inside => old (lt_of_lt_of_eq inside next.symm)⟩

theorem acceptPass_flow (t : Thread) (l : SocketRef) (made : Option (Fid × FcbRef)) :
    (n.flow q x).Renews ((acceptPass n t l made).2.flow q x) (q < n.nextPipe) := by
  have base : (((n.useSocket l).note (¬ (n.sockets l).type.IsListener) (.notListener l)).usePort
      (n.sockets l).port).flow q x = n.flow q x := by
    rw [usePort_flow, note_flow _ (by simp), useSocket_flow]
  have sockets : (n.useSocket l).sockets = n.sockets := rfl
  simp only [acceptPass, sockets]
  split
  · exact renews_same base
  · exact renews_same base
  · have request (r : RequestRef) (rest : List RequestRef) :=
      acceptRequest_flow (n := ((n.useSocket l).note (¬ (n.sockets l).type.IsListener)
        (.notListener l)).usePort (n.sockets l).port) (q := q) (x := x) l r rest made
    rw [base] at request
    exact request _ _

theorem sysAccept_flow (t : Thread) (l : SocketRef) (made : Option (Fid × FcbRef)) :
    (n.flow q x).Renews ((sysAccept n t l made).2.flow q x) (q < n.nextPipe) := by
  simp only [sysAccept]
  split
  · exact renews_same (useSocket_flow l)
  · split
    · exact renews_same (useSocket_flow l)
    · have pass := acceptPass_flow (n := (n.useSocket l).addRef l 1) (q := q) (x := x) t l made
      rw [addRef_flow, useSocket_flow] at pass
      exact pass

end Calls
section Steps
variable {s : NetRun} {q : PipeRef} {x : SocketRef}

theorem release_flow (a : SocketRef) :
    (s.release a).net.flow q x =
      (if s.refcount a = 0 then (s.net.sockets a).type.closeEvents q else []).foldl Flow.apply
        (s.net.flow q x) := by
  unfold NetRun.release
  split
  · exact socketClose_flow a
  · rfl

theorem endTransfer_sockets {n : Net} (t : Thread) (a : SocketRef) (r : PipeRef) (c : Call)
    (e : Pass × PipeCB) : (endTransfer n t a r c e).2.sockets = n.sockets := by
  obtain ⟨pass,p⟩ := e
  cases pass with
  | sleeps cv => rfl
  | returns value data cv => cases cv <;> rfl

theorem endTransfer_returns {n : Net} (t : Thread) (a : SocketRef) (r : PipeRef) (c : Call)
    (e : Pass × PipeCB) :
    (∃ value data, (endTransfer n t a r c e).1 = .returns value data ∧ Pass.Returns e.1) ∨
    ((endTransfer n t a r c e).1 = .sleeps (.io a r c) ∧ ¬ Pass.Returns e.1) := by
  obtain ⟨pass,p⟩ := e
  cases pass with
  | sleeps cv => exact Or.inr ⟨rfl,id⟩
  | returns value data cv => exact Or.inl ⟨value,data,rfl,trivial⟩

/- When a Read or Write that has slept goes on, its socket loses its last reference just if the
   call returns and held it. -/
theorem resumed_refcount {t : Thread} {a : SocketRef} {r : PipeRef} {c : Call}
    (asleep : (t,.io a r c) ∈ s.calls) :
    (((s.leave t (.io a r c)).record t (ioPass (s.leave t (.io a r c)).net t a r c).1
        (ioPass (s.leave t (.io a r c)).net t a r c).2).refcount a = 0 ↔
      s.refcount a = 1 ∧ Pass.Returns (c.nextPass (s.net.pipes r)).1) := by
  have left := leave_refcount asleep a
  simp only [NetCall.IsTransfer, if_true] at left
  rw [record_refcount]
  rcases endTransfer_returns (n := (s.leave t (.io a r c)).net.usePipe r) t a r c
      (c.nextPass (s.net.pipes r)) with ⟨value,data,ends,returns⟩ | ⟨sleeps,stays⟩
  · have same : (ioPass (s.leave t (.io a r c)).net t a r c).1 = .returns value data := ends
    rw [same]
    simp only [returns, and_true]
    omega
  · have same : (ioPass (s.leave t (.io a r c)).net t a r c).1 = .sleeps (.io a r c) := sleeps
    rw [same]
    simp [stays, NetCall.IsTransfer]

theorem step_renews {a : NetAction} (enabled : NetEnabled s a) :
    (((s.pipeEvents q a).foldl Flow.apply (s.net.flow q x)).append (s.moved x a)).Renews
      ((netExec s a).net.flow q x) (q < s.net.nextPipe) := by
  cases a with
  | socket port made =>
    simp only [netExec, netStep, adopt_net]
    rw [sysSocket_flow]
    exact renews_same (append_nothing _).symm
  | listen a =>
    rw [show (netExec s (.listen a)).net.flow q x = s.net.flow q x from sysListen_flow a]
    exact renews_same (append_nothing _).symm
  | connect t a port =>
    simp only [netExec, netStep, record_net, sysConnect_flow]
    exact renews_same (append_nothing _).symm
  | accept t l made =>
    simp only [netExec, netStep, adopt_net, record_net]
    rw [show ((s.pipeEvents q (.accept t l made)).foldl Flow.apply (s.net.flow q x)).append
      (s.moved x (.accept t l made)) = s.net.flow q x from append_nothing _]
    exact sysAccept_flow t l made
  | io t a c =>
    have opened : 0 < (s.record t (socketTransfer s.net t a c).1
        (socketTransfer s.net t a c).2).refcount a := by
      have named : 0 < s.fids a := enabled.1
      rw [record_refcount, NetRun.refcount]
      omega
    simp only [netExec, netStep]
    rw [release_open opened, record_net]
    exact renews_same (socketTransfer_flow t a c)
  | shutDown a how =>
    rw [show (netExec s (.shutDown a how)).net.flow q x = _ from sysShutDown_flow a how]
    exact renews_same (append_nothing _).symm
  | share a => exact renews_same (append_nothing _).symm
  | close a =>
    have named : 0 < s.fids a := enabled
    have last : ({ s with fids := Function.update s.fids a (s.fids a - 1) } : NetRun).refcount a = 0 ↔
        s.refcount a = 1 := by
      simp only [NetRun.refcount, NetRun.holds, Function.update_self]
      omega
    simp only [netExec, netStep, release_flow, last]
    exact renews_same (append_nothing _).symm
  | resume t call signalled made =>
    cases call with
    | connect a l r =>
      simp only [netExec, netStep, adopt_net, record_net]
      have same := connectPass_flow (n := (s.leave t (.connect a l r)).net) (q := q) (x := x) a l r
        signalled
      exact renews_same (same.trans (append_nothing _).symm)
    | accept l =>
      simp only [netExec, netStep, adopt_net, record_net]
      rw [show ((s.pipeEvents q (.resume t (.accept l) signalled made)).foldl Flow.apply
        (s.net.flow q x)).append (s.moved x (.resume t (.accept l) signalled made)) =
        s.net.flow q x from append_nothing _]
      exact acceptPass_flow (n := (s.leave t (.accept l)).net) t l made
    | io a r c =>
      have passed := ioPass_flow (n := (s.leave t (.io a r c)).net) (q := q) (x := x) t a r c
      have last := resumed_refcount enabled.1
      have next : ((s.leave t (.io a r c)).record t (ioPass (s.leave t (.io a r c)).net t a r c).1
          (ioPass (s.leave t (.io a r c)).net t a r c).2).net.nextSocket = s.net.nextSocket := by
        rw [record_net]
        exact congrArg View.nextSocket (ioPass_view (n := (s.leave t (.io a r c)).net)
          (o := fun _ => True) t a r c)
      have sockets : (ioPass (s.leave t (.io a r c)).net t a r c).2.sockets = s.net.sockets :=
        endTransfer_sockets _ _ _ _ _
      simp only [netExec, netStep, callPass]
      rw [adopt_same next, release_flow, record_net, sockets, passed]
      simp only [last, NetRun.pipeEvents, NetRun.moved, List.foldl_append, append_apply]
      exact renews_same rfl
  | expire t a l r => exact renews_same (append_nothing _).symm

/-- What a step does to a pipe is what the calls do that it makes of the pipe's functions. -/
theorem step_flow {a : NetAction} (enabled : NetEnabled s a) (old : q < s.net.nextPipe) :
    (netExec s a).net.flow q x =
      ((s.pipeEvents q a).foldl Flow.apply (s.net.flow q x)).append (s.moved x a) := by
  obtain ⟨p,renewed,kept⟩ := step_renews (q := q) (x := x) enabled
  rw [renewed, kept old]

theorem step_moved {a : NetAction} (enabled : NetEnabled s a) (x : SocketRef) :
    (netExec s a).net.received x = s.net.received x ++ (s.moved x a).1 ∧
      (netExec s a).net.sent x = s.net.sent x ++ (s.moved x a).2 := by
  obtain ⟨p,renewed,_⟩ := step_renews (q := 0) (x := x) enabled
  have received := congrArg Flow.received renewed
  have sent := congrArg Flow.sent renewed
  obtain ⟨received',sent'⟩ := apply_moves_nothing (s.pipeEvents 0 a) (s.net.flow 0 x)
  exact ⟨received.trans (congrArg (· ++ (s.moved x a).1) received'),
    sent.trans (congrArg (· ++ (s.moved x a).2) sent')⟩

end Steps
end KernelSocket
