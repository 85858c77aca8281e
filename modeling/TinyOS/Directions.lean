import TinyOS.PipeLives
import TinyOS.SocketWaits

/- One direction of a connection by itself: its pipe, who sleeps there, and the calls that do.
   What a step does to it follows from the calls that the step makes of the pipe's functions. -/
namespace KernelSocket
open KernelStreams KernelProc KernelPipe Monitor Transition

structure Direction where
  pipe : PipeCB
  asleep : PipeCV → List Thread
  calls : List (Thread × NetCall)

/- The call is a Read or Write that sleeps at the pipe. -/
def NetCall.SleepsAt (q : PipeRef) : NetCall → Prop
  | .io _ r _ => r = q
  | _ => False

instance (q : PipeRef) (c : NetCall) : Decidable (c.SleepsAt q) :=
  match c with
  | .io _ r _ => inferInstanceAs (Decidable (r = q))
  | .connect _ _ _ | .accept _ => inferInstanceAs (Decidable False)

def sleepersAt (q : PipeRef) (calls : List (Thread × NetCall)) : List (Thread × NetCall) :=
  calls.filter fun e => e.2.SleepsAt q

def Net.direction (n : Net) (q : PipeRef) (calls : List (Thread × NetCall)) : Direction :=
  { pipe := n.pipes q
    asleep := fun cv => n.waits.asleep (.pipe q cv)
    calls := calls }

def NetRun.direction (s : NetRun) (q : PipeRef) : Direction :=
  s.net.direction q (sleepersAt q s.calls)

/- The thread and the socket of a Read or Write. -/
def NetAction.caller : NetAction → Option (Thread × SocketRef)
  | .io t a _ => some (t,a)
  | .resume t (.io a _ _) _ _ => some (t,a)
  | _ => none

/- kernel_broadcast, if there is one. -/
def Direction.rouse (v : Direction) : Option PipeCV → Direction
  | none => v
  | some cv => { v with asleep := Function.update v.asleep cv [] }

def Direction.endPass (v : Direction) (q : PipeRef) (caller : Option (Thread × SocketRef))
    (c : Call) : Pass × PipeCB → Direction
  | (.sleeps cv, p) =>
    match caller with
    | none => { v with pipe := p }
    | some (t, a) =>
      { pipe := p
        asleep := Function.update v.asleep cv (v.asleep cv ++ [t])
        calls := (t,.io a q c) :: v.calls }
  | (.returns _ _ cv, p) => { v with pipe := p }.rouse cv

def Direction.leave (v : Direction) (q : PipeRef) (caller : Option (Thread × SocketRef))
    (c : Call) : Direction :=
  match caller with
  | none => v
  | some (t, a) => { v with calls := v.calls.erase (t,.io a q c) }

def Direction.apply (q : PipeRef) (caller : Option (Thread × SocketRef)) (v : Direction) :
    PipeEvent → Direction
  | .first c => v.endPass q caller c (c.firstPass v.pipe)
  | .next c => (v.leave q caller c).endPass q caller c (c.nextPass v.pipe)
  | .readerClose => { v with pipe := (pipeReaderClose v.pipe).2 }.rouse (pipeReaderClose v.pipe).1
  | .writerClose => { v with pipe := (pipeWriterClose v.pipe).2 }.rouse (pipeWriterClose v.pipe).1

section Calls
variable {n : Net} {q : PipeRef} {calls : List (Thread × NetCall)}
  {caller : Option (Thread × SocketRef)}

theorem direction_congr {n' : Net} (pipe : n'.pipes q = n.pipes q)
    (asleep : ∀ cv, n'.waits.asleep (.pipe q cv) = n.waits.asleep (.pipe q cv)) :
    n'.direction q calls = n.direction q calls := by
  simp only [Net.direction, pipe, asleep]

theorem broadcast_apart {w : Waits Thread NetCV} {cv cv' : NetCV} (apart : cv ≠ cv') :
    (w.broadcast cv').asleep cv = w.asleep cv := Function.update_of_ne apart ..

theorem wait_apart {w : Waits Thread NetCV} {cv cv' : NetCV} (apart : cv ≠ cv') (t : Thread) :
    (w.wait cv' t).asleep cv = w.asleep cv := Function.update_of_ne apart ..

@[simp] theorem useSocket_direction (a : SocketRef) :
    (n.useSocket a).direction q calls = n.direction q calls := rfl

@[simp] theorem usePipe_direction (r : PipeRef) :
    (n.usePipe r).direction q calls = n.direction q calls := rfl

/- A pipe is closed at one end. -/
theorem closeEnd_direction (r : PipeRef) (e : Option PipeCV × PipeCB) :
    (closeEnd n r e).direction q calls =
      if r = q then { n.direction q calls with pipe := e.2 }.rouse e.1
      else n.direction q calls := by
  obtain ⟨cv,p⟩ := e
  by_cases same : r = q
  · subst same
    cases cv with
    | none => simp [closeEnd, Net.direction, Net.setPipe, Net.freePipe, Direction.rouse]
    | some cv =>
      simp only [closeEnd, Net.direction, Net.setPipe, Net.broadcast, Direction.rouse,
        Waits.broadcast, if_true, Function.update_self, Direction.mk.injEq, true_and, and_true]
      funext cv'
      by_cases here : cv' = cv
      · simp [here]
      · simp [here]
  · rw [if_neg same]
    refine direction_congr ?_ fun cv' => ?_
    · cases cv <;> exact Function.update_of_ne (Ne.symm same) ..
    · cases cv with
      | none => rfl
      | some cv => exact Function.update_of_ne (by simp [Ne.symm same]) ..

theorem readerClose_direction (caller : Option (Thread × SocketRef)) (r : PipeRef) :
    (readerClose n r).2.direction q calls = (if r = q then [PipeEvent.readerClose] else []).foldl
      (Direction.apply q caller) (n.direction q calls) := by
  refine (closeEnd_direction r _).trans ?_
  split
  · rename_i same
    subst same
    rfl
  · rfl

theorem writerClose_direction (caller : Option (Thread × SocketRef)) (r : PipeRef) :
    (writerClose n r).2.direction q calls = (if r = q then [PipeEvent.writerClose] else []).foldl
      (Direction.apply q caller) (n.direction q calls) := by
  refine (closeEnd_direction r _).trans ?_
  split
  · rename_i same
    subst same
    rfl
  · rfl

theorem sysShutDown_direction (a : SocketRef) (how : ShutdownMode) :
    (sysShutDown n a how).2.direction q calls =
      (match (n.sockets a).type with
        | .peer link => how.events link q
        | _ => []).foldl (Direction.apply q caller) (n.direction q calls) := by
  have sockets : (n.useSocket a).sockets = n.sockets := rfl
  simp only [sysShutDown, sockets]
  cases known : (n.sockets a).type with
  | peer link =>
    cases how with
    | read => exact readerClose_direction (n := n.useSocket a) caller link.readPipe
    | write => exact writerClose_direction (n := n.useSocket a) caller link.writePipe
    | both =>
      simp only [ShutdownMode.events, List.foldl_append]
      refine (writerClose_direction caller link.writePipe).trans ?_
      rw [readerClose_direction (n := n.useSocket a) caller link.readPipe,
        useSocket_direction]
  | _ => rfl

theorem freeUnused_direction (a : SocketRef) :
    (freeUnused n a).direction q calls = n.direction q calls := by
  unfold freeUnused
  split <;> rfl

theorem socketClose_direction (a : SocketRef) :
    (socketClose n a).2.direction q calls =
      ((n.sockets a).type.closeEvents q).foldl (Direction.apply q caller)
        (n.direction q calls) := by
  have sockets : (n.useSocket a).sockets = n.sockets := rfl
  simp only [socketClose, sockets]
  cases known : (n.sockets a).type with
  | unbound => exact freeUnused_direction a
  | listener queue =>
    have apart (cv : PipeCV) : NetCV.pipe q cv ≠ .reqAvailable a := fun same => by cases same
    simp only
    split
    · exact direction_congr rfl fun cv => broadcast_apart (w := n.waits) (apart cv)
    · exact direction_congr rfl fun cv => broadcast_apart (w := n.waits) (apart cv)
  | peer link =>
    have second : (readerClose (writerClose (n.useSocket a) link.writePipe).2
        link.readPipe).2.direction q calls = _ := readerClose_direction caller link.readPipe
    rw [writerClose_direction (n := n.useSocket a) caller link.writePipe,
      useSocket_direction, ← List.foldl_append] at second
    exact (freeUnused_direction a).trans second

theorem endTransfer_direction (t : Thread) (a : SocketRef) (r : PipeRef) (c : Call)
    (e : Pass × PipeCB) :
    (endTransfer n t a r c e).2.direction q
      (match (endTransfer n t a r c e).1 with
        | .sleeps call => if call.SleepsAt q then (t,call) :: calls else calls
        | .returns _ _ => calls) =
      if r = q then (n.direction q calls).endPass q (some (t,a)) c e
      else n.direction q calls := by
  obtain ⟨pass,p⟩ := e
  by_cases same : r = q
  · subst same
    cases pass with
    | sleeps cv =>
      simp only [endTransfer, NetCall.SleepsAt, if_true, Net.direction, Net.wait, Net.setPipe,
        Waits.wait, Direction.endPass, Function.update_self, Direction.mk.injEq, true_and, and_true]
      funext cv'
      by_cases here : cv' = cv
      · simp [here]
      · simp [here]
    | returns value data cv =>
      cases cv with
      | none => simp [endTransfer, Net.direction, Net.setPipe, Net.transfer, Direction.endPass,
          Direction.rouse]
      | some cv =>
        simp only [endTransfer, Net.direction, Net.setPipe, Net.transfer, Net.broadcast,
          Direction.endPass, Direction.rouse, Waits.broadcast, if_true, Function.update_self,
          Direction.mk.injEq, true_and, and_true]
        funext cv'
        by_cases here : cv' = cv
        · simp [here]
        · simp [here]
  · have apart (cv cv' : PipeCV) : NetCV.pipe q cv ≠ .pipe r cv' := fun equal => by
      cases equal
      exact same rfl
    rw [if_neg same]
    cases pass with
    | sleeps cv =>
      refine (congrArg (Net.direction _ q) (if_neg same)).trans ?_
      exact direction_congr (Function.update_of_ne (Ne.symm same) ..)
        fun cv' => wait_apart (w := n.waits) (apart cv' cv) t
    | returns value data cv =>
      cases cv with
      | none => exact direction_congr (Function.update_of_ne (Ne.symm same) ..) fun _ => rfl
      | some cv =>
        exact direction_congr (Function.update_of_ne (Ne.symm same) ..)
          fun cv' => broadcast_apart (w := n.waits) (apart cv' cv)

theorem signal_apart {w : Waits Thread NetCV} {cv cv' : NetCV} (apart : cv ≠ cv') :
    (w.signal cv').asleep cv = w.asleep cv := by
  unfold Waits.signal
  split
  · rfl
  · exact Function.update_of_ne apart ..

theorem expire_apart {w : Waits Thread NetCV} {cv cv' : NetCV} (apart : cv ≠ cv') (t : Thread) :
    (w.expire cv' t).asleep cv = w.asleep cv := Function.update_of_ne apart ..

/- The threads asleep at pipes stay there. -/
def KeepsPipes (n n' : Net) : Prop :=
  ∀ q cv, n'.waits.asleep (.pipe q cv) = n.waits.asleep (.pipe q cv)

theorem sysConnect_keeps (t : Thread) (a : SocketRef) (port : Int) :
    KeepsPipes n (sysConnect n t a port).2 := by
  intro q cv
  have apart (l : SocketRef) : NetCV.pipe q cv ≠ .reqAvailable l := fun same => by cases same
  simp only [sysConnect]
  split
  · rfl
  · split
    · rfl
    · split
      · rfl
      · split
        · rfl
        · exact (wait_apart (w := n.waits.signal _) (apart _) t).trans (signal_apart (apart _))

theorem acceptRequest_keeps (l : SocketRef) (r : RequestRef) (rest : List RequestRef)
    (made : Option (Fid × FcbRef)) : KeepsPipes n (acceptRequest n l r rest made).2 := by
  intro q cv
  have apart : NetCV.pipe q cv ≠ .connected r := fun same => by cases same
  have same := sysSocket_waits (n := popRequest n l r rest) (n.sockets l).port made
  rcases acceptRequest_cases n l r rest made with
    ⟨net',result,accepted⟩ | ⟨fid,net',result,accepted⟩
  · rw [result] at same
    rw [accepted]
    exact congrArg (fun w => w.asleep (.pipe q cv)) same
  · rw [result] at same
    rw [accepted]
    refine (signal_apart (w := net'.waits) apart).trans ?_
    exact congrArg (fun w => w.asleep (.pipe q cv)) same

theorem acceptPass_keeps (t : Thread) (l : SocketRef) (made : Option (Fid × FcbRef)) :
    KeepsPipes n (acceptPass n t l made).2 := by
  intro q cv
  have apart : NetCV.pipe q cv ≠ .reqAvailable l := fun same => by cases same
  simp only [acceptPass]
  split
  · rfl
  · exact wait_apart (w := n.waits) apart t
  · exact acceptRequest_keeps l _ _ made q cv

theorem sysAccept_keeps (t : Thread) (l : SocketRef) (made : Option (Fid × FcbRef)) :
    KeepsPipes n (sysAccept n t l made).2 := by
  simp only [sysAccept]
  split
  · exact fun _ _ => rfl
  · split
    · exact fun _ _ => rfl
    · exact acceptPass_keeps t l made

end Calls

section Steps
variable {s : NetRun} {q : PipeRef}

theorem record_sleepers (t : Thread) (p : Progress) (net : Net) :
    sleepersAt q (s.record t p net).calls =
      match p with
      | .sleeps call => if call.SleepsAt q then (t,call) :: sleepersAt q s.calls
          else sleepersAt q s.calls
      | .returns _ _ => sleepersAt q s.calls := by
  cases p with
  | sleeps call =>
    simp only [NetRun.record, sleepersAt, List.filter_cons, decide_eq_true_eq]
  | returns value data => rfl

/- A step that does not concern the pipe. -/
theorem aside_direction {a : NetAction} (enabled : NetEnabled s a) (old : q < s.net.nextPipe)
    (none : s.pipeEvents q a = [])
    (asleep : ∀ cv, (netExec s a).net.waits.asleep (.pipe q cv) = s.net.waits.asleep (.pipe q cv))
    (calls : sleepersAt q (netExec s a).calls = sleepersAt q s.calls) :
    (netExec s a).direction q =
      (s.pipeEvents q a).foldl (Direction.apply q a.caller) (s.direction q) := by
  have pipe := congrArg Flow.pipe (step_flow (x := 0) enabled old)
  rw [none] at pipe ⊢
  unfold NetRun.direction
  rw [calls]
  exact direction_congr pipe asleep

theorem release_direction (a : SocketRef) (caller : Option (Thread × SocketRef)) :
    (s.release a).direction q =
      (if s.refcount a = 0 then (s.net.sockets a).type.closeEvents q else []).foldl
        (Direction.apply q caller) (s.direction q) := by
  unfold NetRun.direction
  rw [release_calls]
  unfold NetRun.release
  split
  · exact socketClose_direction a
  · rfl

theorem transfer_direction (t : Thread) (x : SocketRef) (r : PipeRef) (c : Call) (n : Net)
    (e : Pass × PipeCB) :
    (s.record t (endTransfer n t x r c e).1 (endTransfer n t x r c e).2).direction q =
      if r = q then (n.direction q (sleepersAt q s.calls)).endPass q (some (t,x)) c e
      else n.direction q (sleepersAt q s.calls) := by
  unfold NetRun.direction
  rw [record_net, record_sleepers]
  exact endTransfer_direction t x r c e

theorem io_direction {t : Thread} {x : SocketRef} {c : Call} (named : 0 < s.fids x) :
    (netExec s (.io t x c)).direction q =
      (s.pipeEvents q (.io t x c)).foldl (Direction.apply q (some (t,x))) (s.direction q) := by
  have opened : 0 < (s.record t (socketTransfer s.net t x c).1
      (socketTransfer s.net t x c).2).refcount x := by
    rw [record_refcount, NetRun.refcount]
    omega
  have sockets : (s.net.useSocket x).sockets = s.net.sockets := rfl
  simp only [netExec, netStep]
  rw [release_open opened]
  simp only [socketTransfer, NetRun.pipeEvents, sockets]
  cases known : (s.net.sockets x).type with
  | peer link =>
    refine (transfer_direction t x (link.pipe c) c ((s.net.useSocket x).usePipe (link.pipe c))
      _).trans ?_
    by_cases same : link.pipe c = q
    · subst same
      simp only [if_true]
      rfl
    · simp only [if_neg same]
      rfl
  | _ => rfl

theorem erase_sleepers (t : Thread) (call : NetCall) :
    sleepersAt q (s.leave t call).calls = (sleepersAt q s.calls).erase (t,call) :=
  (List.erase_filter ..).symm

theorem leave_sleepers {t : Thread} {call : NetCall} (out : ¬ call.SleepsAt q) :
    sleepersAt q (s.leave t call).calls = sleepersAt q s.calls := by
  rw [erase_sleepers]
  refine List.erase_of_not_mem fun member => out ?_
  exact of_decide_eq_true (List.mem_filter.mp member).2

theorem leave_direction (t : Thread) (x : SocketRef) (r : PipeRef) (c : Call) :
    (s.leave t (.io x r c)).direction q =
      if r = q then (s.direction q).leave q (some (t,x)) c else s.direction q := by
  by_cases same : r = q
  · subst same
    rw [if_pos rfl]
    unfold NetRun.direction
    rw [erase_sleepers]
    rfl
  · rw [if_neg same]
    unfold NetRun.direction
    rw [leave_sleepers (show ¬ (NetCall.io x r c).SleepsAt q from same)]
    rfl

theorem resume_io_direction {t : Thread} {x : SocketRef} {r : PipeRef} {c : Call}
    (signalled : Bool) (made : Option (Fid × FcbRef)) (asleep : (t,.io x r c) ∈ s.calls) :
    (netExec s (.resume t (.io x r c) signalled made)).direction q =
      (s.pipeEvents q (.resume t (.io x r c) signalled made)).foldl
        (Direction.apply q (some (t,x))) (s.direction q) := by
  have last := resumed_refcount asleep
  have next : ((s.leave t (.io x r c)).record t (ioPass (s.leave t (.io x r c)).net t x r c).1
      (ioPass (s.leave t (.io x r c)).net t x r c).2).net.nextSocket = s.net.nextSocket := by
    rw [record_net]
    exact congrArg View.nextSocket (ioPass_view (n := (s.leave t (.io x r c)).net)
      (o := fun _ => True) t x r c)
  have sockets : (ioPass (s.leave t (.io x r c)).net t x r c).2.sockets = s.net.sockets :=
    endTransfer_sockets _ _ _ _ _
  have passed : ((s.leave t (.io x r c)).record t (ioPass (s.leave t (.io x r c)).net t x r c).1
      (ioPass (s.leave t (.io x r c)).net t x r c).2).direction q =
      (if r = q then [PipeEvent.next c] else []).foldl (Direction.apply q (some (t,x)))
        (s.direction q) := by
    have left := leave_direction (s := s) (q := q) t x r c
    refine (transfer_direction t x r c ((s.leave t (.io x r c)).net.usePipe r) _).trans ?_
    change (if r = q then ((s.leave t (.io x r c)).direction q).endPass q (some (t,x)) c
      (c.nextPass (s.net.pipes r)) else (s.leave t (.io x r c)).direction q) = _
    rw [left]
    by_cases same : r = q
    · subst same
      simp only [if_true]
      rfl
    · simp only [if_neg same]
      rfl
  simp only [netExec, netStep, callPass]
  rw [adopt_same next, release_direction x (some (t,x)), record_net, sockets, passed]
  simp only [last, NetRun.pipeEvents, List.foldl_append]

/-- What a step does to a direction. -/
theorem step_direction {a : NetAction} (enabled : NetEnabled s a) (old : q < s.net.nextPipe) :
    (netExec s a).direction q =
      (s.pipeEvents q a).foldl (Direction.apply q a.caller) (s.direction q) := by
  cases a with
  | socket port made =>
    refine aside_direction enabled old rfl (fun cv => ?_) ?_
    · simp only [netExec, netStep, adopt_net]
      rw [sysSocket_waits]
    · simp only [netExec, netStep, adopt_calls]
  | listen x =>
    refine aside_direction enabled old rfl (fun cv => ?_) rfl
    exact congrArg (fun w => w.asleep (.pipe q cv)) (sysListen_waits (n := s.net) x)
  | connect t x port =>
    refine aside_direction enabled old rfl (fun cv => ?_) ?_
    · simp only [netExec, netStep, record_net]
      exact sysConnect_keeps t x port q cv
    · simp only [netExec, netStep, record_sleepers]
      rcases sysConnect_view (n := s.net) (o := fun _ => True) t x port with
        ⟨failed,_⟩ | ⟨l,_,_,_,_,sleeps,_⟩
      · rw [failed]
      · rw [sleeps]
        exact if_neg id
  | accept t l made =>
    refine aside_direction enabled old rfl (fun cv => ?_) ?_
    · simp only [netExec, netStep, adopt_net, record_net]
      exact sysAccept_keeps t l made q cv
    · simp only [netExec, netStep, adopt_calls, record_sleepers]
      rcases sysAccept_outcome (n := s.net) (o := fun _ => True) t l made with
        ⟨_,failed,_⟩ | ⟨_,_,outcome⟩
      · rw [failed]
      · cases run : (sysAccept s.net t l made).1 with
        | returns value data => rfl
        | sleeps call =>
          rw [run] at outcome
          cases accept_sleeps outcome rfl
          exact if_neg id
  | io t x c => exact io_direction enabled.1
  | shutDown x how => exact sysShutDown_direction x how
  | share x => rfl
  | close x =>
    have named : 0 < s.fids x := enabled
    have last :
        ({ s with fids := Function.update s.fids x (s.fids x - 1) } : NetRun).refcount x = 0 ↔
          s.refcount x = 1 := by
      simp only [NetRun.refcount, NetRun.holds, Function.update_self]
      omega
    refine (release_direction x none).trans ?_
    simp only [last]
    rfl
  | resume t call signalled made =>
    cases call with
    | connect x l r =>
      refine aside_direction enabled old rfl (fun cv => ?_) ?_
      · simp only [netExec, netStep, adopt_net, record_net]
        exact congrArg (fun w => w.asleep (.pipe q cv))
          (connectPass_waits (n := (s.leave t (.connect x l r)).net) x l r signalled)
      · simp only [netExec, netStep, adopt_calls, record_sleepers]
        cases run : (callPass (s.leave t (.connect x l r)).net t signalled made
          (.connect x l r)).1 with
        | returns value data => exact leave_sleepers id
        | sleeps call => exact absurd run (connectPass_returns call)
    | accept l =>
      refine aside_direction enabled old rfl (fun cv => ?_) ?_
      · simp only [netExec, netStep, adopt_net, record_net]
        exact acceptPass_keeps (n := (s.leave t (.accept l)).net) t l made q cv
      · simp only [netExec, netStep, adopt_calls, record_sleepers]
        have outcome := acceptPass_outcome (n := (s.leave t (.accept l)).net)
          (o := fun _ => True) t l made
        cases run : (callPass (s.leave t (.accept l)).net t signalled made (.accept l)).1 with
        | returns value data => exact leave_sleepers id
        | sleeps call =>
          cases accept_sleeps outcome run
          exact (if_neg id).trans (leave_sleepers id)
    | io x r c => exact resume_io_direction signalled made enabled.1
  | expire t x l r =>
    refine aside_direction enabled old rfl (fun cv => ?_) rfl
    exact expire_apart (w := s.net.waits) (fun same => by cases same) t

/- What a pass of a Read or Write on a replies. -/
def passReply (a : SocketRef) (q : PipeRef) (c : Call) : Pass → Progress
  | .sleeps _ => .sleeps (.io a q c)
  | .returns value data _ => .returns value data

theorem endTransfer_reply (n : Net) (t : Thread) (a : SocketRef) (q : PipeRef) (c : Call)
    (e : Pass × PipeCB) : (endTransfer n t a q c e).1 = passReply a q c e.1 := by
  obtain ⟨pass,p⟩ := e
  cases pass <;> rfl

theorem io_reply {t : Thread} {a : SocketRef} {c : Call} {link : PeerSocket}
    (known : s.view.type a = .peer link) : (netStep s (.io t a c)).1 =
      passReply a (link.pipe c) c (c.firstPass (s.net.pipes (link.pipe c))).1 := by
  have sockets : ((s.net.useSocket a).sockets a).type = .peer link := known
  change (socketTransfer s.net t a c).1 = _
  simp only [socketTransfer, sockets]
  exact endTransfer_reply ..

theorem resume_reply (t : Thread) (a : SocketRef) (q : PipeRef) (c : Call) (signalled : Bool)
    (made : Option (Fid × FcbRef)) : (netStep s (.resume t (.io a q c) signalled made)).1 =
      passReply a q c (c.nextPass (s.net.pipes q)).1 :=
  endTransfer_reply ..

def PipeEvent.Closes : PipeEvent → Prop
  | .first _ | .next _ => False
  | .readerClose | .writerClose => True

theorem close_closes {type : SocketType} {e : PipeEvent} (member : e ∈ type.closeEvents q) :
    e.Closes := by
  cases type with
  | peer link =>
    rcases List.mem_append.mp member with one | one
    all_goals
      split at one
      · cases List.mem_singleton.mp one
        exact trivial
      · cases one
  | unbound | listener queue => cases member

theorem shut_closes {how : ShutdownMode} {link : PeerSocket} {e : PipeEvent}
    (member : e ∈ how.events link q) : e.Closes := by
  have single {p : Prop} [Decidable p] {d : PipeEvent} (closes : d.Closes)
      (one : e ∈ if p then [d] else []) : e.Closes := by
    split at one
    · exact List.mem_singleton.mp one ▸ closes
    · cases one
  cases how with
  | read => exact single (d := .readerClose) trivial member
  | write => exact single (d := .writerClose) trivial member
  | both =>
    rcases List.mem_append.mp member with one | one
    · exact single (d := .readerClose) trivial one
    · exact single (d := .writerClose) trivial one

/- The calls of a pipe's functions that a step makes: a Read or Write may be followed by the close
   of its socket. -/
inductive Uses (s : NetRun) (q : PipeRef) (a : NetAction) : Prop where
  | closes (closes : ∀ e ∈ s.pipeEvents q a, e.Closes)
  | first (t : Thread) (x : SocketRef) (c : Call) (link : PeerSocket) (action : a = .io t x c)
      (known : s.view.type x = .peer link) (pipe : link.pipe c = q)
      (events : s.pipeEvents q a = [.first c])
      (reply : (netStep s a).1 = passReply x q c (c.firstPass (s.net.pipes q)).1)
  | next (t : Thread) (x : SocketRef) (c : Call) (signalled : Bool) (made : Option (Fid × FcbRef))
      (last : List PipeEvent) (action : a = .resume t (.io x q c) signalled made)
      (events : s.pipeEvents q a = .next c :: last) (closes : ∀ e ∈ last, e.Closes)
      (reply : (netStep s a).1 = passReply x q c (c.nextPass (s.net.pipes q)).1)

theorem step_uses (s : NetRun) (q : PipeRef) (a : NetAction) : Uses s q a := by
  have nothing (none : s.pipeEvents q a = []) : Uses s q a :=
    .closes fun e member => by rw [none] at member; cases member
  cases a with
  | io t x c =>
    cases known : (s.net.sockets x).type with
    | peer link =>
      have events : s.pipeEvents q (.io t x c) = if link.pipe c = q then [.first c] else [] := by
        simp only [NetRun.pipeEvents, known]
      by_cases same : link.pipe c = q
      · subst same
        exact .first t x c link rfl known rfl (events.trans (if_pos rfl)) (io_reply known)
      · exact nothing (events.trans (if_neg same))
    | unbound | listener queue => exact nothing (by simp only [NetRun.pipeEvents, known])
  | resume t call signalled made =>
    cases call with
    | io x r c =>
      have closes (e : PipeEvent)
          (member : e ∈ if s.refcount x = 1 ∧ Pass.Returns (c.nextPass (s.net.pipes r)).1 then
            (s.net.sockets x).type.closeEvents q else []) : e.Closes := by
        split at member
        · exact close_closes member
        · cases member
      by_cases same : r = q
      · subst same
        exact .next t x c signalled made _ rfl (congrArg (· ++ _) (if_pos rfl)) closes
          (resume_reply t x r c signalled made)
      · refine .closes fun e member => closes e ?_
        simpa only [NetRun.pipeEvents, if_neg same, List.nil_append] using member
    | connect x l r | accept l => exact nothing rfl
  | shutDown x how =>
    refine .closes fun e member => ?_
    simp only [NetRun.pipeEvents] at member
    split at member
    · exact shut_closes member
    · cases member
  | close x =>
    refine .closes fun e member => ?_
    simp only [NetRun.pipeEvents] at member
    split at member
    · exact close_closes member
    · cases member
  | _ => exact nothing rfl

end Steps

section Traces
variable {q : PipeRef}

/- The reply of a step that makes these calls, if it is a Read or Write. -/
def replied (p : Progress) : List PipeEvent → List Progress
  | .first _ :: _ | .next _ :: _ => [p]
  | _ => []

/- The calls of the functions of a pipe that the steps of a run make, with the callers. -/
def trace (q : PipeRef) : NetRun → List NetAction →
    List (Option (Thread × SocketRef) × List PipeEvent)
  | _, [] => []
  | s, a :: as =>
    match s.pipeEvents q a with
    | [] => trace q (netExec s a) as
    | e :: es => (a.caller,e :: es) :: trace q (netExec s a) as

/- The replies of the Reads and Writes among them. -/
def replies (q : PipeRef) : NetRun → List NetAction → List Progress
  | _, [] => []
  | s, a :: as => replied (netStep s a).1 (s.pipeEvents q a) ++ replies q (netExec s a) as

/- What a direction replies to a call that finds it in this state. -/
def Direction.answer (v : Direction) (q : PipeRef) :
    Option (Thread × SocketRef) × List PipeEvent → List Progress
  | (some (_, a), .first c :: _) => [passReply a q c (c.firstPass v.pipe).1]
  | (some (_, a), .next c :: _) => [passReply a q c (c.nextPass v.pipe).1]
  | _ => []

def Direction.play (q : PipeRef) : Direction →
    List (Option (Thread × SocketRef) × List PipeEvent) → List Progress × Direction
  | v, [] => ([], v)
  | v, e :: rest =>
    let (replies, w) := Direction.play q (e.2.foldl (Direction.apply q e.1) v) rest
    (v.answer q e ++ replies, w)

/- The events of a close get no reply. -/
theorem close_answer {es : List PipeEvent} (closes : ∀ e ∈ es, e.Closes) (v : Direction)
    (caller : Option (Thread × SocketRef)) (p : Progress) :
    v.answer q (caller,es) = replied p es := by
  cases es with
  | nil => rcases caller with _ | ⟨t,a⟩ <;> rfl
  | cons e es =>
    have closing := closes e List.mem_cons_self
    cases e with
    | first c | next c => exact closing.elim
    | readerClose | writerClose => rcases caller with _ | ⟨t,a⟩ <;> rfl

theorem step_answer (s : NetRun) (a : NetAction) :
    (s.direction q).answer q (a.caller,s.pipeEvents q a) =
      replied (netStep s a).1 (s.pipeEvents q a) := by
  cases step_uses s q a with
  | closes closes => exact close_answer closes ..
  | first t x c link action known pipe events reply =>
    rw [events, reply, action]
    rfl
  | next t x c signalled made last action events closes reply =>
    rw [events, reply, action]
    rfl

theorem run_play {s u : NetRun} {as : List NetAction} (old : q < s.net.nextPipe)
    (run : netSystem.Runs s as u) :
    (replies q s as,u.direction q) = (s.direction q).play q (trace q s as) := by
  induction run with
  | nil s => rfl
  | @cons s s' u a as move rest ih =>
    obtain ⟨enabled,run⟩ := move
    cases run
    obtain ⟨_,grows,_⟩ := step_move enabled
    have next := ih (Nat.lt_of_lt_of_le old (move_nextPipe grows))
    rw [step_direction enabled old] at next
    have answer := step_answer (q := q) s a
    simp only [replies, trace]
    cases events : s.pipeEvents q a with
    | nil =>
      rw [events] at next
      exact next
    | cons e es =>
      rw [events] at next answer
      simp only [Direction.play, ← next, answer]

end Traces
end KernelSocket
