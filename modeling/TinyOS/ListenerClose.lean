import TinyOS.AcceptWaits
import TinyOS.PipeLives

/- The last Close of a listener: what it returns, what becomes of the Accepts and Connects that
   wait there, and when the block of the socket is freed. -/
namespace KernelSocket
open KernelStreams KernelProc KernelPipe Monitor Transition

/- The calls that count themselves in the socket's refcount. -/
def NetCall.Counts (x : SocketRef) : NetCall → Prop
  | .accept l => l = x
  | .connect a _ _ => a = x
  | .io _ _ _ => False

instance (x : SocketRef) (c : NetCall) : Decidable (c.Counts x) :=
  match c with
  | .accept l => inferInstanceAs (Decidable (l = x))
  | .connect a _ _ => inferInstanceAs (Decidable (a = x))
  | .io _ _ _ => inferInstanceAs (Decidable False)

def NetRun.counted (s : NetRun) (x : SocketRef) : Nat := s.calls.countP fun e => e.2.Counts x

def Net.refs (n : Net) (x : SocketRef) : Int := (n.sockets x).refcount

section Counts
variable {n : Net} {x : SocketRef}

theorem setSocket_refs (n : Net) (a x : SocketRef) (s : Socket) :
    (n.setSocket a s).refs x = if x = a then s.refcount else n.refs x := by
  by_cases same : x = a
  · simp [Net.refs, Net.setSocket, same]
  · simp [Net.refs, Net.setSocket, same]

@[simp] theorem setType_refs (n : Net) (a x : SocketRef) (ty : SocketType) :
    (n.setType a ty).refs x = n.refs x := by
  rw [Net.setType, setSocket_refs]
  split
  · rename_i same
    rw [same]
    rfl
  · rfl

@[simp] theorem addRef_refs (n : Net) (a x : SocketRef) (c : Int) :
    (n.addRef a c).refs x = n.refs x + if x = a then c else 0 := by
  rw [Net.addRef, setSocket_refs]
  split
  · rename_i same
    rw [same]
    rfl
  · exact (Int.add_zero _).symm

theorem refs_same {n' : Net} (same : n'.sockets = n.sockets) (x : SocketRef) :
    n'.refs x = n.refs x := by
  unfold Net.refs
  rw [same]

@[simp] theorem useSocket_refs (a : SocketRef) : (n.useSocket a).refs x = n.refs x := rfl

@[simp] theorem usePort_refs (p : Int) : (n.usePort p).refs x = n.refs x := rfl

@[simp] theorem note_refs (bad : Prop) [Decidable bad] (f : Fault) :
    (n.note bad f).refs x = n.refs x := rfl

@[simp] theorem usePipe_sockets (r : PipeRef) : (n.usePipe r).sockets = n.sockets := rfl

/- A new socket starts with no references, as the unused block before it. -/
theorem sysSocket_refs (port : Int) (made : Option (Fid × FcbRef))
    (unused : n.refs n.nextSocket = 0) : (sysSocket n port made).2.refs x = n.refs x := by
  unfold sysSocket
  split
  · rfl
  · split
    · rfl
    · refine (setSocket_refs n n.nextSocket x _).trans ?_
      split
      · rename_i same
        rw [same]
        exact unused.symm
      · rfl

theorem sysListen_refs (a : SocketRef) : (sysListen n a).2.refs x = n.refs x := by
  have listens (n' : Net) : (becomeListener n' a).refs x = n'.refs x :=
    (refs_same rfl x).trans (setType_refs n' a x _)
  simp only [sysListen]
  split
  · rfl
  · split
    · split
      · rfl
      · exact listens _
    · exact listens _

theorem connectPeers_refs (a b : SocketRef) : (connectPeers n a b).refs x = n.refs x := by
  simp only [connectPeers, setType_refs]
  rfl

theorem acceptRequest_refs (l : SocketRef) (r : RequestRef) (rest : List RequestRef)
    (made : Option (Fid × FcbRef)) (unused : n.refs n.nextSocket = 0) :
    (acceptRequest n l r rest made).2.refs x = n.refs x - if x = l then 1 else 0 := by
  have popped (y : SocketRef) : (popRequest n l r rest).refs y = n.refs y :=
    setType_refs n l y _
  have made' := sysSocket_refs (n := popRequest n l r rest) (x := x) (n.sockets l).port made
    ((popped n.nextSocket).trans unused)
  have dropped (n' : Net) (same : n'.refs x = n.refs x) :
      (n'.addRef l (-1)).refs x = n.refs x - if x = l then 1 else 0 := by
    rw [addRef_refs, same]
    split <;> omega
  rcases acceptRequest_cases n l r rest made with
    ⟨net',result,accepted⟩ | ⟨fid,net',result,accepted⟩
  · rw [result] at made'
    rw [accepted]
    exact dropped _ (made'.trans (popped x))
  · rw [result] at made'
    have same : net'.refs x = n.refs x := made'.trans (popped x)
    rw [accepted]
    exact dropped _ ((refs_same rfl x).trans ((connectPeers_refs _ _).trans same))

/- What a call that goes to sleep counts in the refcount. -/
def Progress.counts (x : SocketRef) : Progress → Nat
  | .sleeps call => if call.Counts x then 1 else 0
  | .returns _ _ => 0

theorem acceptPass_refs (t : Thread) (l : SocketRef) (made : Option (Fid × FcbRef))
    (unused : n.refs n.nextSocket = 0) :
    (acceptPass n t l made).2.refs x + (if x = l then 1 else 0) =
      n.refs x + (acceptPass n t l made).1.counts x := by
  have sockets : (n.useSocket l).sockets = n.sockets := rfl
  simp only [acceptPass, sockets]
  split
  · change (Net.addRef _ l (-1)).refs x + _ = n.refs x + 0
    rw [addRef_refs, usePort_refs, note_refs, useSocket_refs]
    split <;> omega
  · change n.refs x + _ = n.refs x + ((if l = x then 1 else 0 : Nat) : Int)
    by_cases same : x = l
    · simp [same]
    · simp [same, Ne.symm same]
  · rename_i r rest _ _
    have taken := acceptRequest_refs (n := ((n.useSocket l).note (¬ (n.sockets l).type.IsListener)
      (.notListener l)).usePort (n.sockets l).port) (x := x) l r rest made unused
    simp only [taken, usePort_refs, note_refs, useSocket_refs]
    change n.refs x - _ + _ = n.refs x + 0
    omega

theorem sysAccept_refs (t : Thread) (l : SocketRef) (made : Option (Fid × FcbRef))
    (unused : n.refs n.nextSocket = 0) (old : (n.sockets l).type.IsListener → l ≠ n.nextSocket) :
    (sysAccept n t l made).2.refs x = n.refs x + (sysAccept n t l made).1.counts x := by
  have sockets : (n.useSocket l).sockets = n.sockets := rfl
  simp only [sysAccept, sockets]
  split
  · exact (Int.add_zero _).symm
  · split
    · exact (Int.add_zero _).symm
    · rename_i listens
      have other := old (of_not_not listens)
      have same : ∀ x, (n.useSocket l).refs x = n.refs x := refs_same sockets
      have pass := acceptPass_refs (n := (n.useSocket l).addRef l 1) (x := x) t l made (by
        change ((n.useSocket l).addRef l 1).refs n.nextSocket = 0
        rw [addRef_refs, same, unused, if_neg (Ne.symm other)]
        rfl)
      rw [addRef_refs, same] at pass
      omega

theorem sysConnect_refs (t : Thread) (a : SocketRef) (port : Int) :
    (sysConnect n t a port).2.refs x = n.refs x + (sysConnect n t a port).1.counts x := by
  simp only [sysConnect]
  split
  · exact (Int.add_zero _).symm
  · split
    · exact (Int.add_zero _).symm
    · split
      · exact (Int.add_zero _).symm
      · split
        · exact (Int.add_zero _).symm
        · rename_i l _ _ _
          refine (refs_same (n := enqueue (Net.addRef _ a 1) a l) rfl x).trans ?_
          refine (setType_refs _ l x _).trans ?_
          refine (refs_same (n := Net.addRef _ a 1) rfl x).trans ?_
          rw [addRef_refs, refs_same (n := n) rfl]
          change n.refs x + _ = n.refs x + ((if a = x then 1 else 0 : Nat) : Int)
          by_cases same : x = a
          · simp [same]
          · simp [same, Ne.symm same]

theorem connectPass_refs (a l : SocketRef) (r : RequestRef) (signalled : Bool) :
    (connectPass n a l r signalled).2.refs x + (if x = a then 1 else 0) = n.refs x := by
  have left : (((n.useSocket l).useSocket a).addRef a (-1)).refs x + (if x = a then 1 else 0) =
      n.refs x := by
    rw [addRef_refs, useSocket_refs, useSocket_refs]
    split <;> omega
  simp only [connectPass]
  split
  · split <;> exact left
  · exact left

theorem closeEnd_sockets (r : PipeRef) (e : Option PipeCV × PipeCB) :
    (closeEnd n r e).sockets = n.sockets := by
  obtain ⟨cv,p⟩ := e
  cases cv <;> rfl

theorem sysShutDown_sockets (a : SocketRef) (how : ShutdownMode) :
    (sysShutDown n a how).2.sockets = n.sockets := by
  simp only [sysShutDown, readerClose, writerClose]
  split
  · cases how <;> simp only [closeEnd_sockets, usePipe_sockets] <;> rfl
  · rfl

theorem freeUnused_sockets (a : SocketRef) : (freeUnused n a).sockets = n.sockets := by
  unfold freeUnused
  split <;> rfl

theorem socketClose_sockets (a : SocketRef) : (socketClose n a).2.sockets = n.sockets := by
  have sockets : (n.useSocket a).sockets = n.sockets := rfl
  cases known : (n.sockets a).type with
  | unbound =>
    simp only [socketClose, sockets, known]
    exact freeUnused_sockets a
  | listener queue =>
    simp only [socketClose, sockets, known]
    split <;> rfl
  | peer link =>
    simp [socketClose, sockets, known, writerClose, readerClose, freeUnused_sockets,
      closeEnd_sockets]

theorem ioTransfer_sockets (t : Thread) (a : SocketRef) (c : Call) :
    (socketTransfer n t a c).2.sockets = n.sockets := by
  simp only [socketTransfer]
  split
  · rfl
  · rfl
  · exact endTransfer_sockets ..

theorem callPass_refs (t : Thread) (signalled : Bool) (made : Option (Fid × FcbRef)) (call : NetCall)
    (unused : n.refs n.nextSocket = 0) :
    (callPass n t signalled made call).2.refs x + ((if call.Counts x then 1 else 0 : Nat) : Int) =
      n.refs x + (callPass n t signalled made call).1.counts x := by
  have here (l : SocketRef) : ((if l = x then 1 else 0 : Nat) : Int) = if x = l then 1 else 0 := by
    by_cases same : x = l
    · simp [same]
    · simp [same, Ne.symm same]
  cases call with
  | connect a l r =>
    have pass := connectPass_refs (n := n) (x := x) a l r signalled
    have none : (connectPass n a l r signalled).1.counts x = 0 := by
      cases run : (connectPass n a l r signalled).1 with
      | sleeps call => exact absurd run (connectPass_returns call)
      | returns value data => rfl
    change (connectPass n a l r signalled).2.refs x + ((if a = x then 1 else 0 : Nat) : Int) =
      n.refs x + ((connectPass n a l r signalled).1.counts x : Int)
    rw [here, none]
    exact pass.trans (Int.add_zero _).symm
  | accept l =>
    have pass := acceptPass_refs (n := n) (x := x) t l made unused
    rw [← here] at pass
    exact pass
  | io a r c =>
    have same := refs_same (endTransfer_sockets (n := n.usePipe r) t a r c
      (c.nextPass (n.pipes r))) x
    have none : (ioPass n t a r c).1.counts x = 0 := by
      cases run : (ioPass n t a r c).1 with
      | sleeps call => rw [endTransfer_sleeps run]; rfl
      | returns value data => rfl
    change (ioPass n t a r c).2.refs x + ((0 : Nat) : Int) =
      n.refs x + ((ioPass n t a r c).1.counts x : Int)
    rw [none]
    exact congrArg (· + ((0 : Nat) : Int)) same

end Counts

section Runs
variable {s : NetRun} {x : SocketRef}

theorem record_counted (t : Thread) (p : Progress) (net : Net) :
    (s.record t p net).counted x = s.counted x + p.counts x := by
  cases p with
  | sleeps call =>
    simp only [NetRun.record, NetRun.counted, List.countP_cons, decide_eq_true_eq]
    rfl
  | returns value data => rfl

theorem leave_counted {t : Thread} {call : NetCall} (asleep : (t,call) ∈ s.calls) :
    (s.leave t call).counted x + (if call.Counts x then 1 else 0) = s.counted x := by
  have perm := (List.perm_cons_erase asleep).countP_eq fun e => decide (e.2.Counts x)
  rw [List.countP_cons] at perm
  simp only [NetRun.leave, NetRun.counted, decide_eq_true_eq] at perm ⊢
  exact perm.symm

theorem adopt_counted (before : Net) : (s.adopt before).counted x = s.counted x := by
  unfold NetRun.counted
  rw [adopt_calls]

theorem release_counted (a : SocketRef) : (s.release a).counted x = s.counted x := by
  unfold NetRun.counted
  rw [release_calls]

theorem release_refs (a : SocketRef) : (s.release a).net.refs x = s.net.refs x := by
  unfold NetRun.release
  split
  · exact refs_same (socketClose_sockets a) x
  · rfl

/- The refcount of a socket counts the Accepts on it and the Connects from it. -/
def RefsCounted (s : NetRun) : Prop := ∀ x, s.net.refs x = s.counted x

theorem step_refs {a : NetAction} (ok : Allocated s.view) (refs : RefsCounted s)
    (unused : s.counted s.net.nextSocket = 0) (enabled : NetEnabled s a) :
    RefsCounted (netExec s a) := by
  have unused' : s.net.refs s.net.nextSocket = 0 := by rw [refs, unused]; rfl
  intro x
  have old := refs x
  cases a with
  | socket port made =>
    simp only [netExec, netStep, adopt_net, adopt_counted]
    exact (sysSocket_refs port made unused').trans old
  | listen y => exact (sysListen_refs y).trans old
  | connect t y port =>
    have call := sysConnect_refs (n := s.net) (x := x) t y port
    simp only [netExec, netStep, record_net, record_counted]
    omega
  | accept t l made =>
    have other : (s.net.sockets l).type.IsListener → l ≠ s.net.nextSocket := by
      rintro listens rfl
      exact Nat.lt_irrefl _ (listener_made ok listens)
    have call := sysAccept_refs (x := x) t l made unused' other
    simp only [netExec, netStep, adopt_net, adopt_counted, record_net, record_counted]
    omega
  | io t y c =>
    have none : (socketTransfer s.net t y c).1.counts x = 0 := by
      cases run : (socketTransfer s.net t y c).1 with
      | sleeps call =>
        obtain ⟨r,rfl⟩ := socketTransfer_sleeps run
        rfl
      | returns value data => rfl
    simp only [netExec, netStep, release_refs, release_counted, record_net, record_counted, none]
    exact (refs_same (ioTransfer_sockets t y c) x).trans old
  | shutDown y how => exact (refs_same (sysShutDown_sockets y how) x).trans old
  | share y => exact old
  | close y =>
    simp only [netExec, netStep, release_refs, release_counted]
    exact old
  | resume t call signalled made =>
    have left := leave_counted (x := x) enabled.1
    have pass := callPass_refs (n := (s.leave t call).net) (x := x) t signalled made call unused'
    have same : (s.leave t call).net.refs x = s.net.refs x := rfl
    have main : (((s.leave t call).record t (callPass (s.leave t call).net t signalled made call).1
        (callPass (s.leave t call).net t signalled made call).2).adopt s.net).net.refs x =
        (((s.leave t call).record t (callPass (s.leave t call).net t signalled made call).1
        (callPass (s.leave t call).net t signalled made call).2).adopt s.net).counted x := by
      rw [adopt_net, adopt_counted, record_net, record_counted]
      omega
    cases call with
    | io y r c =>
      simp only [netExec, netStep, release_refs, release_counted]
      exact main
    | connect y l r => exact main
    | accept l => exact main
  | expire t y l r => exact old

end Runs

section Frees
variable {n : Net}

theorem sysSocket_frees (port : Int) (made : Option (Fid × FcbRef)) :
    (sysSocket n port made).2.socketFrees = n.socketFrees := by
  unfold sysSocket
  split
  · rfl
  · split <;> rfl

theorem sysListen_frees (a : SocketRef) : (sysListen n a).2.socketFrees = n.socketFrees := by
  simp only [sysListen]
  split
  · rfl
  · split
    · split <;> rfl
    · rfl

theorem sysConnect_frees (t : Thread) (a : SocketRef) (port : Int) :
    (sysConnect n t a port).2.socketFrees = n.socketFrees := by
  simp only [sysConnect]
  split
  · rfl
  · split
    · rfl
    · split
      · rfl
      · split <;> rfl

theorem acceptPass_frees (t : Thread) (l : SocketRef) (made : Option (Fid × FcbRef)) :
    (acceptPass n t l made).2.socketFrees = n.socketFrees := by
  simp only [acceptPass]
  split
  · rfl
  · rfl
  · simp only [acceptRequest, sysSocket]
    split
    · rename_i refused
      split at refused <;> (try split at refused) <;> cases refused <;> rfl
    · rename_i honoured
      split at honoured <;> (try split at honoured) <;> cases honoured
      rfl

theorem sysAccept_frees (t : Thread) (l : SocketRef) (made : Option (Fid × FcbRef)) :
    (sysAccept n t l made).2.socketFrees = n.socketFrees := by
  simp only [sysAccept]
  split
  · rfl
  · split
    · rfl
    · exact acceptPass_frees t l made

theorem connectPass_frees (a l : SocketRef) (r : RequestRef) (signalled : Bool) :
    (connectPass n a l r signalled).2.socketFrees = n.socketFrees := by
  simp only [connectPass]
  split
  · split <;> rfl
  · rfl

theorem closeEnd_frees (r : PipeRef) (e : Option PipeCV × PipeCB) :
    (closeEnd n r e).socketFrees = n.socketFrees := by
  obtain ⟨cv,p⟩ := e
  cases cv <;> rfl

theorem sysShutDown_frees (a : SocketRef) (how : ShutdownMode) :
    (sysShutDown n a how).2.socketFrees = n.socketFrees := by
  have used (n' : Net) (r : PipeRef) : (n'.usePipe r).socketFrees = n'.socketFrees := rfl
  simp only [sysShutDown, readerClose, writerClose]
  split
  · cases how <;> simp only [closeEnd_frees, used] <;> rfl
  · rfl

theorem endTransfer_frees (t : Thread) (a : SocketRef) (r : PipeRef) (c : Call)
    (e : Pass × PipeCB) : (endTransfer n t a r c e).2.socketFrees = n.socketFrees := by
  obtain ⟨pass,p⟩ := e
  cases pass with
  | sleeps cv => rfl
  | returns value data cv => cases cv <;> rfl

theorem socketTransfer_frees (t : Thread) (a : SocketRef) (c : Call) :
    (socketTransfer n t a c).2.socketFrees = n.socketFrees := by
  simp only [socketTransfer]
  split
  · rfl
  · rfl
  · exact endTransfer_frees ..

theorem callPass_frees (t : Thread) (signalled : Bool) (made : Option (Fid × FcbRef))
    (call : NetCall) : (callPass n t signalled made call).2.socketFrees = n.socketFrees := by
  cases call with
  | connect a l r => exact connectPass_frees a l r signalled
  | accept l => exact acceptPass_frees t l made
  | io a r c => exact endTransfer_frees ..

/- The other sockets' blocks stay. -/
theorem socketClose_frees {a x : SocketRef} (other : x ≠ a) :
    (socketClose n a).2.socketFrees x = n.socketFrees x := by
  have unused (n' : Net) : (freeUnused n' a).socketFrees x = n'.socketFrees x := by
    unfold freeUnused
    split
    · exact Function.update_of_ne other ..
    · rfl
  have used (n' : Net) (r : PipeRef) : (n'.usePipe r).socketFrees = n'.socketFrees := rfl
  have sockets : (n.useSocket a).sockets = n.sockets := rfl
  cases known : (n.sockets a).type with
  | unbound =>
    simp only [socketClose, sockets, known, unused]
    rfl
  | listener queue =>
    simp only [socketClose, sockets, known]
    split
    · exact Function.update_of_ne other ..
    · rfl
  | peer link =>
    simp [socketClose, sockets, known, writerClose, readerClose, unused, closeEnd_frees, used]
    rfl

end Frees

section Runs
variable {s : NetRun} {x : SocketRef}

theorem release_frees (a : SocketRef) :
    (s.release a).net.socketFrees x = s.net.socketFrees x ∨ x = a ∧ s.refcount a = 0 := by
  unfold NetRun.release
  split
  · rename_i gone
    by_cases same : x = a
    · exact Or.inr ⟨same,gone⟩
    · exact Or.inl (socketClose_frees same)
  · exact Or.inl rfl

theorem release_refcount (a : SocketRef) : (s.release a).refcount x = s.refcount x := by
  unfold NetRun.release
  split <;> rfl

/-- Only the loss of the last reference frees a socket. -/
theorem step_frees {a : NetAction} (enabled : NetEnabled s a) (x : SocketRef) :
    (netExec s a).net.socketFrees x = s.net.socketFrees x ∨
      0 < s.refcount x ∧ (netExec s a).refcount x = 0 := by
  cases a with
  | socket port made =>
    simp only [netExec, netStep, adopt_net, sysSocket_frees]
    exact Or.inl trivial
  | listen y => exact Or.inl (congrFun (sysListen_frees y) x)
  | connect t y port =>
    simp only [netExec, netStep, record_net, sysConnect_frees]
    exact Or.inl trivial
  | accept t l made =>
    simp only [netExec, netStep, adopt_net, record_net, sysAccept_frees]
    exact Or.inl trivial
  | io t y c =>
    simp only [netExec, netStep, release_refcount]
    rcases release_frees (s := s.record t (socketTransfer s.net t y c).1
      (socketTransfer s.net t y c).2) (x := x) y with same | ⟨rfl,gone⟩
    · rw [record_net, socketTransfer_frees] at same
      exact Or.inl same
    · exact Or.inr ⟨Nat.lt_of_lt_of_le enabled.1 (Nat.le_add_right _ _),gone⟩
  | shutDown y how => exact Or.inl (congrFun (sysShutDown_frees y how) x)
  | share y => exact Or.inl rfl
  | close y =>
    simp only [netExec, netStep, release_refcount]
    rcases release_frees (s := { s with fids := Function.update s.fids y (s.fids y - 1) }) (x := x) y
      with same | ⟨rfl,gone⟩
    · exact Or.inl same
    · exact Or.inr ⟨Nat.lt_of_lt_of_le enabled (Nat.le_add_right _ _),gone⟩
  | resume t call signalled made =>
    have kept : (((s.leave t call).record t (callPass (s.leave t call).net t signalled made call).1
        (callPass (s.leave t call).net t signalled made call).2).adopt s.net).net.socketFrees =
        s.net.socketFrees := by
      rw [adopt_net, record_net, callPass_frees]
      rfl
    cases call with
    | connect y l r => exact Or.inl (congrFun kept x)
    | accept l => exact Or.inl (congrFun kept x)
    | io y r c =>
      simp only [netExec, netStep, release_refcount]
      rcases release_frees (x := x) y with same | ⟨rfl,gone⟩
      · exact Or.inl (same.trans (congrFun kept x))
      · exact Or.inr ⟨holds_open enabled.1,gone⟩
  | expire t y l r => exact Or.inl rfl

structure CloseInv (s : NetRun) : Prop where
  connects : ConnectInv s
  mapped : Mapped s.view
  accepts : ∀ t l, (t,.accept l) ∈ s.calls → l < s.net.nextSocket
  refs : RefsCounted s
  frees : ∀ x, 0 < s.refcount x ∨ s.net.nextSocket ≤ x → s.net.socketFrees x = 0

theorem move_opened {v w : View} {e : Event} (move : Move v e w) (opened : w.isOpen x) :
    v.isOpen x ∨ x = v.nextSocket := by
  cases move with
  | socket port fcb legal => exact opened
  | honour l r rest fcb queue legal => exact opened
  | close a opens => exact Or.inl opened.1
  | _ => exact Or.inl opened

theorem unused_counted (inv : CloseInv s) : s.counted s.net.nextSocket = 0 := by
  refine List.countP_eq_zero.mpr fun e member counts => ?_
  obtain ⟨t,call⟩ := e
  have counts := of_decide_eq_true counts
  cases call with
  | accept l => exact Nat.lt_irrefl _ (counts ▸ inv.accepts t l member)
  | connect a l r =>
    have asks := inv.connects.asks t a l r member
    have owner := inv.connects.allocated.owners r asks.made
    rw [asks.owner] at owner
    exact Nat.lt_irrefl _ (counts ▸ owner)
  | io a r c => exact counts

theorem closeInv_inductive : netSystem.Inductive CloseInv := by
  constructor
  · rintro s ⟨memory,rfl⟩
    refine ⟨connectInv_inductive.start _ ⟨memory,rfl⟩,?_,by simp [bootNet],fun x => rfl,
      fun x _ => rfl⟩
    constructor <;> simp [bootNet, NetRun.view, Net.view, NetRun.refcount, NetRun.holds]
  · rintro s a s' inv ⟨enabled,run⟩
    have connects := connectInv_inductive.step s a s' inv.connects ⟨enabled,run⟩
    cases run
    obtain ⟨e,move,_⟩ := step_move enabled
    have next : s.net.nextSocket ≤ (netExec s a).net.nextSocket := move_next move
    refine ⟨connects,move_mapped inv.connects.allocated inv.mapped move,fun t l asleep => ?_,
      step_refs inv.connects.allocated inv.refs (unused_counted inv) enabled,fun x open' => ?_⟩
    · rcases step_accepts enabled asleep with ⟨t',old⟩ | listens
      · exact Nat.lt_of_lt_of_le (inv.accepts t' l old) next
      · exact Nat.lt_of_lt_of_le (listener_made inv.connects.allocated listens) next
    · rcases step_frees enabled x with same | ⟨opened,gone⟩
      · rw [same]
        apply inv.frees
        rcases open' with opened | beyond
        · rcases move_opened move opened with old | new
          · exact Or.inl old
          · exact Or.inr (Nat.le_of_eq new.symm)
        · exact Or.inr (Nat.le_trans next beyond)
      · rcases open' with opened' | beyond
        · exact absurd gone (Nat.ne_of_gt opened')
        · have made := inv.connects.allocated.opened x opened
          exact absurd made (Nat.not_lt.mpr (Nat.le_trans next beyond))

/- An Accept or a Connect that waits on the listener. -/
def NetCall.WaitsAt (l : SocketRef) : NetCall → Prop
  | .accept l' => l' = l
  | .connect _ l' _ => l' = l
  | .io _ _ _ => False

/-- The last Close of the listener lets go whoever waits there, and its block outlives them. -/
structure ClosesSafely (s : NetRun) (l : SocketRef) : Prop where
  returns : (netStep s (.close l)).1 = reply 0
  accepts : ∀ as u, netSystem.Runs (netExec s (.close l)) as u → ∀ t signalled made,
    NetEnabled u (.resume t (.accept l) signalled made) →
    (netStep u (.resume t (.accept l) signalled made)).1 = reply (-1)
  connects : ∀ as u, netSystem.Runs (netExec s (.close l)) as u → ∀ t a r signalled made,
    NetEnabled u (.resume t (.connect a l r) signalled made) → u.view.admitted r = false →
    (netStep u (.resume t (.connect a l r) signalled made)).1 = reply (-1)
  unfreed : ∀ as u, netSystem.Runs (netExec s (.close l)) as u →
    (∃ e ∈ u.calls, e.2.WaitsAt l) → u.net.socketFrees l = 0
  freed : ∀ as u, netSystem.Runs (netExec s (.close l)) as u →
    (¬ ∃ e ∈ u.calls, e.2.WaitsAt l) → u.net.socketFrees l = 1

/- No Accept or Connect is in progress on the socket, nor a Connect from it. -/
def Deserted (s : NetRun) (x : SocketRef) : Prop :=
  ∀ e ∈ s.calls, ¬ e.2.WaitsAt x ∧ ¬ e.2.Counts x

/- A listener that has been closed. -/
structure Gone (s : NetRun) (l : SocketRef) : Prop where
  made : l < s.net.nextSocket
  closed : s.refcount l = 0
  unmapped : ∀ p, s.view.portMap p ≠ some l
  deserted : Deserted s l
  freed : s.net.socketFrees l = 1

theorem move_unmapped {v w : View} {e : Event} {l : SocketRef} (move : Move v e w)
    (closed : ¬ v.isOpen l) (unmapped : ∀ p, v.portMap p ≠ some l) :
    ∀ p, w.portMap p ≠ some l := by
  cases move with
  | listen a opens unbound bound free =>
    simp only [View.listen, View.setType]
    grind
  | close a opens =>
    simp only [View.close, View.unmap, View.withOpen]
    grind
  | _ => exact unmapped

theorem step_deserted {a : NetAction} {l : SocketRef} (gone : Gone s l) (enabled : NetEnabled s a) :
    Deserted (netExec s a) l := by
  intro e asleep
  have closed (y : SocketRef) (named : 0 < s.fids y) : y ≠ l := by
    rintro rfl
    have named' : 0 < s.refcount y := Nat.lt_of_lt_of_le named (Nat.le_add_right _ _)
    exact Nat.ne_of_gt named' gone.closed
  rcases step_calls asleep with old | new
  · exact gone.deserted e old
  · obtain ⟨t0,call⟩ := e
    cases a with
    | connect t y port =>
      rcases sysConnect_view (n := s.net) (o := fun _ => True) t y port with
        ⟨failed,_⟩ | ⟨l',_,mapped,_,_,sleeps,_⟩
      · cases failed.symm.trans new
      · cases sleeps.symm.trans new
        refine ⟨?_,closed y enabled.1⟩
        rintro rfl
        exact gone.unmapped port mapped
    | accept t y made =>
      rcases sysAccept_outcome (n := s.net) (o := fun _ => True) t y made with
        ⟨_,failed,_⟩ | ⟨_,_,outcome⟩
      · cases failed.symm.trans new
      · cases accept_sleeps outcome new
        exact ⟨closed y enabled.1,closed y enabled.1⟩
    | io t y c =>
      obtain ⟨r,same⟩ := socketTransfer_sleeps new
      cases same
      exact ⟨id,id⟩
    | resume t call signalled made =>
      have old := gone.deserted _ enabled.1
      cases call with
      | connect y l' r => exact absurd new (connectPass_returns _)
      | io y r c =>
        cases endTransfer_sleeps new
        exact ⟨id,id⟩
      | accept y =>
        cases accept_sleeps (acceptPass_outcome (o := fun _ => True) t y made) new
        exact old
    | _ => cases new

theorem step_gone {a : NetAction} {l : SocketRef} (gone : Gone s l) (enabled : NetEnabled s a) :
    Gone (netExec s a) l := by
  obtain ⟨e,move,_⟩ := step_move enabled
  have closed : ¬ s.view.isOpen l := fun opened => Nat.ne_of_gt opened gone.closed
  refine ⟨Nat.lt_of_lt_of_le gone.made (move_next move),?_,
    move_unmapped move closed gone.unmapped,step_deserted gone enabled,?_⟩
  · by_contra opened
    rcases move_opened move (Nat.pos_of_ne_zero opened) with old | new
    · exact closed old
    · exact Nat.ne_of_lt gone.made new
  · rcases step_frees enabled l with same | ⟨opened,_⟩
    · exact same.trans gone.freed
    · exact absurd opened closed

theorem gone_runs {u : NetRun} {as : List NetAction} {l : SocketRef} (gone : Gone s l)
    (runs : netSystem.Runs s as u) : Gone u l := by
  induction runs with
  | nil s => exact gone
  | cons move rest ih =>
    obtain ⟨enabled,run⟩ := move
    cases run
    exact ih (step_gone gone enabled)

theorem close_value {n : Net} {l : SocketRef} (listens : (n.sockets l).type.IsListener) :
    (socketClose n l).1 = (if n.refs l = 0 then 0 else -1) ∧
    (socketClose n l).2.socketFrees l = n.socketFrees l + if n.refs l = 0 then 1 else 0 := by
  have sockets : (n.useSocket l).sockets = n.sockets := rfl
  obtain ⟨queue,known⟩ := listens
  simp only [socketClose, sockets, known]
  split
  · rename_i unused
    have none : n.refs l = 0 := unused
    rw [if_pos none, if_pos none]
    exact ⟨rfl,Function.update_self ..⟩
  · rename_i used
    have some' : ¬ n.refs l = 0 := used
    rw [if_neg some', if_neg some']
    exact ⟨rfl,rfl⟩

/-- The last Close of a listener does as it should if and only if nobody waits there, and the
    listener itself asks for no connection. -/
theorem listener_close_safe {l : SocketRef} (reach : netSystem.Reach s)
    (listens : (s.view.type l).IsListener) (last : s.refcount l = 1)
    (enabled : NetEnabled s (.close l)) : ClosesSafely s l ↔ Deserted s l := by
  have inv := inductive_reach closeInv_inductive reach
  have named : 0 < s.fids l := enabled
  have dropped :
      ({ s with fids := Function.update s.fids l (s.fids l - 1) } : NetRun).refcount l = 0 := by
    simp only [NetRun.refcount, NetRun.holds, Function.update_self] at last ⊢
    omega
  obtain ⟨value,frees⟩ := close_value (n := s.net) listens
  have replied : (netStep s (.close l)).1 = reply (if s.net.refs l = 0 then 0 else -1) := by
    simp only [netStep, NetRun.releaseValue, dropped, if_true, value]
  have freed : (netExec s (.close l)).net.socketFrees l = if s.net.refs l = 0 then 1 else 0 := by
    simp only [netExec, netStep, NetRun.release, dropped, if_true, frees]
    rw [inv.frees l (Or.inl (by omega))]
    exact Nat.zero_add _
  have calls : (netExec s (.close l)).calls = s.calls := release_calls l
  constructor
  · intro safe
    have none : s.net.refs l = 0 := by
      by_contra some'
      have failed := replied.symm.trans safe.returns
      rw [if_neg some'] at failed
      cases failed
    rw [if_pos none] at freed
    have uncounted : s.counted l = 0 := Int.ofNat.inj ((inv.refs l).symm.trans none)
    intro e member
    refine ⟨fun waits => ?_,fun counts => ?_⟩
    · have unfreed := safe.unfreed [] _ (.nil _) ⟨e,calls ▸ member,waits⟩
      rw [freed] at unfreed
      cases unfreed
    · exact List.countP_eq_zero.mp uncounted e member (decide_eq_true counts)
  · intro deserted
    have uncounted : s.counted l = 0 :=
      List.countP_eq_zero.mpr fun e member counts => (deserted e member).2 (of_decide_eq_true counts)
    have unused : s.net.refs l = 0 := by rw [inv.refs, uncounted]; rfl
    rw [if_pos unused] at freed replied
    have gone : Gone (netExec s (.close l)) l := by
      refine ⟨?_,(release_refcount l).trans dropped,fun p => ?_,?_,freed⟩
      · obtain ⟨e,move,_⟩ := step_move enabled
        exact Nat.lt_of_lt_of_le (listener_made inv.connects.allocated listens) (move_next move)
      · have closed : (netExec s (.close l)).view.portMap =
            Function.update s.view.portMap (s.view.port l) none := by
          have view := release_view
            (s := { s with fids := Function.update s.fids l (s.fids l - 1) }) l
          rw [if_pos dropped] at view
          exact (congrArg View.portMap view).trans (if_pos listens)
        rw [closed]
        intro mapped
        by_cases here : p = s.view.port l
        · rw [here, Function.update_self] at mapped
          cases mapped
        · rw [Function.update_of_ne here] at mapped
          exact here (inv.mapped.holder p l mapped).2.1.symm
      · unfold Deserted
        rw [calls]
        exact deserted
    have free := fun as u (runs : netSystem.Runs (netExec s (.close l)) as u) => gone_runs gone runs
    refine ⟨replied,fun as u runs t signalled made enabled' => ?_,
      fun as u runs t a r signalled made enabled' => ?_,fun as u runs waits => ?_,
      fun as u runs _ => (free as u runs).freed⟩
    · exact absurd rfl ((free as u runs).deserted _ enabled'.1).1
    · exact absurd rfl ((free as u runs).deserted _ enabled'.1).1
    · obtain ⟨e,member,waits⟩ := waits
      exact absurd waits ((free as u runs).deserted e member).1

/- Socket 0 listens on port 5. -/
def oneListener : List NetAction := [.socket 5 (some (0,0)),.listen 0]

theorem listener_close_safe_deserted : ∃ s, netSystem.Reach s ∧ ClosesSafely s 0 := by
  have reach := play_reach (m := netSystem) ⟨fun _ => blankPipe,rfl⟩ oneListener rfl
  exact ⟨_,reach,(listener_close_safe reach ⟨[],rfl⟩ rfl (by decide)).mpr fun e member => by
    cases member⟩

/-- With an Accept waiting Close fails, and with a Connect waiting the block is freed at once. -/
theorem listener_close_unsafe :
    (∃ s, netSystem.Reach s ∧ NetEnabled s (.close 0) ∧ s.refcount 0 = 1 ∧
      (netStep s (.close 0)).1 = reply (-1) ∧ ¬ ClosesSafely s 0) ∧
    ∃ s, netSystem.Reach s ∧ NetEnabled s (.close 0) ∧ s.refcount 0 = 1 ∧
      ((1,1),.connect 1 0 0) ∈ (netExec s (.close 0)).calls ∧
      (netExec s (.close 0)).net.socketFrees 0 = 1 ∧ ¬ ClosesSafely s 0 := by
  constructor
  · have reach := play_reach (m := netSystem) ⟨fun _ => blankPipe,rfl⟩
      (oneListener ++ [.accept (1,1) 0 none]) rfl
    refine ⟨_,reach,by decide,rfl,rfl,fun safe => ?_⟩
    cases safe.returns
  · have reach := play_reach (m := netSystem) ⟨fun _ => blankPipe,rfl⟩ oneRequest rfl
    refine ⟨_,reach,by decide,rfl,by decide,rfl,fun safe => ?_⟩
    have unfreed := safe.unfreed [] _ (.nil _) ⟨((1,1),.connect 1 0 0),by decide,rfl⟩
    cases unfreed

end Runs
end KernelSocket
