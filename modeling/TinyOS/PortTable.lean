import TinyOS.SocketTables

/- The port table: it holds the open listeners, and nothing looks beyond its end. -/
namespace KernelSocket
open KernelStreams KernelProc KernelPipe Monitor Transition

/- The accesses to Port_Map that missed it. -/
def Net.strays (net : Net) : Int → Prop := fun p => .portBounds p ∈ net.faults

def InTable (p : Int) : Prop := 0 ≤ p ∧ p < maxPort

section Strays
variable {n : Net}

theorem note_strays (bad : Prop) [Decidable bad] {f : Fault} (other : ∀ p, f ≠ .portBounds p) :
    (n.note bad f).strays = n.strays := by
  funext p
  simp only [Net.strays, Net.note]
  split
  · simp [Ne.symm (other p)]
  · rfl

@[simp] theorem useSocket_strays (a : SocketRef) : (n.useSocket a).strays = n.strays :=
  note_strays _ (by simp)

@[simp] theorem usePipe_strays (r : PipeRef) : (n.usePipe r).strays = n.strays :=
  note_strays _ (by simp)

@[simp] theorem useNodes_strays (nodes : List RequestRef) :
    (n.useNodes nodes).strays = n.strays := by
  funext p
  simp [Net.strays, Net.useNodes]

theorem usePort_strays (q p : Int) :
    (n.usePort q).strays p ↔ n.strays p ∨ p = q ∧ ¬ InTable p := by
  by_cases inside : InTable q
  · have same : (n.usePort q).strays p ↔ n.strays p := by
      simp only [Net.strays, Net.usePort, Net.note]
      rw [if_neg (show ¬ ¬ (0 ≤ q ∧ q < maxPort) from not_not.mpr inside)]
    rw [same]
    refine ⟨Or.inl,?_⟩
    rintro (old | ⟨rfl,outside⟩)
    · exact old
    · exact absurd inside outside
  · have same : (n.usePort q).strays p ↔ p = q ∨ n.strays p := by
      simp only [Net.strays, Net.usePort, Net.note]
      rw [if_pos (show ¬ (0 ≤ q ∧ q < maxPort) from inside)]
      simp
    rw [same]
    constructor
    · rintro (rfl | old)
      · exact Or.inr ⟨rfl,inside⟩
      · exact Or.inl old
    · rintro (old | ⟨here,_⟩)
      · exact Or.inr old
      · exact Or.inl here

@[simp] theorem closeEnd_strays (r : PipeRef) (e : Option PipeCV × PipeCB) :
    (closeEnd n r e).strays = n.strays := by
  obtain ⟨cv,p⟩ := e
  cases cv <;> rfl

@[simp] theorem readerClose_strays (r : PipeRef) : (readerClose n r).2.strays = n.strays := by
  simp [readerClose]

@[simp] theorem writerClose_strays (r : PipeRef) : (writerClose n r).2.strays = n.strays := by
  simp [writerClose]

@[simp] theorem sysShutDown_strays (a : SocketRef) (how : ShutdownMode) :
    (sysShutDown n a how).2.strays = n.strays := by
  simp only [sysShutDown]
  split
  · cases how <;> simp
  · rw [note_strays _ (by simp), useSocket_strays]

theorem endTransfer_strays (t : Thread) (a : SocketRef) (r : PipeRef) (c : Call) (e : Pass × PipeCB) :
    (endTransfer n t a r c e).2.strays = n.strays := by
  obtain ⟨pass,p⟩ := e
  cases pass with
  | sleeps cv => rfl
  | returns value data cv => cases cv <;> rfl

theorem socketTransfer_strays (t : Thread) (a : SocketRef) (c : Call) :
    (socketTransfer n t a c).2.strays = n.strays := by
  simp only [socketTransfer]
  split
  · exact useSocket_strays a
  · exact useSocket_strays a
  · rw [endTransfer_strays, usePipe_strays, useSocket_strays]

theorem ioPass_strays (t : Thread) (a : SocketRef) (r : PipeRef) (c : Call) :
    (ioPass n t a r c).2.strays = n.strays := by
  unfold ioPass
  rw [endTransfer_strays, usePipe_strays]

theorem connectPass_strays (a l : SocketRef) (r : RequestRef) (signalled : Bool) :
    (connectPass n a l r signalled).2.strays = n.strays := by
  have used : (((n.useSocket l).useSocket a).addRef a (-1)).strays = n.strays :=
    (useSocket_strays (n := n.useSocket l) a).trans (useSocket_strays l)
  simp only [connectPass]
  split
  · split <;> exact used
  · exact used

theorem sysSocket_strays (port : Int) (made : Option (Fid × FcbRef)) :
    (sysSocket n port made).2.strays = n.strays := by
  unfold sysSocket
  split
  · rfl
  · cases made <;> rfl

theorem becomeListener_strays (a : SocketRef) : (becomeListener n a).strays = n.strays := rfl

theorem sysListen_strays (a : SocketRef) (p : Int) :
    (sysListen n a).2.strays p ↔ n.strays p ∨ ((n.sockets a).type = .unbound ∧
      (n.sockets a).port ≠ noport ∧ p = (n.sockets a).port ∧ ¬ InTable p) := by
  have sockets : (n.useSocket a).sockets = n.sockets := rfl
  have used : ((n.useSocket a).usePort (n.sockets a).port).strays p ↔
      n.strays p ∨ p = (n.sockets a).port ∧ ¬ InTable p := by
    rw [usePort_strays, useSocket_strays]
  simp only [sysListen, sockets]
  split
  · rename_i refused
    rw [useSocket_strays]
    refine ⟨Or.inl,?_⟩
    rintro (old | ⟨unbound,bound,_⟩)
    · exact old
    · exact absurd refused (by simp [unbound, bound])
  · rename_i allowed
    have unbound : (n.sockets a).type = .unbound := by
      by_contra other
      exact allowed (Or.inl other)
    have bound : (n.sockets a).port ≠ noport := fun zero => allowed (Or.inr zero)
    simp only [unbound, bound, ne_eq, not_false_eq_true, true_and]
    rw [← used]
    split
    · split <;> simp [becomeListener_strays]
    · simp [becomeListener_strays]

theorem sysConnect_strays (t : Thread) (a : SocketRef) (port p : Int) :
    (sysConnect n t a port).2.strays p ↔
      n.strays p ∨ ((0 ≤ port ∧ port ≤ maxPort) ∧ p = port ∧ ¬ InTable p) := by
  have waited (m : Net) (cv cv' : NetCV) (l : SocketRef) :
      ((((enqueue (m.addRef a 1) a l)).signal cv).wait cv' t).strays = m.strays :=
    useNodes_strays (n := m.addRef a 1) _
  simp only [sysConnect]
  split
  · rename_i illegal
    refine ⟨Or.inl,?_⟩
    rintro (old | ⟨legal,_⟩)
    · exact old
    · omega
  · rename_i legal
    have ok : 0 ≤ port ∧ port ≤ maxPort := by omega
    simp only [ok, and_self, true_and]
    rw [← usePort_strays]
    split
    · rfl
    · split
      · simp
      · split
        · simp
        · rw [waited, useSocket_strays, useSocket_strays]

theorem acceptRequest_strays (l : SocketRef) (r : RequestRef) (rest : List RequestRef)
    (made : Option (Fid × FcbRef)) :
    (acceptRequest n l r rest made).2.strays = n.strays := by
  have same : (sysSocket (popRequest n l r rest) (n.sockets l).port made).2.strays = n.strays :=
    (sysSocket_strays _ made).trans (useNodes_strays (n := n) (r :: rest.take 1))
  rcases acceptRequest_cases n l r rest made with
    ⟨net',result,accepted⟩ | ⟨fid,net',result,accepted⟩
  · rw [result] at same
    rw [accepted]
    exact same
  · rw [result] at same
    rw [accepted]
    exact (useSocket_strays _).trans same

theorem acceptPass_strays {t : Thread} {l : SocketRef} {made : Option (Fid × FcbRef)} {p : Int}
    (stray : (acceptPass n t l made).2.strays p) :
    n.strays p ∨ (p = (n.sockets l).port ∧ ¬ InTable p) := by
  have sockets : (n.useSocket l).sockets = n.sockets := rfl
  simp only [acceptPass, sockets] at stray
  generalize used : ((n.useSocket l).note (¬ (n.sockets l).type.IsListener)
    (.notListener l)).usePort (n.sockets l).port = net' at stray
  have here : net'.strays p → n.strays p ∨ (p = (n.sockets l).port ∧ ¬ InTable p) := by
    rw [← used]
    intro there
    rwa [usePort_strays, note_strays _ (by simp), useSocket_strays] at there
  split at stray
  · exact here stray
  · exact here stray
  · rw [acceptRequest_strays] at stray
    exact here stray

theorem sysAccept_strays {t : Thread} {l : SocketRef} {made : Option (Fid × FcbRef)} {p : Int}
    (stray : (sysAccept n t l made).2.strays p) :
    n.strays p ∨ ((n.sockets l).type.IsListener ∧ p = (n.sockets l).port ∧ ¬ InTable p) := by
  have sockets : (n.useSocket l).sockets = n.sockets := rfl
  simp only [sysAccept, sockets] at stray
  split at stray
  · exact Or.inl (by simpa using stray)
  · split at stray
    · exact Or.inl (by simpa using stray)
    · rename_i listens
      rcases acceptPass_strays stray with old | ⟨here,outside⟩
      · exact Or.inl (by rwa [← useSocket_strays l])
      · have port : (((n.useSocket l).addRef l 1).sockets l).port = (n.sockets l).port := by
          simp [Net.addRef, Net.setSocket, sockets]
        exact Or.inr ⟨of_not_not listens,here.trans port,outside⟩

theorem freeUnused_strays (a : SocketRef) : (freeUnused n a).strays = n.strays := by
  unfold freeUnused
  split <;> rfl

theorem socketClose_strays {a : SocketRef} {p : Int} (stray : (socketClose n a).2.strays p) :
    n.strays p ∨ ((n.sockets a).type.IsListener ∧ p = (n.sockets a).port ∧ ¬ InTable p) := by
  have sockets : (n.useSocket a).sockets = n.sockets := rfl
  cases known : (n.sockets a).type with
  | unbound =>
    simp only [socketClose, sockets, known, freeUnused_strays, useSocket_strays] at stray
    exact Or.inl stray
  | listener queue =>
    simp only [socketClose, sockets, known] at stray
    have here : ((n.useSocket a).usePort (n.sockets a).port).strays p := by
      split at stray <;> exact stray
    rw [usePort_strays, useSocket_strays] at here
    simpa using here
  | peer link =>
    simp only [socketClose, sockets, known, writerClose, readerClose, ne_eq, not_true_eq_false,
      if_false, freeUnused_strays, closeEnd_strays, usePipe_strays, useSocket_strays] at stray
    exact Or.inl stray

end Strays

section Runs
variable {s : NetRun}

/- The port under which a step may look into the table. -/
def NetRun.Names (s : NetRun) (p : Int) : NetAction → Prop
  | .listen a => s.view.type a = .unbound ∧ s.view.port a ≠ noport ∧ p = s.view.port a
  | .connect _ _ port => (0 ≤ port ∧ port ≤ maxPort) ∧ p = port
  | .accept _ l _ => (s.view.type l).IsListener ∧ p = s.view.port l
  | .resume _ (.accept l) _ _ => p = s.view.port l
  | .close a | .io _ a _ | .resume _ (.io a _ _) _ _ =>
    (s.view.type a).IsListener ∧ p = s.view.port a
  | _ => False

theorem release_strays {a : SocketRef} {p : Int} (stray : (s.release a).net.strays p) :
    s.net.strays p ∨ ((s.net.sockets a).type.IsListener ∧ p = (s.net.sockets a).port ∧
      ¬ InTable p) := by
  unfold NetRun.release at stray
  split at stray
  · exact socketClose_strays stray
  · exact Or.inl stray

theorem step_strays {a : NetAction} {p : Int} (stray : (netExec s a).net.strays p) :
    s.net.strays p ∨ (s.Names p a ∧ ¬ InTable p) := by
  cases a with
  | socket port made =>
    simp only [netExec, netStep, adopt_net] at stray
    rw [sysSocket_strays] at stray
    exact Or.inl stray
  | listen a =>
    rcases (sysListen_strays (n := s.net) a p).mp stray with old | ⟨unbound,bound,here,outside⟩
    · exact Or.inl old
    · exact Or.inr ⟨⟨unbound,bound,here⟩,outside⟩
  | connect t a port =>
    simp only [netExec, netStep, record_net] at stray
    rcases (sysConnect_strays t a port p).mp stray with old | ⟨legal,here,outside⟩
    · exact Or.inl old
    · exact Or.inr ⟨⟨legal,here⟩,outside⟩
  | accept t l made =>
    simp only [netExec, netStep, adopt_net, record_net] at stray
    rcases sysAccept_strays stray with old | ⟨listens,here,outside⟩
    · exact Or.inl old
    · exact Or.inr ⟨⟨listens,here⟩,outside⟩
  | io t a c =>
    have types : ((socketTransfer s.net t a c).2.view fun _ => True) = s.net.view fun _ => True :=
      socketTransfer_view t a c
    have type := congrFun (congrArg View.type types) a
    have port := congrFun (congrArg View.port types) a
    have strays := socketTransfer_strays (n := s.net) t a c
    simp only [netExec, netStep] at stray
    generalize socketTransfer s.net t a c = e at stray type port strays
    rcases release_strays stray with old | ⟨listens,here,outside⟩
    · rw [record_net, strays] at old
      exact Or.inl old
    · rw [record_net] at listens here
      exact Or.inr ⟨⟨type ▸ listens,here.trans port⟩,outside⟩
  | shutDown a how =>
    have same : (netExec s (.shutDown a how)).net.strays = s.net.strays := sysShutDown_strays a how
    exact Or.inl (same ▸ stray)
  | share a => exact Or.inl stray
  | close a =>
    rcases release_strays stray with old | ⟨listens,here,outside⟩
    · exact Or.inl old
    · exact Or.inr ⟨⟨listens,here⟩,outside⟩
  | resume t call signalled made =>
    cases call with
    | connect a l r =>
      simp only [netExec, netStep, callPass, adopt_net, record_net] at stray
      rw [connectPass_strays] at stray
      exact Or.inl stray
    | accept l =>
      simp only [netExec, netStep, callPass, adopt_net, record_net] at stray
      rcases acceptPass_strays stray with old | ⟨here,outside⟩
      · exact Or.inl old
      · exact Or.inr ⟨here,outside⟩
    | io a r c =>
      have types : ((ioPass (s.leave t (.io a r c)).net t a r c).2.view fun _ => True) =
          s.net.view fun _ => True := ioPass_view t a r c
      have type := congrFun (congrArg View.type types) a
      have port := congrFun (congrArg View.port types) a
      have strays := ioPass_strays (n := (s.leave t (.io a r c)).net) t a r c
      simp only [netExec, netStep, callPass] at stray
      generalize ioPass (s.leave t (.io a r c)).net t a r c = e at stray type port strays
      rcases release_strays stray with old | ⟨listens,here,outside⟩
      · rw [adopt_net, record_net, strays] at old
        exact Or.inl old
      · rw [adopt_net, record_net] at listens here
        exact Or.inr ⟨⟨type ▸ listens,here.trans port⟩,outside⟩
  | expire t a l r => exact Or.inl stray

/- Only an Accept on a listener goes to sleep as an Accept. -/
theorem step_accepts {a : NetAction} {t : Thread} {l : SocketRef} (enabled : NetEnabled s a)
    (asleep : (t,NetCall.accept l) ∈ (netExec s a).calls) :
    (∃ t', (t',.accept l) ∈ s.calls) ∨ (s.view.type l).IsListener := by
  rcases step_calls asleep with old | new
  · exact Or.inl ⟨t,old⟩
  · cases a with
    | connect t' x port =>
      rcases sysConnect_view (n := s.net) (o := fun _ => True) t' x port with
        ⟨failed,_⟩ | ⟨l',_,_,_,_,sleeps,_⟩
      · cases failed.symm.trans new
      · cases sleeps.symm.trans new
    | accept t' l' made =>
      rcases sysAccept_outcome (n := s.net) (o := fun _ => True) t' l' made with
        ⟨_,failed,_⟩ | ⟨_,listens,outcome⟩
      · cases failed.symm.trans new
      · cases accept_sleeps outcome new
        exact Or.inr listens
    | io t' x c =>
      obtain ⟨r,same⟩ := socketTransfer_sleeps new
      cases same
    | resume t' call signalled made =>
      cases call with
      | connect x l' r => exact absurd new (connectPass_returns _)
      | io x r c => cases endTransfer_sleeps new
      | accept l' =>
        cases accept_sleeps (acceptPass_outcome (o := fun _ => True) t' l' made) new
        exact Or.inl ⟨t',enabled.1⟩
    | _ => cases new

end Runs

section Table

/- Port_Map[p] is the open listener bound to p, if there is one. -/
def TableExact (v : View) : Prop :=
  ∀ p a, v.portMap p = some a ↔ v.isOpen a ∧ (v.type a).IsListener ∧ v.port a = p

def Bounded (v : View) : Prop := ∀ x, (v.type x).IsListener → v.port x < maxPort

/- What a step must not do: listen on MAX_PORT, or turn an open listener into a peer. -/
def View.Proper (v : View) : Event → Prop
  | .other | .enqueued _ | .closed _ | .refused _ => True
  | .listened a => v.port a ≠ maxPort
  | .honoured r => ¬ (v.isOpen (v.owner r) ∧ (v.type (v.owner r)).IsListener)

theorem move_port {v w : View} {e : Event} (move : Move v e w) {x : SocketRef}
    (made : x < v.nextSocket) : w.port x = v.port x := by
  have other : x ≠ v.nextSocket := Nat.ne_of_lt made
  cases move with
  | socket port fcb legal => exact Function.update_of_ne other _ _
  | honour l r rest fcb queue legal => exact Function.update_of_ne other _ _
  | _ => rfl

theorem move_next {v w : View} {e : Event} (move : Move v e w) : v.nextSocket ≤ w.nextSocket := by
  cases move with
  | socket port fcb legal => exact Nat.le_succ _
  | honour l r rest fcb queue legal => exact Nat.le_succ _
  | _ => exact Nat.le_refl _

theorem move_table {v w : View} {e : Event} (ok : Allocated v) (table : TableExact v)
    (bounded : Bounded v) (move : Move v e w) (proper : v.Proper e) :
    TableExact w ∧ Bounded w := by
  have opened := ok.opened
  have fresh := ok.fresh
  have ports := ok.ports
  unfold TableExact Bounded at *
  cases move with
  | quiet => exact ⟨table,bounded⟩
  | socket port fcb legal =>
    simp only [View.openNew, View.withOpen, View.addSocket]
    grind [unbound_not_listener]
  | listen a opens unbound bound free =>
    simp only [View.listen, View.setType, View.Proper] at proper ⊢
    grind [listener_isListener, unbound_not_listener]
  | enqueue a l port opens unbound mapped listens =>
    simp only [View.enqueue, View.setType]
    grind [listener_isListener]
  | refuse l r rest queue =>
    have listens : (v.type l).IsListener := ⟨_,queue⟩
    simp only [View.refuse, View.takeRequest, View.setFate, View.setType]
    grind [listener_isListener]
  | honour l r rest fcb queue legal =>
    have listens : (v.type l).IsListener := ⟨_,queue⟩
    have asked := ok.queues l _ queue r (by simp)
    have owner := ok.owners r asked
    simp only [View.openNew, View.withOpen, View.honour, View.takeRequest, View.setFate, View.setType,
      View.addSocket, View.connectPeers, View.Proper] at proper ⊢
    grind [listener_isListener, peer_not_listener]
  | close a opens =>
    by_cases listens : (v.type a).IsListener
    · have mapped := (table (v.port a) a).mpr ⟨opens,listens,rfl⟩
      simp only [View.close, View.unmap, View.withOpen, if_pos listens]
      grind
    · simp only [View.close, View.unmap, View.withOpen, if_neg listens]
      grind

structure PortInv (s : NetRun) : Prop where
  allocated : Allocated s.view
  table : TableExact s.view
  bounded : Bounded s.view
  accepts : ∀ t l, (t,NetCall.accept l) ∈ s.calls →
    l < s.view.nextSocket ∧ s.view.port l < maxPort
  strays : ∀ p, ¬ s.net.strays p

/- No Listen or Connect names MAX_PORT. -/
def NetRun.BelowLast (s : NetRun) : NetAction → Prop
  | .listen x => ¬ (s.view.type x = .unbound ∧ s.view.port x = maxPort)
  | .connect _ _ port => port ≠ maxPort
  | _ => True

/- Nor does an Accept honour the request of an open listener. -/
def PortSafe (s : NetRun) (a : NetAction) : Prop :=
  s.BelowLast a ∧
  ∀ r, s.Admits a r → ¬ (s.view.isOpen (s.view.owner r) ∧ (s.view.type (s.view.owner r)).IsListener)

theorem listener_made {v : View} (ok : Allocated v) {l : SocketRef}
    (listens : (v.type l).IsListener) : l < v.nextSocket := by
  by_contra beyond
  have unbound := ok.fresh l (Nat.le_of_not_lt beyond)
  rw [unbound] at listens
  exact unbound_not_listener listens

theorem step_proper {s : NetRun} {a : NetAction} {e : Event} {w : View} (safe : PortSafe s a)
    (move : Move s.view e w) {p : Progress}
    (explained : s.Explains a p e) : s.view.Proper e := by
  cases move with
  | listen x opens unbound bound free =>
    cases explained
    exact fun last => safe.1 ⟨unbound,last⟩
  | honour l r rest fcb queue legal => exact safe.2 r explained.1
  | _ => trivial

theorem names_inside {s : NetRun} {a : NetAction} {p : Int} (inv : PortInv s)
    (enabled : NetEnabled s a) (safe : PortSafe s a) (names : s.Names p a) : InTable p := by
  have ports := inv.allocated.ports
  have opened := inv.allocated.opened
  have inside (l : SocketRef) (listens : (s.view.type l).IsListener)
      (here : p = s.view.port l) : InTable p := by
    have legal := ports l (listener_made inv.allocated listens)
    have bound := inv.bounded l listens
    subst here
    exact ⟨legal.1,bound⟩
  cases a with
  | listen x =>
    obtain ⟨unbound,_,here⟩ := names
    have named : 0 < s.refcount x := Nat.lt_of_lt_of_le enabled (Nat.le_add_right _ _)
    have legal := ports x (opened x named)
    have last : s.view.port x ≠ maxPort := fun last => safe.1 ⟨unbound,last⟩
    subst here
    exact ⟨legal.1,lt_of_le_of_ne legal.2 last⟩
  | connect t x port =>
    obtain ⟨legal,here⟩ := names
    have last : port ≠ maxPort := safe.1
    subst here
    exact ⟨legal.1,lt_of_le_of_ne legal.2 last⟩
  | accept t l made => exact inside l names.1 names.2
  | io t x c => exact inside x names.1 names.2
  | close x => exact inside x names.1 names.2
  | resume t call signalled made =>
    cases call with
    | connect x l r => cases names
    | accept l =>
      obtain ⟨old,bound⟩ := inv.accepts t l enabled.1
      have here : p = s.view.port l := names
      subst here
      exact ⟨(ports l old).1,bound⟩
    | io x r c => exact inside x names.1 names.2
  | _ => cases names

theorem step_portInv {s : NetRun} {a : NetAction} (inv : PortInv s) (enabled : NetEnabled s a)
    (safe : PortSafe s a) : PortInv (netExec s a) := by
  obtain ⟨e,move,explained⟩ := step_move enabled
  have proper := step_proper safe move explained
  obtain ⟨table,bounded⟩ := move_table inv.allocated inv.table inv.bounded move proper
  have allocated := move_allocated inv.allocated move
  refine ⟨allocated,table,bounded,?_,?_⟩
  · intro t l asleep
    have kept (old : l < s.view.nextSocket) (bound : s.view.port l < maxPort) :
        l < (netExec s a).view.nextSocket ∧ (netExec s a).view.port l < maxPort := by
      rw [move_port move old]
      exact ⟨Nat.lt_of_lt_of_le old (move_next move),bound⟩
    rcases step_accepts enabled asleep with ⟨t',old⟩ | listens
    · exact kept (inv.accepts t' l old).1 (inv.accepts t' l old).2
    · exact kept (listener_made inv.allocated listens) (inv.bounded l listens)
  · intro p stray
    rcases step_strays stray with old | ⟨names,outside⟩
    · exact inv.strays p old
    · exact outside (names_inside inv enabled safe names)

theorem portInv_inductive : (netSystem.restrict PortSafe).Inductive PortInv := by
  constructor
  · rintro s ⟨memory,rfl⟩
    refine ⟨boot_allocated memory,?_,?_,by simp [bootNet],by simp [bootNet, Net.strays]⟩
    · intro p a
      simp [bootNet, NetRun.view, Net.view]
    · intro x listens
      exact absurd listens unbound_not_listener
  · rintro s a s' inv ⟨⟨enabled,safe⟩,run⟩
    cases run
    exact step_portInv inv enabled safe

/- Nothing looks beyond the table, it holds the open listeners, and Listen succeeds where there
   is none. -/
structure PortsExact (s : NetRun) : Prop where
  inside : ∀ p, ¬ s.net.strays p
  table : TableExact s.view
  single : ∀ l l', s.view.isOpen l → s.view.isOpen l' → (s.view.type l).IsListener →
    (s.view.type l').IsListener → s.view.port l = s.view.port l' → l = l'
  listens : ∀ a, s.view.isOpen a → s.view.type a = .unbound → s.view.port a ≠ noport →
    ((sysListen s.net a).1 = 0 ↔
      ¬ ∃ l, s.view.isOpen l ∧ (s.view.type l).IsListener ∧ s.view.port l = s.view.port a)

theorem inv_portsExact {s : NetRun} (inv : PortInv s) : PortsExact s := by
  have table := inv.table
  refine ⟨inv.strays,table,?_,?_⟩
  · intro l l' opens opens' listens listens' same
    have here := (table _ l).mpr ⟨opens,listens,rfl⟩
    have there := (table _ l').mpr ⟨opens',listens',same.symm⟩
    exact Option.some.inj (here.symm.trans there)
  · intro a opens unbound bound
    rcases sysListen_view (n := s.net) (o := fun x => 0 < s.refcount x) a with
      ⟨ok,⟨_,_,free⟩,_⟩ | ⟨failed,busy,_⟩
    · refine iff_of_true ok ?_
      rintro ⟨l,opens',listens,same⟩
      have mapped := (table (s.view.port a) l).mpr ⟨opens',listens,same⟩
      have typed : s.view.type l = .unbound := free l mapped
      rw [typed] at listens
      exact unbound_not_listener listens
    · refine iff_of_false (by rw [failed]; decide) (not_not.mpr ?_)
      by_contra vacant
      apply busy
      refine ⟨unbound,bound,?_⟩
      intro l mapped
      exact absurd ⟨l,(table _ l).mp mapped⟩ vacant

theorem honoured_listener {v w : View} {r : RequestRef} (ok : Allocated v) (table : TableExact v)
    (opens : v.isOpen (v.owner r)) (listens : (v.type (v.owner r)).IsListener)
    (move : Move v (.honoured r) w) : ¬ TableExact w := by
  cases move with
  | honour l r rest fcb queue legal =>
    intro table'
    have mapped := (table _ _).mpr ⟨opens,listens,rfl⟩
    have still := ((table' (v.port (v.owner r)) (v.owner r)).mp mapped).2.1
    have old : v.owner r ≠ v.nextSocket := Nat.ne_of_lt (ok.opened _ opens)
    have peer : (v.openNew (v.honour l r rest fcb)).type (v.owner r) =
        .peer { peer := v.nextSocket, readPipe := v.nextPipe, writePipe := v.nextPipe + 1 } := by
      simp only [View.openNew, View.withOpen, View.honour, View.takeRequest, View.setFate,
        View.setType, View.addSocket, View.connectPeers]
      rw [Function.update_of_ne old, Function.update_self]
    rw [peer] at still
    exact peer_not_listener _ still

/-- The port table is exact as long as MAX_PORT is not named, listeners stay listeners, and no step
    touches what is not there, such as the node of a Connect that has returned. -/
theorem port_table_exact {s : NetRun} (reach : (intactSystem.restrict PortSafe).Reach s) :
    PortsExact s ∧
    ∀ a, intactSystem.enabled s a → ¬ PortSafe s a → ¬ PortsExact (netExec s a) := by
  have inv := inductive_reach portInv_inductive (restrict_inner reach)
  refine ⟨inv_portsExact inv,?_⟩
  rintro a ⟨enabled,_⟩ wrong exact'
  have last : ¬ InTable maxPort := fun inside => lt_irrefl _ inside.2
  rcases not_and_or.mp wrong with named | admitted
  · cases a with
    | listen x =>
      obtain ⟨unbound,port⟩ := of_not_not named
      have port' : maxPort = (s.net.sockets x).port := port.symm
      apply exact'.inside maxPort
      exact (sysListen_strays x maxPort).mpr
        (Or.inr ⟨unbound,by rw [← port']; decide,port',last⟩)
    | connect t x port =>
      cases of_not_not named
      apply exact'.inside maxPort
      simp only [netExec, netStep, record_net]
      exact (sysConnect_strays t x maxPort maxPort).mpr (Or.inr ⟨by decide,rfl,last⟩)
    | _ => exact named trivial
  · simp only [not_forall, not_not] at admitted
    obtain ⟨r,admits,opens,listens⟩ := admitted
    have move := admits_move enabled (listener_ports inv.allocated) admits
    exact honoured_listener inv.allocated inv.table opens listens move exact'.table

theorem port_safe_quiet {s : NetRun} {a : NetAction} (none : ∀ r, ¬ s.Admits a r)
    (below : s.BelowLast a) : PortSafe s a :=
  ⟨below,fun r admits => absurd admits (none r)⟩

theorem port_table_exact_one_connection :
    ∃ s, (intactSystem.restrict PortSafe).Reach s ∧ PortsExact s ∧ s.view.portMap 5 = some 0 := by
  have reach := meets_reach (m := intactSystem) ⟨fun _ => blankPipe,rfl⟩ oneConnection rfl (by
    refine ⟨port_safe_quiet (fun _ no => no) trivial,fun _ run => ?_⟩
    cases run
    refine ⟨port_safe_quiet (fun _ no => no) fun last => absurd last.2 (by decide),fun _ run => ?_⟩
    cases run
    refine ⟨port_safe_quiet (fun _ no => no) trivial,fun _ run => ?_⟩
    cases run
    refine ⟨port_safe_quiet (fun _ no => no) (show (5 : Int) ≠ maxPort by decide),fun _ run => ?_⟩
    cases run
    refine ⟨⟨trivial,?_⟩,fun _ _ => trivial⟩
    rintro r ⟨_,rest,queue⟩ ⟨_,listens⟩
    cases queue
    exact unbound_not_listener listens)
  exact ⟨_,reach,(port_table_exact reach).1,rfl⟩

/- The last port that sys_Socket accepts is one too high. -/
theorem port_table_overrun : ∃ s, intactSystem.Reach s ∧ ¬ PortsExact s := by
  have reach := play_reach (m := intactSystem) ⟨fun _ => blankPipe,rfl⟩
    [.socket maxPort (some (0,0)),.listen 0] rfl
  refine ⟨_,reach,fun exact' => ?_⟩
  exact exact'.inside maxPort (List.mem_singleton.mpr rfl)

end Table
end KernelSocket
