import TinyOS.ListenerClose

/- Peers name each other, over all runs. A socket goes on naming its peer when that has been freed,
   and xmalloc may put another Socket_CB where it was: here the sockets have addresses. -/
namespace KernelSocket
open KernelStreams KernelProc KernelPipe Monitor Transition

abbrev Address := Nat

/- `address` is where xmalloc has put each Socket_CB. -/
structure PlacedRun where
  run : NetRun
  address : SocketRef → Address

/- A step, and where xmalloc puts the Socket_CB if it makes one. -/
abbrev PlacedAction := NetAction × Address

/- xmalloc does not hand out a block that is in use. -/
def PlacedEnabled (s : PlacedRun) (a : PlacedAction) : Prop :=
  NetEnabled s.run a.1 ∧
    ∀ x < s.run.net.nextSocket, s.run.net.socketFrees x = 0 → s.address x ≠ a.2

def placedExec (s : PlacedRun) (a : PlacedAction) : PlacedRun :=
  { run := netExec s.run a.1
    address := Function.update s.address s.run.net.nextSocket a.2 }

def placedSystem : Machine PlacedRun PlacedAction :=
  { start := fun s => netSystem.start s.run
    enabled := PlacedEnabled
    exec := fun s a => some (placedExec s a) }

instance (s : PlacedRun) (a : PlacedAction) : Decidable (placedSystem.enabled s a) :=
  inferInstanceAs (Decidable (NetEnabled s.run a.1 ∧
    ∀ x < s.run.net.nextSocket, s.run.net.socketFrees x = 0 → s.address x ≠ a.2))

/- A socket's peer is whatever is at the address that it has kept. -/
def PeersAgree (s : PlacedRun) : Prop :=
  (∀ a b link, s.run.view.isOpen a → s.run.view.type a = .peer link → s.run.view.isOpen b →
    s.address b = s.address link.peer →
    ∃ back, s.run.view.type b = .peer back ∧ s.address back.peer = s.address a ∧
      link.writePipe = back.readPipe ∧ link.readPipe = back.writePipe) ∧
  ∀ a a' link link', s.run.view.isOpen a → s.run.view.isOpen a' →
    s.run.view.type a = .peer link → s.run.view.type a' = .peer link' →
    s.address link.peer = s.address link'.peer → a = a'

section Moves
variable {v w : View} {e : Event}

/- The peer of an open socket, open or not, has not taken up with another one. -/
def Paired (v : View) : Prop :=
  ∀ a link, v.isOpen a → v.type a = .peer link →
    v.type link.peer =
      .peer { peer := a, writePipe := link.readPipe, readPipe := link.writePipe }

/- The socket of the request is the peer of an open socket already. -/
def View.Taken (v : View) (r : RequestRef) : Prop :=
  ∃ x link, v.isOpen x ∧ v.type x = .peer link ∧ link.peer = v.owner r

theorem move_paired (ok : Allocated v) (paired : Paired v)
    (free : ∀ r, e = .honoured r → ¬ v.Taken r) (move : Move v e w) : Paired w := by
  have peers := ok.peers
  have opened := ok.opened
  unfold Paired at *
  cases move with
  | quiet => exact paired
  | socket port fcb legal =>
    simp only [View.openNew, View.withOpen, View.addSocket]
    grind
  | listen a opens unbound bound vacant =>
    simp only [View.listen, View.setType]
    grind
  | enqueue a l port opens unbound mapped listens =>
    obtain ⟨q,known⟩ := listens
    simp only [View.enqueue, View.setType]
    grind
  | refuse l r rest queue =>
    simp only [View.refuse, View.takeRequest, View.setFate, View.setType]
    grind
  | honour l r rest fcb queue legal =>
    have asked := ok.queues l _ queue r (by simp)
    have owner := ok.owners r asked
    have untaken := free r rfl
    simp only [View.Taken] at untaken
    simp only [View.openNew, View.withOpen, View.honour, View.takeRequest, View.setFate,
      View.setType, View.addSocket, View.connectPeers]
    grind
  | close a opens =>
    simp only [View.close, View.unmap, View.withOpen]
    grind

/- Who is a peer after a step was one before, or is one of the two that it has connected. -/
theorem move_peer (ok : Allocated v) (move : Move v e w) {x : SocketRef} {link : PeerSocket}
    (opened : w.isOpen x) (linked : w.type x = .peer link) :
    (v.isOpen x ∧ v.type x = .peer link) ∨
    ∃ r, e = .honoured r ∧ w.nextSocket = v.nextSocket + 1 ∧
      (x = v.owner r ∧ link.peer = v.nextSocket ∨ x = v.nextSocket ∧ link.peer = v.owner r) := by
  have fresh := ok.fresh
  cases move with
  | quiet => exact .inl ⟨opened,linked⟩
  | socket port fcb legal =>
    simp only [View.openNew, View.withOpen, View.addSocket] at opened linked
    grind
  | listen a opens unbound bound vacant =>
    simp only [View.listen, View.setType] at opened linked
    grind
  | enqueue a l port opens unbound mapped listens =>
    simp only [View.enqueue, View.setType] at opened linked
    grind
  | refuse l r rest queue =>
    simp only [View.refuse, View.takeRequest, View.setFate, View.setType] at opened linked
    grind
  | honour l r rest fcb queue legal =>
    simp only [View.openNew, View.withOpen, View.honour, View.takeRequest, View.setFate,
      View.setType, View.addSocket, View.connectPeers] at opened linked ⊢
    grind
  | close a opens => exact .inl ⟨opened.1,linked⟩

theorem move_one (move : Move v e w) :
    w.nextSocket = v.nextSocket ∨ w.nextSocket = v.nextSocket + 1 := by
  cases move with
  | socket port fcb legal => exact .inr rfl
  | honour l r rest fcb queue legal => exact .inr rfl
  | _ => exact .inl rfl

end Moves

section Owners
variable {n : Net} {l : SocketRef} {r : RequestRef} {made : Option (Fid × FcbRef)}

/- The request is honoured only after a look at the socket that made it. -/
def Net.LooksAt (n n' : Net) (r : RequestRef) : Prop :=
  (∀ b, n'.fate r ≠ some (.honoured b)) ∨
  (0 < n.socketFrees (n.requests r).peer → .freedSocket (n.requests r).peer ∈ n'.faults)

theorem acceptRequest_looks (n : Net) (l : SocketRef) (r : RequestRef) (rest : List RequestRef)
    (made : Option (Fid × FcbRef)) :
    n.LooksAt (acceptRequest n l r rest made).2 r := by
  have frees : (sysSocket (popRequest n l r rest) (n.sockets l).port made).2.socketFrees =
      n.socketFrees := sysSocket_frees _ made
  rcases acceptRequest_cases n l r rest made with
    ⟨net',result,accepted⟩ | ⟨fid,net',result,accepted⟩
  · rw [accepted]
    refine .inl fun b honoured => ?_
    have refused : (net'.setFate r .refused).fate r = some .refused := Function.update_self ..
    cases refused.symm.trans honoured
  · rw [accepted]
    refine .inr fun freed => ?_
    rw [result] at frees
    have noted : .freedSocket (n.requests r).peer ∈
        (net'.useSocket (n.requests r).peer).faults := by
      simp only [Net.useSocket, Net.note]
      rw [if_pos (frees ▸ freed)]
      exact List.mem_cons_self
    exact noted

theorem acceptPass_looks {t : Thread} {rest : List RequestRef}
    (mapped : n.portMap (n.sockets l).port ≠ none)
    (queue : (n.sockets l).type = .listener (r :: rest)) :
    n.LooksAt (acceptPass n t l made).2 r := by
  have sockets : (n.useSocket l).sockets = n.sockets := rfl
  have looks := acceptRequest_looks (((n.useSocket l).note (¬ (n.sockets l).type.IsListener)
    (.notListener l)).usePort (n.sockets l).port) l r rest made
  simp only [acceptPass, sockets]
  split
  · rename_i unmapped
    exact absurd unmapped mapped
  · rename_i empty
    rw [queue] at empty
    cases empty
  · rename_i r' rest' _ front
    rw [queue] at front
    cases front
    exact looks

theorem sysAccept_looks {t : Thread} {rest : List RequestRef}
    (mapped : n.portMap (n.sockets l).port ≠ none)
    (queue : (n.sockets l).type = .listener (r :: rest)) (pending : n.fate r = none) :
    n.LooksAt (sysAccept n t l made).2 r := by
  have same (b : SocketRef) : (n.useSocket l).fate r ≠ some (.honoured b) := by
    intro honoured
    cases pending.symm.trans honoured
  simp only [sysAccept]
  split
  · exact .inl same
  · split
    · exact .inl same
    · have view := addRef_view (n := n.useSocket l) (o := fun _ => True) l 1
      have typed := congrFun (congrArg View.type view) l
      have port : (((n.useSocket l).addRef l 1).sockets l).port = (n.sockets l).port :=
        congrFun (congrArg View.port view) l
      refine acceptPass_looks (n := (n.useSocket l).addRef l 1) ?_ (typed.trans queue)
      rw [port]
      exact mapped

end Owners

section Steps
variable {s : NetRun}

/-- The socket that an Accept makes a peer has not been freed. -/
theorem owner_unfreed {a : NetAction} {r : RequestRef} (connects : ConnectInv s)
    (enabled : NetEnabled s a) (intact : Intact s a) (admits : s.Admits a r) :
    s.net.socketFrees (s.view.owner r) = 0 := by
  have move := admits_move enabled (listener_ports connects.allocated) admits
  have honoured : ∃ b, (netExec s a).view.fate r = some (.honoured b) := by
    generalize (netExec s a).view = w at move
    cases move with
    | honour l r rest fcb queue legal => exact ⟨_,Function.update_self ..⟩
  have looks : s.net.LooksAt (netExec s a).net r := by
    cases a with
    | accept t l made =>
      cases made with
      | none => cases admits
      | some e =>
        obtain ⟨mapped,rest,queue⟩ := admits
        have pending := connects.requests.pending l _ queue r List.mem_cons_self
        simp only [netExec, netStep, adopt_net, record_net]
        exact sysAccept_looks mapped queue pending
    | resume t call signalled made =>
      cases call with
      | accept l =>
        cases made with
        | none => cases admits
        | some e =>
          obtain ⟨mapped,rest,queue⟩ := admits
          simp only [netExec, netStep, adopt_net, record_net]
          exact acceptPass_looks (n := (s.leave t (.accept l)).net) mapped queue
      | _ => cases made <;> cases admits
    | _ => cases admits
  obtain ⟨b,honoured⟩ := honoured
  rcases looks with other | looks
  · exact absurd honoured (other b)
  · by_contra freed
    cases intact _ (looks (Nat.pos_of_ne_zero freed))

/- xmalloc does not put a socket where the peer of an open one was. -/
def Unnamed (s : PlacedRun) (a : PlacedAction) : Prop :=
  ∀ x link, s.run.view.isOpen x → s.run.view.type x = .peer link → s.address link.peer ≠ a.2

/- No Accept honours the request of a socket that is the peer of an open one. -/
def SinglePeer (s : NetRun) (a : NetAction) : Prop := ∀ r, s.Admits a r → ¬ s.view.Taken r

def PeerSafe (s : PlacedRun) (a : PlacedAction) : Prop :=
  SinglePeer s.run a.1 ∧ Intact s.run a.1 ∧ Unnamed s a

/- No block shares its address with an older one in use, nor with an older one that an open socket
   names. -/
structure PeersInv (s : PlacedRun) : Prop where
  closes : CloseInv s.run
  paired : Paired s.run.view
  apart : ∀ x y, x < y → y < s.run.net.nextSocket → s.run.net.socketFrees x = 0 →
    s.address x ≠ s.address y
  latest : ∀ x link, s.run.view.isOpen x → s.run.view.type x = .peer link →
    ∀ y, link.peer < y → y < s.run.net.nextSocket → s.address link.peer ≠ s.address y

end Steps

section Runs
variable {s : PlacedRun}

theorem address_old {a : PlacedAction} {x : SocketRef} (old : x < s.run.net.nextSocket) :
    (placedExec s a).address x = s.address x :=
  Function.update_of_ne (Nat.ne_of_lt old) ..

theorem address_new (a : PlacedAction) : (placedExec s a).address s.run.net.nextSocket = a.2 :=
  Function.update_self ..

theorem made_before {a : PlacedAction} (enabled : PlacedEnabled s a) {y : SocketRef}
    (made : y < (placedExec s a).run.net.nextSocket) : y ≤ s.run.net.nextSocket := by
  obtain ⟨e,move,_⟩ := step_move enabled.1
  rcases move_one move with same | more
  · exact Nat.le_of_lt (lt_of_lt_of_eq made same)
  · exact Nat.lt_succ_iff.mp (lt_of_lt_of_eq made more)

theorem step_apart {a : PlacedAction} (inv : PeersInv s) (enabled : PlacedEnabled s a)
    {x y : SocketRef} (older : x < y) (made : y < (placedExec s a).run.net.nextSocket)
    (unfreed : (placedExec s a).run.net.socketFrees x = 0) :
    (placedExec s a).address x ≠ (placedExec s a).address y := by
  have made := made_before enabled made
  have old : x < s.run.net.nextSocket := Nat.lt_of_lt_of_le older made
  have before : s.run.net.socketFrees x = 0 := by
    rcases step_frees enabled.1 x with same | ⟨opened,_⟩
    · exact same ▸ unfreed
    · exact inv.closes.frees x (.inl opened)
  rw [address_old old]
  by_cases new : y = s.run.net.nextSocket
  · rw [new, address_new]
    exact enabled.2 x old before
  · have old' : y < s.run.net.nextSocket := Nat.lt_of_le_of_ne made new
    rw [address_old old']
    exact inv.apart x y older old' before

theorem step_latest {a : PlacedAction} (inv : PeersInv s) (enabled : PlacedEnabled s a)
    (safe : PeerSafe s a) {x : SocketRef} {link : PeerSocket}
    (opened : (placedExec s a).run.view.isOpen x)
    (linked : (placedExec s a).run.view.type x = .peer link) {y : SocketRef}
    (older : link.peer < y) (made : y < (placedExec s a).run.net.nextSocket) :
    (placedExec s a).address link.peer ≠ (placedExec s a).address y := by
  have ok := inv.closes.connects.allocated
  obtain ⟨e,move,explained⟩ := step_move enabled.1
  have made := made_before enabled made
  have old : link.peer < s.run.net.nextSocket := Nat.lt_of_lt_of_le older made
  rcases move_peer ok move opened linked with ⟨opened',linked'⟩ | ⟨r,rfl,_,ends⟩
  · rw [address_old old]
    by_cases new : y = s.run.net.nextSocket
    · rw [new, address_new]
      exact safe.2.2 x link opened' linked'
    · have old' : y < s.run.net.nextSocket := Nat.lt_of_le_of_ne made new
      rw [address_old old']
      exact inv.latest x link opened' linked' y older old'
  · have named : link.peer = s.run.view.owner r := by
      rcases ends with ⟨_,new⟩ | ⟨_,owner⟩
      · exact absurd old (new ▸ Nat.lt_irrefl _)
      · exact owner
    have unfreed := owner_unfreed inv.closes.connects enabled.1 safe.2.1 explained.1
    rw [address_old old]
    by_cases new : y = s.run.net.nextSocket
    · rw [new, address_new]
      exact enabled.2 _ old (named ▸ unfreed)
    · have old' : y < s.run.net.nextSocket := Nat.lt_of_le_of_ne made new
      rw [address_old old']
      exact inv.apart _ y older old' (named ▸ unfreed)

theorem peersInv_inductive : (placedSystem.restrict PeerSafe).Inductive PeersInv := by
  constructor
  · rintro s ⟨memory,first⟩
    refine ⟨closeInv_inductive.start s.run ⟨memory,first⟩,?_,?_,?_⟩ <;> rw [first]
    · simp [Paired, bootNet, NetRun.view, Net.view]
    · intro x y _ made
      cases made
    · intro x link opened
      cases opened
  · rintro s a s' inv ⟨⟨enabled,safe⟩,run⟩
    cases run
    obtain ⟨e,move,explained⟩ := step_move enabled.1
    refine ⟨closeInv_inductive.step s.run a.1 _ inv.closes ⟨enabled.1,rfl⟩,?_,
      fun x y => step_apart inv enabled,fun x link opened linked y => step_latest inv enabled safe
        opened linked⟩
    refine move_paired inv.closes.connects.allocated inv.paired ?_ move
    rintro r rfl
    exact safe.1 r explained.1

theorem inv_agree (inv : PeersInv s) : PeersAgree s := by
  have ok := inv.closes.connects.allocated
  constructor
  · intro a b link opened linked opened' same
    have made := (ok.peers a link linked).1
    have made' := ok.opened b opened'
    rcases Nat.lt_trichotomy b link.peer with older | rfl | newer
    · exact absurd same (inv.apart b _ older made (inv.closes.frees b (.inl opened')))
    · exact ⟨_,inv.paired a link opened linked,rfl,rfl,rfl⟩
    · exact absurd same.symm (inv.latest a link opened linked b newer made')
  · intro a a' link link' opened opened' linked linked' same
    have made := (ok.peers a link linked).1
    have made' := (ok.peers a' link' linked').1
    have one : link.peer = link'.peer := by
      rcases Nat.lt_trichotomy link.peer link'.peer with older | one | newer
      · exact absurd same (inv.latest a link opened linked _ older made')
      · exact one
      · exact absurd same.symm (inv.latest a' link' opened' linked' _ newer made)
    have back := inv.paired a link opened linked
    have back' := inv.paired a' link' opened' linked'
    rw [one, back'] at back
    simp only [SocketType.peer.injEq, PeerSocket.mk.injEq] at back
    exact back.1.symm

theorem honour_twice {a : PlacedAction} (inv : PeersInv s) (enabled : PlacedEnabled s a)
    {r : RequestRef} (admits : s.run.Admits a.1 r) (taken : s.run.view.Taken r) :
    ¬ PeersAgree (placedExec s a) := by
  have ok := inv.closes.connects.allocated
  have move := admits_move enabled.1 (listener_ports ok) admits
  obtain ⟨x,link,opened,linked,same⟩ := taken
  have old := ok.opened x opened
  have apart := ok.apart x link linked
  rintro ⟨_,single⟩
  have view : (placedExec s a).run.view = (netExec s.run a.1).view := rfl
  generalize (netExec s.run a.1).view = w at move view
  cases move with
  | honour l r rest fcb queue legal =>
    have listens : l ≠ x := by
      rintro rfl
      cases queue.symm.trans linked
    have kept : (placedExec s a).run.view.type x = .peer link := by
      rw [view]
      simp only [View.openNew, View.withOpen, View.honour, View.takeRequest, View.setFate,
        View.setType, View.addSocket, View.connectPeers]
      grind
    have made : (placedExec s a).run.view.type s.run.view.nextSocket = .peer
        { peer := s.run.view.owner r, readPipe := s.run.view.nextPipe + 1,
          writePipe := s.run.view.nextPipe } := by
      rw [view]
      exact Function.update_self ..
    have opened' (y : SocketRef) (here : s.run.view.isOpen y ∨ y = s.run.view.nextSocket) :
        (placedExec s a).run.view.isOpen y := by
      rw [view]
      exact here
    have equal := single x s.run.view.nextSocket link _ (opened' x (.inl opened))
      (opened' _ (.inr rfl)) kept made (congrArg _ same)
    exact absurd equal (Nat.ne_of_lt old)

theorem socket_view {s : NetRun} {port : Int} (fid : Fid) (fcb : FcbRef)
    (legal : 0 ≤ port ∧ port ≤ maxPort) : (netExec s (.socket port (some (fid,fcb)))).view =
      s.view.openNew (s.view.addSocket port fcb) := by
  rcases sysSocket_view (n := s.net) (o := fun a => 0 < s.refcount a) port (some (fid,fcb)) with
    ⟨_,_,none | illegal⟩ | ⟨_,_,same,_,_,added⟩
  · cases none
  · exact absurd legal illegal
  · cases same
    have new : (sysSocket s.net port (some (fid,fcb))).2.nextSocket ≠ s.net.nextSocket := by
      have next := congrArg View.nextSocket added
      change (sysSocket s.net port (some (fid,fcb))).2.nextSocket = _ at next
      rw [next]
      exact Nat.succ_ne_self _
    have run : ({ s with net := (sysSocket s.net port (some (fid,fcb))).2 } : NetRun).view =
        s.view.addSocket port fcb := added
    simp only [netExec, netStep]
    rw [adopt_new (s := { s with net := (sysSocket s.net port (some (fid,fcb))).2 }) new, run]
    rfl

/- The new socket is open and unbound where an open one believes its peer to be. -/
theorem named_reused {port : Int} {fid : Fid} {fcb : FcbRef} {p : Address} (inv : PeersInv s)
    (legal : 0 ≤ port ∧ port ≤ maxPort) (named : ¬ Unnamed s (.socket port (some (fid,fcb)),p)) :
    ¬ PeersAgree (placedExec s (.socket port (some (fid,fcb)),p)) := by
  simp only [Unnamed, not_forall, not_not] at named
  obtain ⟨x,link,opened,linked,here⟩ := named
  have ok := inv.closes.connects.allocated
  have old := ok.opened x opened
  have made : link.peer < s.run.net.nextSocket := (ok.peers x link linked).1
  have view : (placedExec s (.socket port (some (fid,fcb)),p)).run.view =
      s.run.view.openNew (s.run.view.addSocket port fcb) := socket_view fid fcb legal
  rintro ⟨agree,_⟩
  rw [view] at agree
  have unbound : (s.run.view.addSocket port fcb).type s.run.net.nextSocket = .unbound :=
    Function.update_self ..
  have kept : (s.run.view.addSocket port fcb).type x = .peer link :=
    (Function.update_of_ne (Nat.ne_of_lt old) ..).trans linked
  obtain ⟨back,typed,_⟩ := agree x s.run.net.nextSocket link (.inl opened) kept (.inr rfl)
    ((address_new _).trans (here.symm.trans (address_old made).symm))
  cases unbound.symm.trans typed

/-- Peers are each other's, as long as no socket is connected twice, no step touches what is not
    there, and xmalloc puts no socket where an open one believes its peer to be. -/
theorem peers_symmetric (reach : (placedSystem.restrict PeerSafe).Reach s) :
    PeersAgree s ∧
    (∀ a, PlacedEnabled s a → Intact s.run a.1 → ¬ SinglePeer s.run a.1 →
      ¬ PeersAgree (placedExec s a)) ∧
    ∀ port fid fcb p, 0 ≤ port ∧ port ≤ maxPort → ¬ Unnamed s (.socket port (some (fid,fcb)),p) →
      ¬ PeersAgree (placedExec s (.socket port (some (fid,fcb)),p)) := by
  have inv := inductive_reach peersInv_inductive reach
  refine ⟨inv_agree inv,fun a enabled _ double => ?_,fun port fid fcb p => named_reused inv⟩
  simp only [SinglePeer, not_forall, not_not] at double
  obtain ⟨r,admits,taken⟩ := double
  exact honour_twice inv enabled admits taken

def bootPlaced : PlacedRun := { run := bootNet fun _ => blankPipe, address := fun _ => 0 }

theorem peer_safe_first {a : PlacedAction} (intact : Intact s.run a.1)
    (none : ∀ x link, s.run.view.type x ≠ .peer link) : PeerSafe s a := by
  refine ⟨?_,intact,fun x link _ linked => absurd linked (none x link)⟩
  rintro r _ ⟨x,link,_,linked,_⟩
  exact none x link linked

theorem peers_symmetric_one_connection :
    ∃ s, (placedSystem.restrict PeerSafe).Reach s ∧ PeersAgree s ∧
      s.run.view.type 1 = .peer { peer := 2, readPipe := 0, writePipe := 1 } := by
  have reach : (placedSystem.restrict PeerSafe).Reach _ := meets_reach (s := bootPlaced)
    ⟨fun _ => blankPipe,rfl⟩ oneConnection.zipIdx rfl (by
      refine ⟨peer_safe_first (by decide) ?_,fun _ run => ?_⟩
      · rintro x link linked
        cases linked
      cases run
      refine ⟨peer_safe_first (by decide) ?_,fun _ run => ?_⟩
      · rintro (_ | x) link linked <;> cases linked
      cases run
      refine ⟨peer_safe_first (by decide) ?_,fun _ run => ?_⟩
      · rintro (_ | x) link linked <;> cases linked
      cases run
      refine ⟨peer_safe_first (by decide) ?_,fun _ run => ?_⟩
      · rintro (_ | _ | x) link linked <;> cases linked
      cases run
      refine ⟨peer_safe_first (by decide) ?_,fun _ _ => trivial⟩
      rintro (_ | _ | x) link linked <;> cases linked)
  exact ⟨_,reach,(peers_symmetric reach).1,rfl⟩

/- The socket asks for two connections. -/
def doubleConnection : List NetAction :=
  oneRequest ++ [.connect (1,2) 1 5,.accept (1,3) 0 (some (2,2)),.accept (1,3) 0 (some (3,3))]

theorem socket_connected_twice : ∃ s, placedSystem.Reach s ∧ ¬ PeersAgree s := by
  have reach := play_reach (m := placedSystem) (s := bootPlaced) ⟨fun _ => blankPipe,rfl⟩
    doubleConnection.zipIdx rfl
  refine ⟨_,reach,?_⟩
  rintro ⟨agree,_⟩
  obtain ⟨back,linked,peer,_⟩ := agree 2 1 { peer := 1, readPipe := 1, writePipe := 0 } Nat.one_pos
    rfl Nat.one_pos rfl
  cases linked
  cases peer

end Runs
end KernelSocket
