import TinyOS.Connection

/- A connection carries two streams of bytes, one each way. -/
namespace KernelSocket
open KernelStreams KernelProc KernelPipe Monitor Transition

/- The step closes an end of a pipe of the socket. -/
def NetRun.Closes (s : NetRun) (x : SocketRef) : NetAction → Prop
  | .shutDown a _ => a = x
  | .close a => a = x ∧ s.refcount a = 1
  | .resume _ (.io a r c) _ _ =>
    a = x ∧ s.refcount a = 1 ∧ Pass.Returns (c.nextPass (s.net.pipes r)).1
  | _ => False

/- The pipe q leads from x to y. -/
structure Lane (s : NetRun) (x y : SocketRef) (q : PipeRef) : Prop where
  apart : x ≠ y
  source : ∃ link, s.view.type x = .peer link ∧ link.writePipe = q ∧ link.readPipe ≠ q
  target : ∃ link, s.view.type y = .peer link ∧ link.readPipe = q ∧ link.writePipe ≠ q
  others : ∀ z link, z ≠ x → z ≠ y → s.view.type z = .peer link →
    link.readPipe ≠ q ∧ link.writePipe ≠ q
  calls : ∀ t z p c, (t,NetCall.io z p c) ∈ s.calls → p = q ∨ z = x ∨ z = y →
    ∃ link, s.view.type z = .peer link ∧ p = link.pipe c

section Lanes
variable {s : NetRun} {x y : SocketRef} {q : PipeRef}

theorem pass_copied {c : Call} {p : PipeCB} {e : Pass × PipeCB} (wf : WellFormed p)
    (spec : PassSpec c p e) :
    Copied p e.2 (c.taken (Pass.data e.1)) (c.put (Pass.data e.1)) := by
  obtain ⟨pass,p'⟩ := e
  cases pass with
  | sleeps cv =>
    cases spec
    cases c <;> exact .refl wf
  | returns value data cv => exact spec

/- A pass on the socket z whose pipe is p. -/
theorem lane_pass (lane : Lane s x y q) (wf : WellFormed (s.net.pipes q)) {z : SocketRef}
    {p : PipeRef} {c : Call} {link : PeerSocket} {e : Pass × PipeCB} {events : List PipeEvent}
    (known : s.view.type z = .peer link) (uses : p = link.pipe c)
    (spec : p = q → PassSpec c (s.net.pipes q) e)
    (events_eq : (events.foldl Flow.apply (s.net.flow q 0)).pipe =
      if p = q then e.2 else s.net.pipes q) :
    Copied (s.net.pipes q) (events.foldl Flow.apply (s.net.flow q 0)).pipe
      (transferOf z y c e.1).1 (transferOf z x c e.1).2 := by
  obtain ⟨out,source,out_write,out_read⟩ := lane.source
  obtain ⟨into,target,into_read,into_write⟩ := lane.target
  have apart := lane.apart
  rw [events_eq]
  by_cases here : z = x
  · subst here
    cases source.symm.trans known
    cases c with
    | read n =>
      have other : p ≠ q := by
        rw [uses]
        exact out_read
      simp only [transferOf, if_neg other, if_neg apart]
      exact .refl wf
    | write buf =>
      have same : p = q := uses.trans out_write
      simp only [transferOf, if_pos same, if_neg apart]
      exact pass_copied wf (spec same)
  · by_cases there : z = y
    · subst there
      cases target.symm.trans known
      cases c with
      | read n =>
        have same : p = q := uses.trans into_read
        simp only [transferOf, if_pos same, if_neg here]
        exact pass_copied wf (spec same)
      | write buf =>
        have other : p ≠ q := by
          rw [uses]
          exact into_write
        simp only [transferOf, if_neg other, if_neg here]
        exact .refl wf
    · have other : p ≠ q := by
        obtain ⟨read,write⟩ := lane.others z link here there known
        rw [uses]
        cases c with
        | read n => exact read
        | write buf => exact write
      simp only [transferOf, if_neg other, if_neg here, if_neg there]
      exact .refl wf

theorem lane_close (lane : Lane s x y q) {z : SocketRef} (here : z ≠ x) (there : z ≠ y) :
    (s.net.sockets z).type.closeEvents q = [] :=
  closeEvents_nil fun link known => lane.others z link here there known

theorem lane_copied (lane : Lane s x y q) (wf : WellFormed (s.net.pipes q)) {act : NetAction}
    (enabled : NetEnabled s act) (open_x : ¬ s.Closes x act) (open_y : ¬ s.Closes y act) :
    Copied (s.net.pipes q) ((s.pipeEvents q act).foldl Flow.apply (s.net.flow q 0)).pipe
      (s.moved y act).1 (s.moved x act).2 := by
  cases act with
  | io t z c =>
    simp only [NetRun.pipeEvents, NetRun.moved]
    cases known : (s.net.sockets z).type with
    | listener queue => exact .refl wf
    | unbound => exact .refl wf
    | peer link =>
      refine lane_pass (e := c.firstPass (s.net.pipes (link.pipe c))) lane wf known rfl ?_ ?_
      · intro same
        rw [same]
        exact first_pass_spec c wf
      · by_cases same : link.pipe c = q
        · simp only [same, if_true]
          rfl
        · simp only [same, if_false]
          rfl
  | shutDown z how =>
    have here : z ≠ x := fun same => open_x same
    have there : z ≠ y := fun same => open_y same
    have none : s.pipeEvents q (.shutDown z how) = [] := by
      simp only [NetRun.pipeEvents]
      split
      · rename_i link known
        obtain ⟨read,write⟩ := lane.others z link here there known
        cases how <;> simp [ShutdownMode.events, read, write]
      · rfl
    rw [none]
    exact .refl wf
  | close z =>
    have none : s.pipeEvents q (.close z) = [] := by
      simp only [NetRun.pipeEvents]
      split
      · rename_i last
        exact lane_close lane (fun same => open_x ⟨same,last⟩) (fun same => open_y ⟨same,last⟩)
      · rfl
    rw [none]
    exact .refl wf
  | resume t call signalled made =>
    cases call with
    | io z p c =>
      have closes : (if s.refcount z = 1 ∧ Pass.Returns (c.nextPass (s.net.pipes p)).1 then
          (s.net.sockets z).type.closeEvents q else []) = [] := by
        split
        · rename_i last
          exact lane_close lane (fun same => open_x ⟨same,last⟩) (fun same => open_y ⟨same,last⟩)
        · rfl
      simp only [NetRun.pipeEvents, NetRun.moved, closes, List.append_nil]
      by_cases used : p = q ∨ z = x ∨ z = y
      · obtain ⟨link,known,uses⟩ := lane.calls t z p c enabled.1 used
        refine lane_pass (e := c.nextPass (s.net.pipes p)) lane wf known uses ?_ ?_
        · intro same
          rw [same]
          exact next_pass_spec c wf
        · by_cases same : p = q
          · simp only [same, if_true]
            rfl
          · simp only [same, if_false]
            rfl
      · simp only [not_or] at used
        simp only [transferOf, if_neg used.1, if_neg used.2.1, if_neg used.2.2]
        exact .refl wf
    | _ => exact .refl wf
  | _ => exact .refl wf

/- What has been read at the end of a pipe, and what is still in it, has been written at its
   start. -/
structure Carries (s : NetRun) (x y : SocketRef) (q : PipeRef) : Prop where
  wellFormed : WellFormed (s.net.pipes q)
  bytes : s.net.received y ++ stored (s.net.pipes q) = s.net.sent x

theorem step_carries (lane : Lane s x y q) (carries : Carries s x y q) (old : q < s.net.nextPipe)
    {act : NetAction} (enabled : NetEnabled s act) (open_x : ¬ s.Closes x act)
    (open_y : ¬ s.Closes y act) : Carries (netExec s act) x y q := by
  have copied := lane_copied lane carries.wellFormed enabled open_x open_y
  have pipe : (netExec s act).net.pipes q =
      ((s.pipeEvents q act).foldl Flow.apply (s.net.flow q 0)).pipe :=
    congrArg Flow.pipe (step_flow (x := 0) enabled old)
  have received := (step_moved enabled y).1
  have sent := (step_moved enabled x).2
  refine ⟨pipe ▸ copied.wellFormed,?_⟩
  rw [received, sent, pipe, List.append_assoc, copied.fifo, ← List.append_assoc, carries.bytes]

end Lanes

/- No end of the two sockets' pipes is closed, and no other request of the first is honoured. -/
def Undisturbed (a b : SocketRef) (s : NetRun) (act : NetAction) : Prop :=
  ¬ s.Closes a act ∧ ¬ s.Closes b act ∧ SingleRequest a s act

/- The runs of the system from an Accept that connects a, unbound until then, to b. -/
def duplexSystem (a b : SocketRef) (r : PipeRef) : Machine NetRun NetAction :=
  { netSystem with
    start := fun s0 => ∃ (s : NetRun) (act : NetAction), netSystem.Reach s ∧ s.Connects act a b r ∧
      s.view.type a = SocketType.unbound ∧ s0 = netExec s act }.restrict (Undisturbed a b)

structure Duplex (s : NetRun) (a b : SocketRef) (r : PipeRef) : Prop where
  wired : Wired s a b r
  own : ∀ t z p c, (t,NetCall.io z p c) ∈ s.calls → z = a ∨ z = b → p = r ∨ p = r + 1
  forth : Carries s a b (r + 1)
  back : Carries s b a r

section Connections
variable {s : NetRun} {a b : SocketRef} {r : PipeRef}

theorem duplex_lane (duplex : Duplex s a b r) :
    Lane s a b (r + 1) ∧ Lane s b a r := by
  obtain ⟨wired,own,_,_⟩ := duplex
  obtain ⟨untouched,⟨left,right,others,_⟩,calls⟩ := wired
  have apart : a ≠ b := fun same => untouched.allocated.apart a _ left same.symm
  have next : r + 1 ≠ r := Nat.succ_ne_self r
  have uses (t : Thread) (z : SocketRef) (p : PipeRef) (c : Call)
      (member : (t,NetCall.io z p c) ∈ s.calls) (used : (p = r ∨ p = r + 1) ∨ z = a ∨ z = b) :
      ∃ link, s.view.type z = .peer link ∧ p = link.pipe c :=
    calls t z p c member (used.elim id (own t z p c member))
  constructor
  · exact
      { apart := apart
        source := ⟨_,left,rfl,next.symm⟩
        target := ⟨_,right,rfl,next.symm⟩
        others := fun z link first second known =>
          ⟨(others z link first second known).1.2,(others z link first second known).2.2⟩
        calls := fun t z p c member used => uses t z p c member (used.imp Or.inr id) }
  · exact
      { apart := apart.symm
        source := ⟨_,right,rfl,next⟩
        target := ⟨_,left,rfl,next⟩
        others := fun z link first second known =>
          ⟨(others z link second first known).1.1,(others z link second first known).2.1⟩
        calls := fun t z p c member used => uses t z p c member (used.imp Or.inl Or.symm) }

theorem acquired_carries {x y : SocketRef} {q : PipeRef} {reader writer : FcbRef}
    {m : Int → Byte} (made : s.net.pipes q = acquirePipeCB (some reader) (some writer) m)
    (received : s.net.received y = []) (sent : s.net.sent x = []) : Carries s x y q := by
  refine ⟨made ▸ acquired_wellFormed _ _ _,?_⟩
  rw [made, received, sent]
  simp [stored, acquirePipeCB]

theorem connects_duplex (ok : Untouched s) {act : NetAction} (connects : s.Connects act a b r)
    (unbound : s.view.type a = .unbound) : Duplex (netExec s act) a b r := by
  obtain ⟨⟨reader,writer,m,first⟩,⟨reader',writer',m',second⟩⟩ := connects_pipes ok connects
  have wired := connects_wired ok connects
  obtain ⟨enabled,⟨q,admits,owner⟩,made,pipe⟩ := connects
  have fresh : s.view.type b = .unbound := made ▸ ok.allocated.fresh _ (Nat.le_refl _)
  have quiet (x : SocketRef) (before : s.view.type x = .unbound) :
      (netExec s act).net.received x = [] ∧ (netExec s act).net.sent x = [] := by
    obtain ⟨received,sent⟩ := step_moved enabled x
    obtain ⟨received',sent'⟩ := ok.silent x before
    have none : s.moved x act = ([],[]) := by
      rcases admits_accepts admits with ⟨t,l,made,rfl⟩ | ⟨t,l,signalled,made,rfl⟩ <;> rfl
    rw [none] at received sent
    exact ⟨by rw [received, received']; rfl,by rw [sent, sent']; rfl⟩
  refine ⟨wired,?_,acquired_carries second (quiet b fresh).1 (quiet a unbound).2,
    acquired_carries first (quiet a unbound).1 (quiet b fresh).2⟩
  intro t z p c asleep here
  have none : s.view.type z = .unbound := by
    rcases here with rfl | rfl
    · exact unbound
    · exact fresh
  rcases step_calls asleep with old | new
  · exact absurd none (ok.calls t z p c old).2
  · rcases transfer_sleeps new with ⟨link,known,_⟩ | ⟨t',signalled,made',rfl⟩
    · cases none.symm.trans known
    · cases made' <;> cases admits

theorem step_duplex {act : NetAction} (duplex : Duplex s a b r) (enabled : NetEnabled s act)
    (quiet : Undisturbed a b s act) : Duplex (netExec s act) a b r := by
  obtain ⟨forth,back⟩ := duplex_lane duplex
  obtain ⟨open_a,open_b,single⟩ := quiet
  obtain ⟨wired,own,carried,carried'⟩ := duplex
  have inside := (wired.untouched.allocated.peers a _ wired.joined.left).2
  refine ⟨step_wired wired enabled single,?_,step_carries forth carried inside.2 enabled open_a open_b,
    step_carries back carried' inside.1 enabled open_b open_a⟩
  intro t z p c asleep here
  rcases step_calls asleep with old | new
  · exact own t z p c old here
  · rcases transfer_sleeps new with ⟨link,known,rfl,_⟩ | ⟨t',signalled,made,rfl⟩
    · rcases here with rfl | rfl
      · cases wired.joined.left.symm.trans known
        cases c with
        | read n => exact Or.inl rfl
        | write buf => exact Or.inr rfl
      · cases wired.joined.right.symm.trans known
        cases c with
        | read n => exact Or.inr rfl
        | write buf => exact Or.inl rfl
    · exact own t' z p c enabled.1 here

theorem duplex_inductive (a b : SocketRef) (r : PipeRef) :
    (duplexSystem a b r).Inductive (fun s => Duplex s a b r) := by
  constructor
  · rintro s0 ⟨s,act,reach,connects,unbound,rfl⟩
    exact connects_duplex (inductive_reach untouched_inductive reach) connects unbound
  · rintro s act s' duplex ⟨⟨enabled,quiet⟩,run⟩
    cases run
    exact step_duplex duplex enabled quiet

/- A step of a Read or Write on the socket. -/
def NetAction.Transfers (x : SocketRef) (c : Call) : NetAction → Prop
  | .io _ a c' => a = x ∧ c' = c
  | .resume _ (.io a _ c') _ _ => a = x ∧ c' = c
  | _ => False

/- A Read on the first socket or a Write on the second, and the other way round. -/
def NetAction.Backward (a b : SocketRef) (act : NetAction) : Prop :=
  (∃ n, act.Transfers a (.read n)) ∨ ∃ buf, act.Transfers b (.write buf)

def NetAction.Forward (a b : SocketRef) (act : NetAction) : Prop :=
  (∃ buf, act.Transfers a (.write buf)) ∨ ∃ n, act.Transfers b (.read n)

theorem transfers_unique {act : NetAction} {x y : SocketRef} {c c' : Call}
    (transfers : act.Transfers x c) (transfers' : act.Transfers y c') : x = y ∧ c = c' := by
  cases act with
  | io t a d => exact ⟨transfers.1.symm.trans transfers'.1,transfers.2.symm.trans transfers'.2⟩
  | resume t call signalled made =>
    cases call with
    | io a p d => exact ⟨transfers.1.symm.trans transfers'.1,transfers.2.symm.trans transfers'.2⟩
    | _ => cases transfers
  | _ => cases transfers

/- A step that touches a pipe transfers over it, or has nothing to do with the connection. -/
theorem touched_pipe (duplex : Duplex s a b r) {act : NetAction} {q : PipeRef}
    (enabled : NetEnabled s act) (quiet : Undisturbed a b s act) (touched : s.pipeEvents q act ≠ []) :
    (∃ x c link, (x = a ∨ x = b) ∧ act.Transfers x c ∧ s.view.type x = .peer link ∧
      q = link.pipe c) ∨
    ((∀ x c, x = a ∨ x = b → ¬ act.Transfers x c) ∧ q ≠ r ∧ q ≠ r + 1) := by
  obtain ⟨open_a,open_b,_⟩ := quiet
  obtain ⟨wired,own,_,_⟩ := duplex
  have elsewhere {z : SocketRef} {link : PeerSocket} {c : Call} (known : s.view.type z = .peer link)
      (here : z ≠ a) (there : z ≠ b) (uses : q = link.pipe c) : q ≠ r ∧ q ≠ r + 1 := by
    rw [uses]
    refine ⟨fun same => ?_,fun same => ?_⟩
    · exact (joined_ends wired.joined known (Or.inl same)).elim here there
    · exact (joined_ends wired.joined known (Or.inr same)).elim here there
  have closed {z : SocketRef} (here : z ≠ a) (there : z ≠ b)
      (closes : (s.net.sockets z).type.closeEvents q ≠ []) : q ≠ r ∧ q ≠ r + 1 := by
    cases known : (s.net.sockets z).type with
    | peer link =>
      rw [known] at closes
      by_cases write : link.writePipe = q
      · exact elsewhere known here there (c := .write []) write.symm
      · by_cases read : link.readPipe = q
        · exact elsewhere known here there (c := .read 0) read.symm
        · simp [SocketType.closeEvents, write, read] at closes
    | _ =>
      rw [known] at closes
      exact absurd rfl closes
  cases act with
  | io t z c =>
    simp only [NetRun.pipeEvents] at touched
    split at touched
    · rename_i link known
      split at touched
      · rename_i uses
        by_cases here : z = a ∨ z = b
        · exact Or.inl ⟨z,c,link,here,⟨rfl,rfl⟩,known,uses.symm⟩
        · obtain ⟨first,second⟩ := not_or.mp here
          refine Or.inr ⟨?_,elsewhere known first second uses.symm⟩
          rintro x c' there ⟨rfl,_⟩
          exact here there
      · exact absurd rfl touched
    · exact absurd rfl touched
  | shutDown z how =>
    refine Or.inr ⟨fun _ _ _ => id,?_⟩
    have here : z ≠ a := fun same => open_a same
    have there : z ≠ b := fun same => open_b same
    simp only [NetRun.pipeEvents] at touched
    split at touched
    · rename_i link known
      by_cases write : link.writePipe = q
      · exact elsewhere known here there (c := .write []) write.symm
      · by_cases read : link.readPipe = q
        · exact elsewhere known here there (c := .read 0) read.symm
        · cases how <;> simp [ShutdownMode.events, write, read] at touched
    · exact absurd rfl touched
  | close z =>
    refine Or.inr ⟨fun _ _ _ => id,?_⟩
    simp only [NetRun.pipeEvents] at touched
    split at touched
    · rename_i last
      exact closed (fun same => open_a ⟨same,last⟩) (fun same => open_b ⟨same,last⟩) touched
    · exact absurd rfl touched
  | resume t call signalled made =>
    cases call with
    | io z p c =>
      by_cases here : z = a ∨ z = b
      · obtain ⟨link,known,uses⟩ := wired.calls t z p c enabled.1 (own t z p c enabled.1 here)
        have stays : ¬ (s.refcount z = 1 ∧ Pass.Returns (c.nextPass (s.net.pipes p)).1) := by
          intro last
          rcases here with same | same
          · exact open_a ⟨same,last⟩
          · exact open_b ⟨same,last⟩
        simp only [NetRun.pipeEvents, if_neg stays, List.append_nil] at touched
        split at touched
        · rename_i same
          exact Or.inl ⟨z,c,link,here,⟨rfl,rfl⟩,known,same ▸ uses⟩
        · exact absurd rfl touched
      · obtain ⟨first,second⟩ := not_or.mp here
        refine Or.inr ⟨?_,?_⟩
        · rintro x c' there ⟨rfl,_⟩
          exact here there
        · by_cases same : p = q
          · subst same
            refine ⟨fun same => ?_,fun same => ?_⟩
            · obtain ⟨link,known,uses⟩ := wired.calls t z p c enabled.1 (Or.inl same)
              exact (elsewhere known first second uses).1 same
            · obtain ⟨link,known,uses⟩ := wired.calls t z p c enabled.1 (Or.inr same)
              exact (elsewhere known first second uses).2 same
          · simp only [NetRun.pipeEvents, if_neg same, List.nil_append] at touched
            split at touched
            · exact closed first second touched
            · exact absurd rfl touched
    | _ => exact absurd rfl touched
  | _ => exact absurd rfl touched

theorem changed_pipe (duplex : Duplex s a b r) {act : NetAction} {q : PipeRef}
    (enabled : NetEnabled s act) (quiet : Undisturbed a b s act) (old : q < s.net.nextPipe)
    (changed : (netExec s act).net.pipes q ≠ s.net.pipes q) :
    (act.Backward a b ↔ q = r) ∧ (act.Forward a b ↔ q = r + 1) := by
  have touched : s.pipeEvents q act ≠ [] := by
    intro none
    have same := congrArg Flow.pipe (step_flow (x := 0) enabled old)
    rw [none] at same
    exact changed same
  have apart : a ≠ b := (duplex_lane duplex).1.apart
  have left := duplex.wired.joined.left
  have right := duplex.wired.joined.right
  have next : r ≠ r + 1 := (Nat.succ_ne_self r).symm
  rcases touched_pipe duplex enabled quiet touched with
    ⟨x,c,link,here,transfers,known,uses⟩ | ⟨idle,first,second⟩
  · have only {y : SocketRef} {c' : Call} (transfers' : act.Transfers y c') : y = x ∧ c' = c :=
      transfers_unique transfers' transfers
    rcases here with rfl | rfl
    · cases left.symm.trans known
      cases c with
      | read n =>
        have back : act.Backward x b := Or.inl ⟨n,transfers⟩
        have no : ¬ act.Forward x b := by
          rintro (⟨buf,other⟩ | ⟨m,other⟩)
          · cases (only other).2
          · exact apart (only other).1.symm
        exact ⟨iff_of_true back uses,iff_of_false no (uses ▸ next)⟩
      | write buf =>
        have forth : act.Forward x b := Or.inl ⟨buf,transfers⟩
        have no : ¬ act.Backward x b := by
          rintro (⟨n,other⟩ | ⟨buf',other⟩)
          · cases (only other).2
          · exact apart (only other).1.symm
        exact ⟨iff_of_false no (uses ▸ next.symm),iff_of_true forth uses⟩
    · cases right.symm.trans known
      cases c with
      | read n =>
        have forth : act.Forward a x := Or.inr ⟨n,transfers⟩
        have no : ¬ act.Backward a x := by
          rintro (⟨m,other⟩ | ⟨buf,other⟩)
          · exact apart (only other).1
          · cases (only other).2
        exact ⟨iff_of_false no (uses ▸ next.symm),iff_of_true forth uses⟩
      | write buf =>
        have back : act.Backward a x := Or.inr ⟨buf,transfers⟩
        have no : ¬ act.Forward a x := by
          rintro (⟨buf',other⟩ | ⟨n,other⟩)
          · exact apart (only other).1
          · cases (only other).2
        exact ⟨iff_of_true back uses,iff_of_false no (uses ▸ next)⟩
  · have no : ¬ act.Backward a b := by
      rintro (⟨n,other⟩ | ⟨buf,other⟩)
      · exact idle a _ (Or.inl rfl) other
      · exact idle b _ (Or.inr rfl) other
    have no' : ¬ act.Forward a b := by
      rintro (⟨buf,other⟩ | ⟨n,other⟩)
      · exact idle a _ (Or.inl rfl) other
      · exact idle b _ (Or.inr rfl) other
    exact ⟨iff_of_false no first,iff_of_false no' second⟩

end Connections
end KernelSocket
