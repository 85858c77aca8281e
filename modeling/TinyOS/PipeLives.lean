import TinyOS.Duplex

/- How long the pipes of a connection live. -/
namespace KernelSocket
open KernelStreams KernelProc KernelPipe Monitor Transition

/- Both ends have been closed. -/
def Ended (p : PipeCB) : Prop := p.reader = none ∧ p.writer = none

instance (p : PipeCB) : Decidable (Ended p) := inferInstanceAs (Decidable (_ ∧ _))

/- The step makes no call on one of the two pipes once both of its ends have been closed. -/
def SparesEnded (r : PipeRef) (s : NetRun) (act : NetAction) : Prop :=
  ∀ q, q = r ∨ q = r + 1 → s.pipeEvents q act ≠ [] → ¬ Ended (s.net.pipes q)

/- The runs of the system from an Accept that connects a, open at that time, to b. -/
def pairSystem (a b : SocketRef) (r : PipeRef) : Machine NetRun NetAction :=
  { netSystem with
    start := fun s0 => ∃ (s : NetRun) (act : NetAction), netSystem.Reach s ∧ s.Connects act a b r ∧
      0 < s.refcount a ∧ s0 = netExec s act }.restrict (SingleRequest a)

/- A pipe is freed when its second end is closed, and not used afterwards. -/
structure Flow.Lives (v : Flow) : Prop where
  wellFormed : WellFormed v.pipe
  frees : v.frees = if Ended v.pipe then 1 else 0
  faults : v.faults = 0

def PipeEvent.Transfers : PipeEvent → Prop
  | .first _ | .next _ => True
  | .readerClose | .writerClose => False

section Events
variable {v : Flow}

theorem close_wellFormed {p : PipeCB} (wf : WellFormed p) (reader writer : Option FcbRef) :
    WellFormed { p with reader := reader, writer := writer } :=
  ⟨wf.used_nonneg,wf.used_le,wf.read_nonneg,wf.read_lt,wf.write_eq⟩

theorem transfer_copied (wf : WellFormed v.pipe) {e : PipeEvent} (transfers : e.Transfers) :
    ∃ taken put, Copied v.pipe (v.apply e).pipe taken put := by
  cases e with
  | first c => exact ⟨_,_,pass_copied wf (first_pass_spec c wf)⟩
  | next c => exact ⟨_,_,pass_copied wf (next_pass_spec c wf)⟩
  | readerClose => cases transfers
  | writerClose => cases transfers

/- An end that has been closed stays so. -/
structure Flow.Shuts (v w : Flow) : Prop where
  wellFormed : WellFormed w.pipe
  reader : v.pipe.reader = none → w.pipe.reader = none
  writer : v.pipe.writer = none → w.pipe.writer = none

theorem apply_shuts (wf : WellFormed v.pipe) (e : PipeEvent) : v.Shuts (v.apply e) := by
  cases e with
  | readerClose => exact ⟨close_wellFormed wf _ _,fun _ => rfl,id⟩
  | writerClose => exact ⟨close_wellFormed wf _ _,id,fun _ => rfl⟩
  | first c =>
    obtain ⟨_,_,copied⟩ := transfer_copied wf (e := .first c) trivial
    exact ⟨copied.wellFormed,copied.reader.trans,copied.writer.trans⟩
  | next c =>
    obtain ⟨_,_,copied⟩ := transfer_copied wf (e := .next c) trivial
    exact ⟨copied.wellFormed,copied.reader.trans,copied.writer.trans⟩

theorem events_shut (wf : WellFormed v.pipe) (es : List PipeEvent) :
    v.Shuts (es.foldl Flow.apply v) := by
  induction es generalizing v with
  | nil => exact ⟨wf,id,id⟩
  | cons e es ih =>
    have one := apply_shuts wf e
    have rest := ih one.wellFormed
    exact ⟨rest.wellFormed,fun shut => rest.reader (one.reader shut),
      fun shut => rest.writer (one.writer shut)⟩

theorem events_close_reader (wf : WellFormed v.pipe) {es : List PipeEvent}
    (closes : .readerClose ∈ es) : (es.foldl Flow.apply v).pipe.reader = none := by
  induction es generalizing v with
  | nil => cases closes
  | cons e es ih =>
    have one := apply_shuts wf e
    rcases List.mem_cons.mp closes with rfl | later
    · exact (events_shut one.wellFormed es).reader rfl
    · exact ih one.wellFormed later

theorem events_close_writer (wf : WellFormed v.pipe) {es : List PipeEvent}
    (closes : .writerClose ∈ es) : (es.foldl Flow.apply v).pipe.writer = none := by
  induction es generalizing v with
  | nil => cases closes
  | cons e es ih =>
    have one := apply_shuts wf e
    rcases List.mem_cons.mp closes with rfl | later
    · exact (events_shut one.wellFormed es).writer rfl
    · exact ih one.wellFormed later

theorem unended_frees (lives : v.Lives) (open' : ¬ Ended v.pipe) : v.frees = 0 := by
  rw [lives.frees, if_neg open']

theorem transfer_lives (lives : v.Lives) (open' : ¬ Ended v.pipe) {e : PipeEvent}
    (transfers : e.Transfers) : (v.apply e).Lives ∧ ¬ Ended (v.apply e).pipe := by
  obtain ⟨_,_,copied⟩ := transfer_copied lives.wellFormed transfers
  have still : ¬ Ended (v.apply e).pipe := by
    rw [Ended, copied.reader, copied.writer]
    exact open'
  have unfreed := unended_frees lives open'
  have kept : (v.apply e).frees = v.frees ∧ (v.apply e).faults = v.faults := by
    cases e with
    | first c => exact ⟨rfl,by simp [Flow.apply, Flow.use, unfreed]⟩
    | next c => exact ⟨rfl,by simp [Flow.apply, Flow.use, unfreed]⟩
    | readerClose => cases transfers
    | writerClose => cases transfers
  refine ⟨⟨copied.wellFormed,?_,kept.2.trans lives.faults⟩,still⟩
  rw [kept.1, unfreed, if_neg still]

theorem close_lives (lives : v.Lives) (open' : ¬ Ended v.pipe) (e : PipeEvent)
    (closes : ¬ e.Transfers) : (v.apply e).Lives := by
  have unfreed := unended_frees lives open'
  have shut := apply_shuts lives.wellFormed e
  cases e with
  | readerClose =>
    refine ⟨shut.wellFormed,?_,?_⟩
    · simp only [Flow.apply, Flow.closed, Flow.use, unfreed, pipeReaderClose, Ended, true_and]
      by_cases writer : v.pipe.writer = none <;> simp [writer]
    · simp [Flow.apply, Flow.closed, Flow.use, unfreed, lives.faults]
  | writerClose =>
    refine ⟨shut.wellFormed,?_,?_⟩
    · simp only [Flow.apply, Flow.closed, Flow.use, unfreed, pipeWriterClose, Ended, and_true]
      by_cases reader : v.pipe.reader = none <;> simp [reader]
    · simp [Flow.apply, Flow.closed, Flow.use, unfreed, lives.faults]
  | first c => exact absurd trivial closes
  | next c => exact absurd trivial closes

/- Transfers, and then one closing at most. -/
theorem events_live (lives : v.Lives) (open' : ¬ Ended v.pipe) {front last : List PipeEvent}
    (transfers : ∀ e ∈ front, e.Transfers) (single : last.length ≤ 1) :
    ((front ++ last).foldl Flow.apply v).Lives := by
  induction front generalizing v with
  | nil =>
    match last, single with
    | [], _ => exact lives
    | [e], _ =>
      by_cases kind : e.Transfers
      · exact (transfer_lives lives open' kind).1
      · exact close_lives lives open' e kind
  | cons e front ih =>
    obtain ⟨lives',open''⟩ := transfer_lives lives open' (transfers e List.mem_cons_self)
    exact ih lives' open'' fun e' member => transfers e' (List.mem_cons_of_mem _ member)

theorem events_faults (es : List PipeEvent) : v.faults ≤ (es.foldl Flow.apply v).faults := by
  induction es generalizing v with
  | nil => exact Nat.le_refl _
  | cons e es ih =>
    have one : v.faults ≤ (v.apply e).faults := by cases e <;> exact Nat.le_add_right _ _
    exact Nat.le_trans one ih

/- The first call on a pipe that has been freed is a fault. -/
theorem freed_faults (freed : 0 < v.frees) {es : List PipeEvent} (used : es ≠ []) :
    0 < (es.foldl Flow.apply v).faults := by
  cases es with
  | nil => exact absurd rfl used
  | cons e es =>
    have one : 0 < (v.apply e).faults := by
      cases e <;> simp [Flow.apply, Flow.use, Flow.closed, freed]
    exact Nat.lt_of_lt_of_le one (events_faults es)

end Events
section Connections
variable {s : NetRun} {a b : SocketRef} {r : PipeRef}

/- No socket has a pipe of the connection at both ends. -/
theorem joined_single (joined : s.view.Joined a b r) {x : SocketRef} {link : PeerSocket}
    {q : PipeRef} (here : q = r ∨ q = r + 1) (known : s.view.type x = .peer link) :
    ¬ (link.readPipe = q ∧ link.writePipe = q) := by
  rintro ⟨read,write⟩
  have next : r ≠ r + 1 := (Nat.succ_ne_self r).symm
  have ends : x = a ∨ x = b :=
    joined_ends joined known (c := .read 0) (by rw [← read] at here; exact here)
  rcases ends with rfl | rfl
  · cases joined.left.symm.trans known
    exact next (read.trans write.symm)
  · cases joined.right.symm.trans known
    exact next (write.trans read.symm)

theorem closeEvents_single {q : PipeRef} {ty : SocketType}
    (single : ∀ link, ty = .peer link → ¬ (link.readPipe = q ∧ link.writePipe = q)) :
    (ty.closeEvents q).length ≤ 1 := by
  cases ty with
  | peer link =>
    have apart := single link rfl
    simp only [SocketType.closeEvents]
    split <;> split <;> simp_all
  | _ => exact Nat.zero_le 1

/- A step transfers over a pipe of the connection, and then closes one end of it at most. -/
theorem joined_events (joined : s.view.Joined a b r) {q : PipeRef} (here : q = r ∨ q = r + 1)
    (act : NetAction) :
    ∃ front last, s.pipeEvents q act = front ++ last ∧ (∀ e ∈ front, e.Transfers) ∧
      last.length ≤ 1 := by
  have closes (x : SocketRef) : ((s.net.sockets x).type.closeEvents q).length ≤ 1 :=
    closeEvents_single fun link known => joined_single joined here known
  cases act with
  | io t x c =>
    refine ⟨s.pipeEvents q (.io t x c),[],(List.append_nil _).symm,?_,Nat.zero_le 1⟩
    intro e member
    simp only [NetRun.pipeEvents] at member
    split at member
    · split at member
      · cases List.mem_singleton.mp member
        trivial
      · cases member
    · cases member
  | shutDown x how =>
    refine ⟨[],s.pipeEvents q (.shutDown x how),rfl,by simp,?_⟩
    simp only [NetRun.pipeEvents]
    split
    · rename_i link known
      have apart := joined_single joined here known
      cases how with
      | read => simp only [ShutdownMode.events]; split <;> simp
      | write => simp only [ShutdownMode.events]; split <;> simp
      | both => simp only [ShutdownMode.events]; split <;> split <;> simp_all
    · exact Nat.zero_le 1
  | close x =>
    refine ⟨[],s.pipeEvents q (.close x),rfl,by simp,?_⟩
    simp only [NetRun.pipeEvents]
    split
    · exact closes x
    · exact Nat.zero_le 1
  | resume t call signalled made =>
    cases call with
    | io x p c =>
      refine ⟨if p = q then [.next c] else [],_,rfl,?_,?_⟩
      · intro e member
        split at member
        · cases List.mem_singleton.mp member
          trivial
        · cases member
      · split
        · exact closes x
        · exact Nat.zero_le 1
    | _ => exact ⟨[],[],rfl,by simp,Nat.zero_le 1⟩
  | _ => exact ⟨[],[],rfl,by simp,Nat.zero_le 1⟩

/- The step that drops the last reference to a socket closes its ends. -/
theorem drop_events {act : NetAction} {x : SocketRef} (enabled : NetEnabled s act)
    (opened : 0 < s.refcount x) (gone : (netExec s act).refcount x = 0) (q : PipeRef) :
    ∀ e ∈ (s.net.sockets x).type.closeEvents q, e ∈ s.pipeEvents q act := by
  have adopted (s' : NetRun) (before : Net) (named : 0 < s'.refcount x) :
      0 < (s'.adopt before).refcount x := by
    unfold NetRun.adopt
    split
    · exact named
    · by_cases same : x = before.nextSocket
      · subst same
        simp [NetRun.refcount]
      · simpa [NetRun.refcount, NetRun.holds, same] using named
  have released (s' : NetRun) (y : SocketRef) : (s'.release y).refcount x = s'.refcount x := by
    unfold NetRun.release
    split <;> rfl
  have recorded (s' : NetRun) (t : Thread) (p : Progress) (net : Net) :
      s'.refcount x ≤ (s'.record t p net).refcount x := by
    rw [record_refcount]
    exact Nat.le_add_right _ _
  cases act with
  | socket port made => exact absurd gone (Nat.ne_of_gt (adopted _ _ opened))
  | connect t y port =>
    exact absurd gone (Nat.ne_of_gt (Nat.lt_of_lt_of_le opened (recorded s t _ _)))
  | accept t l made =>
    exact absurd gone (Nat.ne_of_gt (adopted _ _ (Nat.lt_of_lt_of_le opened (recorded s t _ _))))
  | io t y c =>
    simp only [netExec, netStep, released] at gone
    exact absurd gone (Nat.ne_of_gt (Nat.lt_of_lt_of_le opened (recorded s t _ _)))
  | share y =>
    have more : s.refcount x ≤ (netExec s (.share y)).refcount x := by
      simp only [netExec, netStep, NetRun.refcount, NetRun.holds]
      by_cases same : x = y
      · subst same
        simp
      · simp [same]
    omega
  | close y =>
    have named : 0 < s.fids y := enabled
    have after : (netExec s (.close y)).refcount x =
        Function.update s.fids y (s.fids y - 1) x + s.holds x := released _ _
    rw [after] at gone
    by_cases same : x = y
    · subst same
      have last : s.refcount x = 1 := by
        rw [Function.update_self] at gone
        rw [NetRun.refcount]
        omega
      simp [NetRun.pipeEvents, last]
    · rw [Function.update_of_ne same] at gone
      exact absurd gone (Nat.ne_of_gt opened)
  | resume t call signalled made =>
    have left := leave_refcount enabled.1 x
    have stays (other : ¬ call.IsTransfer x) (p : Progress) (net : Net) :
        0 < ((s.leave t call).record t p net).refcount x := by
      rw [if_neg other, Nat.add_zero] at left
      exact Nat.lt_of_lt_of_le (left ▸ opened) (recorded _ t p net)
    cases call with
    | connect y l p => exact absurd gone (Nat.ne_of_gt (adopted _ _ (stays id _ _)))
    | accept l => exact absurd gone (Nat.ne_of_gt (adopted _ _ (stays id _ _)))
    | io y p c =>
      have after : (netExec s (.resume t (.io y p c) signalled made)).refcount x =
          (((s.leave t (.io y p c)).record t (ioPass (s.leave t (.io y p c)).net t y p c).1
            (ioPass (s.leave t (.io y p c)).net t y p c).2).adopt s.net).refcount x := released _ _
      rw [after] at gone
      have none := Nat.eq_zero_of_not_pos fun named => Nat.ne_of_gt (adopted _ _ named) gone
      by_cases same : y = x
      · subst same
        have last := (resumed_refcount enabled.1).mp none
        simp only [NetRun.pipeEvents, if_pos last]
        exact fun e member => List.mem_append_right _ member
      · exact absurd none (Nat.ne_of_gt (stays same _ _))
  | _ => exact absurd gone (Nat.ne_of_gt opened)

structure PairInv (s : NetRun) (a b : SocketRef) (r : PipeRef) : Prop where
  wired : Wired s a b r
  lives : ∀ q, q = r ∨ q = r + 1 → (s.net.flow q 0).Lives
  left : s.refcount a = 0 → (s.net.pipes r).reader = none ∧ (s.net.pipes (r + 1)).writer = none
  right : s.refcount b = 0 → (s.net.pipes r).writer = none ∧ (s.net.pipes (r + 1)).reader = none

theorem acquired_lives {q : PipeRef} {reader writer : FcbRef} {m : Int → Byte}
    (made : s.net.pipes q = acquirePipeCB (some reader) (some writer) m)
    (frees : s.net.pipeFrees q = 0) (faults : s.net.faults.count (.freedPipe q) = 0) :
    (s.net.flow q 0).Lives := by
  refine ⟨?_,?_,faults⟩
  · simp only [Net.flow, made]
    exact acquired_wellFormed _ _ _
  · simp [Net.flow, made, frees, Ended, acquirePipeCB]

theorem connects_pair (ok : Untouched s) {act : NetAction} (connects : s.Connects act a b r)
    (opened : 0 < s.refcount a) : PairInv (netExec s act) a b r := by
  obtain ⟨⟨reader,writer,m,first⟩,⟨reader',writer',m',second⟩⟩ := connects_pipes ok connects
  have wired := connects_wired ok connects
  obtain ⟨enabled,⟨q,admits,rfl⟩,rfl,rfl⟩ := connects
  have marks (p : PipeRef) (new : s.net.nextPipe ≤ p) :
      (netExec s act).net.pipeFrees p = 0 ∧
        (netExec s act).net.faults.count (.freedPipe p) = 0 := by
    have none : s.pipeEvents p act = [] := by
      rcases admits_accepts admits with ⟨t,l,made,rfl⟩ | ⟨t,l,signalled,made,rfl⟩ <;> rfl
    obtain ⟨_,renewed,_⟩ := step_renews (q := p) (x := 0) enabled
    rw [none] at renewed
    have before := ok.pipes p new
    exact ⟨(congrArg Flow.frees renewed).trans before.1,
      (congrArg Flow.faults renewed).trans before.2⟩
  have opens : (netExec s act).view.isOpen (s.view.owner q) ∧
      (netExec s act).view.isOpen s.net.nextSocket := by
    have move := admits_move enabled (listener_ports ok.allocated) admits
    generalize (netExec s act).view = w at move
    cases move
    exact ⟨Or.inl opened,Or.inr rfl⟩
  refine ⟨wired,?_,fun gone => absurd gone (Nat.ne_of_gt opens.1),
    fun gone => absurd gone (Nat.ne_of_gt opens.2)⟩
  intro p here
  rcases here with rfl | rfl
  · obtain ⟨frees,faults⟩ := marks _ (Nat.le_refl _)
    exact acquired_lives first frees faults
  · obtain ⟨frees,faults⟩ := marks _ (Nat.le_succ _)
    exact acquired_lives second frees faults

theorem step_pair {act : NetAction} (inv : PairInv s a b r) (enabled : NetEnabled s act)
    (single : SingleRequest a s act) (spares : SparesEnded r s act) :
    PairInv (netExec s act) a b r := by
  obtain ⟨wired,lives,left,right⟩ := inv
  have inside := (wired.untouched.allocated.peers a _ wired.joined.left).2
  have flow (q : PipeRef) (here : q = r ∨ q = r + 1) : (netExec s act).net.flow q 0 =
      ((s.pipeEvents q act).foldl Flow.apply (s.net.flow q 0)).append (s.moved 0 act) := by
    apply step_flow enabled
    rcases here with rfl | rfl
    · exact inside.1
    · exact inside.2
  have pipe (q : PipeRef) (here : q = r ∨ q = r + 1) : (netExec s act).net.pipes q =
      ((s.pipeEvents q act).foldl Flow.apply (s.net.flow q 0)).pipe :=
    congrArg Flow.pipe (flow q here)
  have shuts (q : PipeRef) (here : q = r ∨ q = r + 1) := events_shut (lives q here).wellFormed
    (s.pipeEvents q act)
  refine ⟨step_wired wired enabled single,?_,?_,?_⟩
  · intro q here
    have events : ((s.pipeEvents q act).foldl Flow.apply (s.net.flow q 0)).Lives := by
      by_cases used : s.pipeEvents q act = []
      · rw [used]
        exact lives q here
      · obtain ⟨front,last,split,transfers,short⟩ := joined_events wired.joined here act
        rw [split]
        exact events_live (lives q here) (spares q here used) transfers short
    rw [flow q here]
    exact ⟨events.wellFormed,events.frees,events.faults⟩
  · intro gone
    rw [pipe r (Or.inl rfl), pipe (r + 1) (Or.inr rfl)]
    by_cases opened : 0 < s.refcount a
    · have closes (q : PipeRef) := drop_events enabled opened gone q
      have type : (s.net.sockets a).type = _ := wired.joined.left
      rw [type] at closes
      exact ⟨events_close_reader (lives r (Or.inl rfl)).wellFormed
          (closes r _ (by simp [SocketType.closeEvents])),
        events_close_writer (lives (r + 1) (Or.inr rfl)).wellFormed
          (closes (r + 1) _ (by simp [SocketType.closeEvents]))⟩
    · obtain ⟨reader,writer⟩ := left (Nat.eq_zero_of_not_pos opened)
      exact ⟨(shuts r (Or.inl rfl)).reader reader,(shuts (r + 1) (Or.inr rfl)).writer writer⟩
  · intro gone
    rw [pipe r (Or.inl rfl), pipe (r + 1) (Or.inr rfl)]
    by_cases opened : 0 < s.refcount b
    · have closes (q : PipeRef) := drop_events enabled opened gone q
      have type : (s.net.sockets b).type = _ := wired.joined.right
      rw [type] at closes
      exact ⟨events_close_writer (lives r (Or.inl rfl)).wellFormed
          (closes r _ (by simp [SocketType.closeEvents])),
        events_close_reader (lives (r + 1) (Or.inr rfl)).wellFormed
          (closes (r + 1) _ (by simp [SocketType.closeEvents]))⟩
    · obtain ⟨writer,reader⟩ := right (Nat.eq_zero_of_not_pos opened)
      exact ⟨(shuts r (Or.inl rfl)).writer writer,(shuts (r + 1) (Or.inr rfl)).reader reader⟩

theorem pair_inductive (a b : SocketRef) (r : PipeRef) :
    ((pairSystem a b r).restrict (SparesEnded r)).Inductive (fun s => PairInv s a b r) := by
  constructor
  · rintro s0 ⟨s,act,reach,connects,opened,rfl⟩
    exact connects_pair (inductive_reach untouched_inductive reach) connects opened
  · rintro s act s' inv ⟨⟨⟨enabled,single⟩,spares⟩,run⟩
    cases run
    exact step_pair inv enabled single spares

theorem ended_use_faults {act : NetAction} (inv : PairInv s a b r) (enabled : NetEnabled s act)
    (uses : ¬ SparesEnded r s act) :
    ∃ q, (q = r ∨ q = r + 1) ∧ .freedPipe q ∈ (netExec s act).net.faults := by
  simp only [SparesEnded, not_forall, not_not] at uses
  obtain ⟨q,here,used,ended⟩ := uses
  have freed : 0 < (s.net.flow q 0).frees := by
    rw [(inv.lives q here).frees, if_pos (show Ended (s.net.flow q 0).pipe from ended)]
    exact Nat.one_pos
  obtain ⟨_,renewed,_⟩ := step_renews (q := q) (x := 0) enabled
  have faults := congrArg Flow.faults renewed
  have bad : 0 < (netExec s act).net.faults.count (.freedPipe q) :=
    lt_of_lt_of_eq (freed_faults freed used) faults.symm
  exact ⟨q,here,List.count_pos_iff.mp bad⟩

end Connections
end KernelSocket
