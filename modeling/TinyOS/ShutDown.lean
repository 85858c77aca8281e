import TinyOS.Directions

/- Shutting down one side of a connection: the direction that loses its reader, the one that loses
   its writer, and the one that is left alone. -/
namespace KernelSocket
open KernelStreams KernelProc KernelPipe Monitor Transition

/- x and y are the two sockets in either order; x reads from `into` and writes to `out`. -/
def Ends (a b : SocketRef) (r : PipeRef) (x y : SocketRef) (into out : PipeRef) : Prop :=
  (x = a ∧ y = b ∧ into = r ∧ out = r + 1) ∨ (x = b ∧ y = a ∧ into = r + 1 ∧ out = r)

def ShutdownMode.Reads (how : ShutdownMode) : Prop := how = .read ∨ how = .both

def ShutdownMode.Writes (how : ShutdownMode) : Prop := how = .write ∨ how = .both

def Progress.data : Progress → List Byte
  | .sleeps _ => []
  | .returns _ data => data

/- The bytes that a Read gets out of the pipe, if the step is one. -/
def given (q : PipeRef) (s : NetRun) (a : NetAction) : List Byte :=
  match s.pipeEvents q a with
  | .first c :: _ | .next c :: _ => c.taken (netStep s a).1.data
  | _ => []

def delivered (q : PipeRef) : NetRun → List NetAction → List Byte
  | _, [] => []
  | s, a :: as => given q s a ++ delivered q (netExec s a) as

/- Every Read on x fails, whether it starts now or is in progress, and so does a new Write on y. -/
structure ReadsFail (u : NetRun) (x y : SocketRef) : Prop where
  reads : ∀ t n, NetEnabled u (.io t x (.read n)) → (netStep u (.io t x (.read n))).1 = reply (-1)
  pending : ∀ t q n, (t,.io x q (.read n)) ∈ u.calls → (∀ cv, t ∉ u.net.waits.asleep cv) ∧
    ∀ signalled made,
      (netStep u (.resume t (.io x q (.read n)) signalled made)).1 = reply (-1)
  writes : ∀ t buf, NetEnabled u (.io t y (.write buf)) →
    (netStep u (.io t y (.write buf))).1 = reply (-1)

/- What a Read of n bytes returns where nobody writes any more. -/
def lastBytes (p : PipeCB) (n : Nat) : Progress :=
  .returns ((stored p).take n).length ((stored p).take n)

/- A new Write on x fails. The Reads on y have been given the first of the bytes that were buffered,
   and get the others, and then 0. -/
structure WritesEnd (buffered : List Byte) (given : List Byte) (u : NetRun) (x y : SocketRef)
    (out : PipeRef) : Prop where
  writes : ∀ t buf, NetEnabled u (.io t x (.write buf)) →
    (netStep u (.io t x (.write buf))).1 = reply (-1)
  drains : given ++ stored (u.net.pipes out) = buffered
  reads : ∀ t n, NetEnabled u (.io t y (.read n)) →
    (netStep u (.io t y (.read n))).1 = lastBytes (u.net.pipes out) n
  pending : ∀ t n, (t,.io y out (.read n)) ∈ u.calls → (∀ cv, t ∉ u.net.waits.asleep cv) ∧
    ∀ signalled made, (netStep u (.resume t (.io y out (.read n)) signalled made)).1 =
      lastBytes (u.net.pipes out) n

/- After the step, the same calls on the pipe get the same replies as without it. -/
def AsIf (s : NetRun) (a : NetAction) (q : PipeRef) : Prop :=
  ∀ as u as' u', netSystem.Runs (netExec s a) as u → netSystem.Runs s as' u' →
    trace q (netExec s a) as = trace q s as' →
    replies q (netExec s a) as = replies q s as' ∧ u.direction q = u'.direction q

section Directions
variable {q : PipeRef} {v : Direction}

/- What closing an end leaves as it is. -/
structure Direction.Fades (v w : Direction) : Prop where
  calls : w.calls = v.calls
  asleep : ∀ cv, (w.asleep cv).Sublist (v.asleep cv)
  stored : stored w.pipe = stored v.pipe
  wellFormed : WellFormed v.pipe → WellFormed w.pipe
  reader : v.pipe.reader = none → w.pipe.reader = none
  writer : v.pipe.writer = none → w.pipe.writer = none

theorem Direction.Fades.refl (v : Direction) : v.Fades v :=
  ⟨rfl,fun _ => List.Sublist.refl _,rfl,id,id,id⟩

theorem Direction.Fades.trans {v w z : Direction} (first : v.Fades w) (second : w.Fades z) :
    v.Fades z :=
  ⟨second.calls.trans first.calls,fun cv => (second.asleep cv).trans (first.asleep cv),
    second.stored.trans first.stored,second.wellFormed ∘ first.wellFormed,
    second.reader ∘ first.reader,second.writer ∘ first.writer⟩

theorem rouse_asleep (cv : Option PipeCV) (cv' : PipeCV) :
    ((v.rouse cv).asleep cv').Sublist (v.asleep cv') := by
  cases cv with
  | none => exact List.Sublist.refl _
  | some cv =>
    by_cases same : cv' = cv
    · subst same
      simp [Direction.rouse]
    · simp [Direction.rouse, same]

@[simp] theorem rouse_pipe (cv : Option PipeCV) : (v.rouse cv).pipe = v.pipe := by
  cases cv <;> rfl

@[simp] theorem rouse_calls (cv : Option PipeCV) : (v.rouse cv).calls = v.calls := by
  cases cv <;> rfl

theorem close_fades (caller : Option (Thread × SocketRef)) {e : PipeEvent} (closes : e.Closes) :
    v.Fades (v.apply q caller e) := by
  cases e with
  | first c | next c => exact closes.elim
  | readerClose =>
    refine ⟨rouse_calls _,fun cv => rouse_asleep _ cv,?_,fun wf => ?_,?_,?_⟩
    all_goals simp only [Direction.apply, rouse_pipe, pipeReaderClose]
    · rfl
    · exact close_wellFormed wf none v.pipe.writer
    · exact fun _ => trivial
    · exact id
  | writerClose =>
    refine ⟨rouse_calls _,fun cv => rouse_asleep _ cv,?_,fun wf => ?_,?_,?_⟩
    all_goals simp only [Direction.apply, rouse_pipe, pipeWriterClose]
    · rfl
    · exact close_wellFormed wf v.pipe.reader none
    · exact id
    · exact fun _ => trivial

theorem closes_fade (caller : Option (Thread × SocketRef)) {es : List PipeEvent}
    (closes : ∀ e ∈ es, e.Closes) : v.Fades (es.foldl (Direction.apply q caller) v) := by
  induction es generalizing v with
  | nil => exact .refl v
  | cons e es ih =>
    exact (close_fades caller (closes e List.mem_cons_self)).trans
      (ih fun e' member => closes e' (List.mem_cons_of_mem _ member))

/- Nobody writes any more: the end is closed, and the Writes in progress have nothing to write. -/
structure Direction.Draining (v : Direction) (q : PipeRef) : Prop where
  wellFormed : WellFormed v.pipe
  writer : v.pipe.writer = none
  asleep : v.asleep .hasData = []
  writes : ∀ t a buf, (t,.io a q (.write buf)) ∈ v.calls → buf = []

/- A pass that puts nothing into the pipe, and does not wait for data. -/
structure PassDrains (c : Call) (p : PipeCB) (e : Pass × PipeCB) : Prop where
  wellFormed : WellFormed e.2
  writer : e.2.writer = p.writer
  sleeps : ∀ cv, e.1 = .sleeps cv → cv = .hasSpace
  bytes : c.taken (Pass.data e.1) ++ stored e.2 = stored p

theorem pass_drains {c : Call} {p : PipeCB} {e : Pass × PipeCB} (wf : WellFormed p)
    (spec : PassSpec c p e) (sleeps : ∀ cv, e.1 = .sleeps cv → cv = .hasSpace)
    (puts : c.put (Pass.data e.1) = []) : PassDrains c p e := by
  have copied := pass_copied wf spec
  refine ⟨copied.wellFormed,copied.writer,sleeps,?_⟩
  rw [copied.fifo, puts, List.append_nil]

theorem read_pass_drains {p : PipeCB} (wf : WellFormed p) (writer : p.writer = none) (n : Nat) :
    PassDrains (.read n) p (readPass n p) := by
  refine pass_drains wf (next_pass_spec (.read n) wf) (fun cv sleeps => ?_) rfl
  unfold readPass at sleeps
  rw [if_neg (fun waits => waits.2 writer)] at sleeps
  cases sleeps

theorem first_pass_drains {p : PipeCB} (wf : WellFormed p) (writer : p.writer = none) (c : Call) :
    PassDrains c p (c.firstPass p) ∧
      ∀ cv, (c.firstPass p).1 = .sleeps cv → ∀ buf, c ≠ .write buf := by
  cases c with
  | read n =>
    refine ⟨?_,fun _ _ buf same => by cases same⟩
    simp only [Call.firstPass, pipeRead]
    split
    · exact ⟨wf,rfl,fun cv sleeps => (by cases sleeps),rfl⟩
    · exact read_pass_drains wf writer n
  | write buf =>
    have fails : (Call.write buf).firstPass p = (.returns (-1) [] none,p) := if_pos (Or.inr writer)
    rw [fails]
    exact ⟨⟨wf,rfl,fun cv sleeps => (by cases sleeps),rfl⟩,fun cv sleeps => by cases sleeps⟩

theorem next_pass_drains {p : PipeCB} (wf : WellFormed p) (writer : p.writer = none) {c : Call}
    (empty : ∀ buf, c = .write buf → buf = []) : PassDrains c p (c.nextPass p) := by
  cases c with
  | read n => exact read_pass_drains wf writer n
  | write buf =>
    cases empty buf rfl
    refine pass_drains wf (next_pass_spec _ wf) (fun cv sleeps => ?_) ?_
    all_goals simp only [Call.nextPass, writePass] at *
    · split at sleeps
      · cases sleeps
        rfl
      · split at sleeps <;> cases sleeps
    · split
      · rfl
      · split <;> rfl

theorem endPass_draining (drains : v.Draining q) (caller : Option (Thread × SocketRef)) {c : Call}
    {e : Pass × PipeCB} (pass : PassDrains c v.pipe e)
    (empty : ∀ cv, e.1 = .sleeps cv → ∀ buf, c = .write buf → buf = []) :
    (v.endPass q caller c e).Draining q ∧ (v.endPass q caller c e).pipe = e.2 := by
  obtain ⟨wf,writer,asleep,writes⟩ := drains
  obtain ⟨wf',writer',sleeps,_⟩ := pass
  obtain ⟨outcome,p⟩ := e
  cases outcome with
  | returns value data cv =>
    have none := rouse_asleep (v := { v with pipe := p }) cv .hasData
    rw [show ({ v with pipe := p } : Direction).asleep .hasData = [] from asleep] at none
    change Direction.Draining (Direction.rouse { v with pipe := p } cv) q ∧ _
    exact ⟨⟨by simpa using wf',by simpa using writer'.trans writer,List.sublist_nil.mp none,
      by simpa using writes⟩,rouse_pipe cv⟩
  | sleeps cv =>
    have space := sleeps cv rfl
    subst space
    rcases caller with _ | ⟨t,a⟩
    · exact ⟨⟨wf',writer'.trans writer,asleep,writes⟩,rfl⟩
    · refine ⟨⟨wf',writer'.trans writer,?_,?_⟩,rfl⟩
      · simpa [Direction.endPass] using asleep
      · intro t' a' buf member
        rcases List.mem_cons.mp member with same | old
        · cases same
          exact empty _ rfl buf rfl
        · exact writes t' a' buf old

theorem fades_draining {w : Direction} (fades : v.Fades w) (drains : v.Draining q) :
    w.Draining q := by
  refine ⟨fades.wellFormed drains.wellFormed,fades.writer drains.writer,?_,?_⟩
  · exact List.sublist_nil.mp (drains.asleep ▸ fades.asleep .hasData)
  · rw [fades.calls]
    exact drains.writes

theorem leave_draining (drains : v.Draining q) (caller : Option (Thread × SocketRef)) (c : Call) :
    (v.leave q caller c).Draining q ∧ (v.leave q caller c).pipe = v.pipe := by
  rcases caller with _ | ⟨t,a⟩
  · exact ⟨drains,rfl⟩
  · exact ⟨⟨drains.wellFormed,drains.writer,drains.asleep,fun t' a' buf member =>
      drains.writes t' a' buf (List.mem_of_mem_erase member)⟩,rfl⟩

/- Reads wait for data, and Writes for space. -/
def waitsFor : Call → PipeCV
  | .read _ => .hasData
  | .write _ => .hasSpace

def Direction.Tidy (v : Direction) (q : PipeRef) : Prop :=
  ∀ cv t, t ∈ v.asleep cv → ∃ a c, (t,.io a q c) ∈ v.calls ∧ waitsFor c = cv

theorem next_pass_waits {c : Call} {p : PipeCB} {cv : PipeCV}
    (sleeps : (c.nextPass p).1 = .sleeps cv) : waitsFor c = cv := by
  cases c with
  | read n =>
    simp only [Call.nextPass, readPass] at sleeps
    split at sleeps <;> cases sleeps
    rfl
  | write buf =>
    simp only [Call.nextPass, writePass] at sleeps
    split at sleeps
    · cases sleeps
      rfl
    · split at sleeps <;> cases sleeps

theorem first_pass_waits {c : Call} {p : PipeCB} {cv : PipeCV}
    (sleeps : (c.firstPass p).1 = .sleeps cv) : waitsFor c = cv := by
  cases c with
  | read n =>
    simp only [Call.firstPass, pipeRead] at sleeps
    split at sleeps
    · cases sleeps
    · exact next_pass_waits (c := .read n) sleeps
  | write buf =>
    simp only [Call.firstPass, pipeWrite] at sleeps
    split at sleeps
    · cases sleeps
    · exact next_pass_waits (c := .write buf) sleeps

theorem fades_tidy {w : Direction} (fades : v.Fades w) (tidy : v.Tidy q) : w.Tidy q := by
  intro cv t asleep
  rw [fades.calls]
  exact tidy cv t ((fades.asleep cv).subset asleep)

theorem endPass_tidy (tidy : v.Tidy q) (caller : Option (Thread × SocketRef)) {c : Call}
    {e : Pass × PipeCB} (waits : ∀ cv, e.1 = .sleeps cv → waitsFor c = cv) :
    (v.endPass q caller c e).Tidy q := by
  obtain ⟨outcome,p⟩ := e
  cases outcome with
  | returns value data cv =>
    change Direction.Tidy (Direction.rouse { v with pipe := p } cv) q
    intro cv' t asleep
    rw [rouse_calls]
    exact tidy cv' t ((rouse_asleep (v := { v with pipe := p }) cv cv').subset asleep)
  | sleeps cv =>
    rcases caller with _ | ⟨t,a⟩
    · exact tidy
    · intro cv' t' asleep
      have old (here : t' ∈ v.asleep cv') :
          ∃ a' c', (t',NetCall.io a' q c') ∈ (t,NetCall.io a q c) :: v.calls ∧
            waitsFor c' = cv' := by
        obtain ⟨a',c',member,waits'⟩ := tidy cv' t' here
        exact ⟨a',c',List.mem_cons_of_mem _ member,waits'⟩
      by_cases same : cv' = cv
      · subst same
        simp only [Direction.endPass, Function.update_self, List.mem_append,
          List.mem_singleton] at asleep
        rcases asleep with here | rfl
        · exact old here
        · exact ⟨a,c,List.mem_cons_self,waits cv' rfl⟩
      · simp only [Direction.endPass, Function.update_of_ne same] at asleep
        exact old asleep

theorem leave_tidy (tidy : v.Tidy q) {t : Thread} (awake : ∀ cv, t ∉ v.asleep cv) (a : SocketRef)
    (c : Call) : (v.leave q (some (t,a)) c).Tidy q := by
  intro cv t' asleep
  obtain ⟨a',c',member,waits⟩ := tidy cv t' asleep
  refine ⟨a',c',(List.mem_erase_of_ne fun same => ?_).mpr member,waits⟩
  cases same
  exact awake cv asleep

end Directions

section Steps
variable {s : NetRun} {q : PipeRef}

theorem step_tidy {a : NetAction} (ok : WaitsOk s) (tidy : (s.direction q).Tidy q)
    (enabled : NetEnabled s a) (old : q < s.net.nextPipe) :
    ((netExec s a).direction q).Tidy q := by
  rw [step_direction enabled old]
  cases step_uses s q a with
  | closes closes => exact fades_tidy (closes_fade a.caller closes) tidy
  | first t x c link action known pipe events reply =>
    rw [events]
    exact endPass_tidy tidy a.caller fun cv => first_pass_waits
  | next t x c signalled made last action events closes reply =>
    subst action
    rw [events]
    have left := leave_tidy tidy (fun cv => woken_awake ok enabled.2 (.pipe q cv)) x c
    have fades := closes_fade (v := (s.direction q).apply q (some (t,x)) (.next c)) (q := q)
      (some (t,x)) closes
    exact fades_tidy fades (endPass_tidy left (some (t,x)) fun cv => next_pass_waits)

/- Reads and Writes sleep at pipes that have been made before. -/
theorem sleeping_old {a : NetAction} (untouched : Untouched s) (enabled : NetEnabled s a)
    {t : Thread} {x : SocketRef} {c : Call} (asleep : (t,.io x q c) ∈ (netExec s a).calls) :
    q < s.net.nextPipe := by
  rcases step_calls asleep with old | new
  · exact (untouched.calls t x q c old).1
  · rcases transfer_sleeps new with ⟨link,known,rfl,_⟩ | ⟨t',signalled,made,rfl⟩
    · obtain ⟨_,read,write⟩ := untouched.allocated.peers x link known
      cases c with
      | read n => exact read
      | write buf => exact write
    · exact (untouched.calls t' x q c enabled.1).1

theorem asleep_call (ok : WaitsOk s) {cv : PipeCV} {t : Thread}
    (asleep : t ∈ s.net.waits.asleep (.pipe q cv)) : ∃ x c, (t,.io x q c) ∈ s.calls := by
  obtain ⟨call,member,waits⟩ := ok.sleepers _ t asleep
  cases call with
  | io x r c =>
    obtain ⟨pcv,same⟩ := waits
    cases same
    exact ⟨x,c,member⟩
  | connect x l r | accept l => cases waits

theorem tidy_inductive : netSystem.Inductive fun s =>
    WaitsOk s ∧ Untouched s ∧ ∀ q, (s.direction q).Tidy q := by
  constructor
  · rintro s ⟨memory,rfl⟩
    exact ⟨waitsOk_inductive.start _ ⟨memory,rfl⟩,untouched_inductive.start _ ⟨memory,rfl⟩,
      fun q cv t asleep => by cases asleep⟩
  · rintro s a s' ⟨ok,untouched,tidy⟩ move
    have ok' := waitsOk_inductive.step s a s' ok move
    refine ⟨ok',untouched_inductive.step s a s' untouched move,fun q => ?_⟩
    obtain ⟨enabled,run⟩ := move
    cases run
    by_cases old : q < s.net.nextPipe
    · exact step_tidy ok (tidy q) enabled old
    · intro cv t asleep
      obtain ⟨x,c,member⟩ := asleep_call ok' asleep
      exact absurd (sleeping_old untouched enabled member) old

theorem reply_data (x : SocketRef) (q : PipeRef) (c : Call) (pass : Pass) :
    (passReply x q c pass).data = Pass.data pass := by
  cases pass <;> rfl

theorem step_drains {a : NetAction} (drains : (s.direction q).Draining q)
    (enabled : NetEnabled s a) (old : q < s.net.nextPipe) :
    ((netExec s a).direction q).Draining q ∧
      given q s a ++ stored ((netExec s a).net.pipes q) = stored (s.net.pipes q) := by
  have after := step_direction enabled old
  have pipe : (netExec s a).net.pipes q = ((netExec s a).direction q).pipe := rfl
  rw [pipe, after]
  cases step_uses s q a with
  | closes closes =>
    have fades := closes_fade (v := s.direction q) (q := q) a.caller closes
    have nothing : given q s a = [] := by
      unfold given
      split
      · rename_i c es events
        exact (closes (.first c) (by rw [events]; exact List.mem_cons_self)).elim
      · rename_i c es events
        exact (closes (.next c) (by rw [events]; exact List.mem_cons_self)).elim
      · rfl
    rw [nothing]
    exact ⟨fades_draining fades drains,fades.stored⟩
  | first t x c link action known pipe events reply =>
    obtain ⟨pass,awake⟩ := first_pass_drains drains.wellFormed drains.writer c
    obtain ⟨drains',same⟩ := endPass_draining drains a.caller pass fun cv sleeps buf equal =>
      absurd equal (awake cv sleeps buf)
    have bytes : given q s a = c.taken (Pass.data (c.firstPass (s.net.pipes q)).1) := by
      simp only [given, events, reply, reply_data]
    rw [events, bytes]
    refine ⟨drains',?_⟩
    exact (congrArg (fun p => _ ++ stored p) same).trans pass.bytes
  | next t x c signalled made last action events closes reply =>
    have inside : (t,.io x q c) ∈ (s.direction q).calls := by
      subst action
      exact List.mem_filter.mpr ⟨enabled.1,decide_eq_true rfl⟩
    have empty (buf : List Byte) (same : c = .write buf) : buf = [] :=
      drains.writes t x buf (same ▸ inside)
    obtain ⟨left,unmoved⟩ := leave_draining drains a.caller c
    have pass := next_pass_drains drains.wellFormed drains.writer empty
    have passed : PassDrains c ((s.direction q).leave q a.caller c).pipe
        (c.nextPass (s.net.pipes q)) := by
      rw [unmoved]
      exact pass
    obtain ⟨drains',same⟩ := endPass_draining left a.caller passed fun _ _ => empty
    have bytes : given q s a = c.taken (Pass.data (c.nextPass (s.net.pipes q)).1) := by
      simp only [given, events, reply, reply_data]
    rw [events, bytes]
    have fades := closes_fade (v := (s.direction q).apply q a.caller (.next c)) (q := q) a.caller
      closes
    exact ⟨fades_draining fades drains',
      (congrArg (_ ++ ·) (fades.stored.trans (congrArg stored same))).trans pass.bytes⟩

theorem run_drains {u : NetRun} {as : List NetAction} (drains : (s.direction q).Draining q)
    (old : q < s.net.nextPipe) (run : netSystem.Runs s as u) :
    (u.direction q).Draining q ∧
      delivered q s as ++ stored (u.net.pipes q) = stored (s.net.pipes q) := by
  induction run with
  | nil s => exact ⟨drains,rfl⟩
  | @cons s s' u a as move rest ih =>
    obtain ⟨enabled,run⟩ := move
    cases run
    obtain ⟨_,grows,_⟩ := step_move enabled
    obtain ⟨drains',bytes⟩ := step_drains drains enabled old
    obtain ⟨drained,rest'⟩ := ih drains' (Nat.lt_of_lt_of_le old (move_nextPipe grows))
    refine ⟨drained,?_⟩
    rw [delivered, List.append_assoc, rest', bytes]

theorem read_loop_take (n : Nat) {p : PipeCB} (wf : WellFormed p) :
    (readLoop n p).1 = (stored p).take n := by
  induction n generalizing p with
  | zero => rfl
  | succ n ih =>
    by_cases holds : 0 < p.usedSpace
    · simp only [readLoop, gt_iff_lt, if_pos holds]
      rw [takeByte_stored wf holds, List.take_succ_cons, ← ih (takeByte_wellFormed wf holds)]
    · have none : stored p = [] := by
        rw [← List.length_eq_zero_iff, stored_length]
        omega
      simp [readLoop, holds, none]

/- A Read where nobody writes any more. -/
theorem last_read {p : PipeCB} (wf : WellFormed p) (writer : p.writer = none) (x : SocketRef)
    (q : PipeRef) (n : Nat) :
    passReply x q (.read n) (readPass n p).1 = lastBytes p n := by
  unfold readPass
  rw [if_neg (fun waits => waits.2 writer)]
  simp only [passReply, lastBytes, read_loop_take n wf]

theorem one_call (ok : WaitsOk s) {t : Thread} {call call' : NetCall} (first : (t,call) ∈ s.calls)
    (second : (t,call') ∈ s.calls) : call = call' := by
  have same := List.inj_on_of_nodup_map ok.threads first second rfl
  exact congrArg Prod.snd same

/- A Read in progress on a pipe where nobody waits for data does not sleep. -/
theorem read_awake (ok : WaitsOk s) (tidy : (s.direction q).Tidy q)
    (none : (s.direction q).asleep .hasData = []) {t : Thread} {x : SocketRef} {n : Nat}
    (member : (t,.io x q (.read n)) ∈ s.calls) (cv : NetCV) : t ∉ s.net.waits.asleep cv := by
  intro asleep
  obtain ⟨call,member',waits⟩ := ok.sleepers cv t asleep
  cases one_call ok member' member
  obtain ⟨pcv,rfl⟩ := waits
  obtain ⟨x',c,member'',kind⟩ := tidy pcv t asleep
  cases one_call ok (List.mem_filter.mp member'').1 member
  subst kind
  have asleep : t ∈ (s.direction q).asleep .hasData := asleep
  rw [none] at asleep
  cases asleep

end Steps

section Connections
variable {s u : NetRun} {a b x y : SocketRef} {r into out : PipeRef}

theorem ends_links {v : View} (ends : Ends a b r x y into out) (joined : v.Joined a b r) :
    v.type x = .peer { peer := y, readPipe := into, writePipe := out } ∧
      v.type y = .peer { peer := x, readPipe := out, writePipe := into } := by
  rcases ends with ⟨rfl,rfl,rfl,rfl⟩ | ⟨rfl,rfl,rfl,rfl⟩
  · exact ⟨joined.left,joined.right⟩
  · exact ⟨joined.right,joined.left⟩

theorem ends_apart (ends : Ends a b r x y into out) : into ≠ out ∧
    (into = r ∨ into = r + 1) ∧ (out = r ∨ out = r + 1) := by
  rcases ends with ⟨_,_,rfl,rfl⟩ | ⟨_,_,rfl,rfl⟩
  · exact ⟨(Nat.succ_ne_self _).symm,Or.inl rfl,Or.inr rfl⟩
  · exact ⟨Nat.succ_ne_self _,Or.inr rfl,Or.inl rfl⟩

/- The connection, with what holds of its pipes in all runs. -/
structure PairOk (s : NetRun) (a b : SocketRef) (r : PipeRef) : Prop where
  reach : netSystem.Reach s
  wired : Wired s a b r
  wellFormed : ∀ q, q = r ∨ q = r + 1 → WellFormed (s.net.pipes q)

theorem pair_old (ok : PairOk s a b r) {q : PipeRef} (here : q = r ∨ q = r + 1) :
    q < s.net.nextPipe := by
  obtain ⟨_,read,write⟩ := ok.wired.untouched.allocated.peers a _ ok.wired.joined.left
  rcases here with rfl | rfl
  · exact read
  · exact write

theorem step_pipe {act : NetAction} (ok : PairOk s a b r) (enabled : NetEnabled s act) {q : PipeRef}
    (here : q = r ∨ q = r + 1) :
    (s.net.flow q 0).Shuts ((s.pipeEvents q act).foldl Flow.apply (s.net.flow q 0)) ∧
    (netExec s act).net.pipes q =
      ((s.pipeEvents q act).foldl Flow.apply (s.net.flow q 0)).pipe :=
  ⟨events_shut (ok.wellFormed q here) _,
    congrArg Flow.pipe (step_flow (x := 0) enabled (pair_old ok here))⟩

theorem pair_step {act : NetAction} (ok : PairOk s a b r) (enabled : NetEnabled s act)
    (single : SingleRequest a s act) : PairOk (netExec s act) a b r := by
  refine ⟨.step ok.reach ⟨enabled,rfl⟩,step_wired ok.wired enabled single,fun q here => ?_⟩
  obtain ⟨shuts,pipe⟩ := step_pipe ok enabled here
  exact pipe ▸ shuts.wellFormed

theorem pair_ok (reach : (pairSystem a b r).Reach s) : PairOk s a b r := by
  induction reach with
  | start first =>
    obtain ⟨s,act,before,connects,_,rfl⟩ := first
    have untouched := inductive_reach untouched_inductive before
    obtain ⟨⟨_,_,_,left⟩,⟨_,_,_,right⟩⟩ := connects_pipes untouched connects
    refine ⟨.step before ⟨connects.enabled,rfl⟩,connects_wired untouched connects,?_⟩
    rintro q (rfl | rfl)
    · exact left ▸ acquired_wellFormed ..
    · exact right ▸ acquired_wellFormed ..
  | step before move ih =>
    obtain ⟨⟨enabled,single⟩,run⟩ := move
    cases run
    exact pair_step ih enabled single

theorem shut_down_step (ok : PairOk s a b r) (how : ShutdownMode) (named : 0 < s.fids x) :
    PairOk (netExec s (.shutDown x how)) a b r := by
  have enabled : NetEnabled s (.shutDown x how) := named
  exact pair_step ok enabled fun _ => False.elim

/- What a run of the connection keeps. -/
theorem pair_runs {as : List NetAction} {P : NetRun → Prop} (ok : PairOk s a b r) (first : P s)
    (step : ∀ s act, PairOk s a b r → P s → NetEnabled s act → P (netExec s act))
    (run : (pairSystem a b r).Runs s as u) :
    PairOk u a b r ∧ P u ∧ netSystem.Runs s as u := by
  induction run with
  | nil s => exact ⟨ok,first,.nil s⟩
  | cons move rest ih =>
    obtain ⟨⟨enabled,single⟩,run⟩ := move
    cases run
    obtain ⟨ok',last,runs⟩ := ih (pair_step ok enabled single) (step _ _ ok first enabled)
    exact ⟨ok',last,.cons ⟨enabled,rfl⟩ runs⟩

/- The pipe has lost its reader, and no Read on x is in progress. -/
structure ReadsOver (s : NetRun) (x : SocketRef) (into : PipeRef) : Prop where
  reader : (s.net.pipes into).reader = none
  calls : ∀ t q n, (t,.io x q (.read n)) ∉ s.calls

theorem read_fails {p : PipeCB} (reader : p.reader = none) (n : Nat) :
    (Call.read n).firstPass p = (.returns (-1) [] none,p) := if_pos reader

theorem write_fails {p : PipeCB} (ended : p.reader = none ∨ p.writer = none) (buf : List Byte) :
    (Call.write buf).firstPass p = (.returns (-1) [] none,p) := if_pos ended

theorem io_fails {x : SocketRef} {c : Call} {link : PeerSocket} {p : PipeCB}
    (known : s.view.type x = .peer link)
    (fails : c.firstPass (s.net.pipes (link.pipe c)) = (.returns (-1) [] none,p)) (t : Thread) :
    (netStep s (.io t x c)).1 = reply (-1) := by
  rw [io_reply known, fails]
  rfl

theorem step_reads_over (ends : Ends a b r x y into out) {act : NetAction} (ok : PairOk s a b r)
    (ended : ReadsOver s x into) (enabled : NetEnabled s act) :
    ReadsOver (netExec s act) x into := by
  obtain ⟨shuts,pipe⟩ := step_pipe ok enabled (ends_apart ends).2.1
  refine ⟨pipe ▸ shuts.reader ended.reader,fun t q n member => ?_⟩
  rcases step_calls member with old | new
  · exact ended.calls t q n old
  · rcases transfer_sleeps new with ⟨link,known,rfl,t',rfl⟩ | ⟨t',signalled,made,rfl⟩
    · cases (ends_links ends ok.wired.joined).1.symm.trans known
      cases (io_fails known (read_fails ended.reader n) t').symm.trans new
    · exact ended.calls t' q n enabled.1

theorem reads_over_fail (ends : Ends a b r x y into out) (ok : PairOk s a b r)
    (ended : ReadsOver s x into) : ReadsFail s x y := by
  obtain ⟨known,known'⟩ := ends_links ends ok.wired.joined
  exact ⟨fun t n _ => io_fails known (read_fails ended.reader n) t,
    fun t q n member => absurd member (ended.calls t q n),
    fun t buf _ => io_fails known' (write_fails (Or.inl ended.reader) buf) t⟩

/- A Read in progress never fails. -/
theorem pending_read (t : Thread) (q : PipeRef) (n : Nat) (signalled : Bool)
    (made : Option (Fid × FcbRef)) :
    (netStep s (.resume t (.io x q (.read n)) signalled made)).1 ≠ reply (-1) := by
  rw [resume_reply]
  simp only [Call.nextPass, readPass]
  split
  · exact fun same => by cases same
  · simp only [passReply, reply, ne_eq, Progress.returns.injEq, not_and]
    omega


/- The step closes the reader of the pipe that the socket reads, and the writer of the one that it
   writes. -/
theorem shut_events (ends : Ends a b r x y into out) (ok : PairOk s a b r) (how : ShutdownMode) :
    (how.Reads → s.pipeEvents into (.shutDown x how) = [.readerClose]) ∧
    (how.Writes → s.pipeEvents out (.shutDown x how) = [.writerClose]) ∧
    (¬ how.Reads → s.pipeEvents into (.shutDown x how) = []) ∧
    (¬ how.Writes → s.pipeEvents out (.shutDown x how) = []) := by
  have known : (s.net.sockets x).type = _ := (ends_links ends ok.wired.joined).1
  have apart := (ends_apart ends).1
  cases how <;> simp [NetRun.pipeEvents, known, ShutdownMode.events, ShutdownMode.Reads,
    ShutdownMode.Writes, apart, apart.symm]

theorem shut_reads_over (ends : Ends a b r x y into out) (ok : PairOk s a b r) {how : ShutdownMode}
    (reads : how.Reads) (named : 0 < s.fids x)
    (none : ∀ t q n, (t,.io x q (.read n)) ∉ s.calls) :
    ReadsOver (netExec s (.shutDown x how)) x into := by
  have enabled : NetEnabled s (.shutDown x how) := named
  obtain ⟨_,pipe⟩ := step_pipe ok enabled (ends_apart ends).2.1
  rw [(shut_events ends ok how).1 reads] at pipe
  exact ⟨pipe ▸ rfl,none⟩

/- The calls that sleep at the pipe that x writes are Writes on x and Reads on y. -/
theorem out_calls (ends : Ends a b r x y into out) (ok : PairOk s a b r) {t : Thread}
    {z : SocketRef} {buf : List Byte} (member : (t,.io z out (.write buf)) ∈ s.calls) : z = x := by
  obtain ⟨apart,_,here⟩ := ends_apart ends
  obtain ⟨link,known,pipe⟩ := ok.wired.calls t z out (.write buf) member here
  obtain ⟨_,known'⟩ := ends_links ends ok.wired.joined
  have either : z = a ∨ z = b :=
    joined_ends ok.wired.joined known (c := .write buf) (pipe ▸ here)
  have other : z ≠ y := by
    rintro rfl
    cases known.symm.trans known'
    exact apart pipe.symm
  rcases ends with ⟨rfl,rfl,_⟩ | ⟨rfl,rfl,_⟩
  · exact either.resolve_right other
  · exact either.resolve_left other

theorem shut_draining (ends : Ends a b r x y into out) (ok : PairOk s a b r) {how : ShutdownMode}
    (writes : how.Writes) (named : 0 < s.fids x) (reader : (s.net.pipes out).reader ≠ none)
    (empty : ∀ t buf, (t,.io x out (.write buf)) ∈ s.calls → buf = []) :
    ((netExec s (.shutDown x how)).direction out).Draining out ∧
      stored ((netExec s (.shutDown x how)).net.pipes out) = stored (s.net.pipes out) := by
  have enabled : NetEnabled s (.shutDown x how) := named
  have here := (ends_apart ends).2.2
  have after : (netExec s (.shutDown x how)).direction out =
      (s.direction out).apply out none .writerClose := by
    rw [step_direction enabled (pair_old ok here), (shut_events ends ok how).2.1 writes]
    rfl
  have fades := close_fades (v := s.direction out) (q := out) none (e := .writerClose) trivial
  have pipe : (netExec s (.shutDown x how)).net.pipes out =
      ((netExec s (.shutDown x how)).direction out).pipe := rfl
  rw [pipe, after]
  refine ⟨⟨fades.wellFormed (ok.wellFormed out here),?_,?_,?_⟩,fades.stored⟩
  · exact congrArg PipeCB.writer (rouse_pipe _)
  · simp only [Direction.apply, pipeWriterClose]
    rw [if_neg (show (s.direction out).pipe.reader ≠ none from reader)]
    exact Function.update_self PipeCV.hasData [] (s.direction out).asleep
  · rw [fades.calls]
    intro t z buf member
    have member := (List.mem_filter.mp member).1
    cases out_calls ends ok member
    exact empty t buf member

theorem draining_writes_end (ends : Ends a b r x y into out) (ok : PairOk s a b r)
    (drains : (s.direction out).Draining out) (reader : (s.net.pipes out).reader ≠ none)
    {buffered bytes : List Byte} (drained : bytes ++ stored (s.net.pipes out) = buffered) :
    WritesEnd buffered bytes s x y out := by
  obtain ⟨known,known'⟩ := ends_links ends ok.wired.joined
  obtain ⟨waits,_,tidy⟩ := inductive_reach tidy_inductive ok.reach
  have last (n : Nat) := last_read drains.wellFormed drains.writer y out n
  refine ⟨fun t buf _ => io_fails known (write_fails (Or.inr drains.writer) buf) t,drained,
    fun t n _ => ?_,fun t n member => ⟨read_awake waits (tidy out) drains.asleep member,
      fun signalled made => ?_⟩⟩
  · refine (io_reply known').trans (Eq.trans ?_ (last n))
    exact congrArg (fun e : Pass × PipeCB => passReply y out (.read n) e.1) (if_neg reader)
  · exact (resume_reply ..).trans (last n)

/- A pipe's reader that is there has always been there. -/
theorem run_reader {as : List NetAction} {q : PipeRef} (here : q = r ∨ q = r + 1)
    (ok : PairOk s a b r) (run : (pairSystem a b r).Runs s as u)
    (reader : (u.net.pipes q).reader ≠ none) : (s.net.pipes q).reader ≠ none := by
  intro none
  refine reader (pair_runs (P := fun s => (s.net.pipes q).reader = Option.none) ok none ?_ run).2.1
  intro s act ok none enabled
  obtain ⟨shuts,pipe⟩ := step_pipe ok enabled here
  exact pipe ▸ shuts.reader none

/- A pipe that the step makes no call on goes on as if there had been no step. -/
theorem as_if {act : NetAction} {q : PipeRef} (enabled : NetEnabled s act)
    (old : q < s.net.nextPipe) (none : s.pipeEvents q act = []) : AsIf s act q := by
  intro as u as' u' run run' same
  have next := step_direction enabled old
  rw [none] at next
  obtain ⟨_,grows,_⟩ := step_move enabled
  have first := run_play (Nat.lt_of_lt_of_le old (move_nextPipe grows)) run
  have second := run_play old run'
  rw [next, same] at first
  exact Prod.ext_iff.mp (first.trans second.symm)

/- Socket 1 is connected to socket 2, the peer that an Accept has just made for it. -/
theorem connected_pair : ∃ s, (pairSystem 1 2 0).Reach s ∧ s.calls = [((1,1),.connect 1 0 0)] ∧
    0 < s.fids 1 := by
  have before := play_reach (m := netSystem) ⟨fun _ => blankPipe,rfl⟩ oneRequest rfl
  exact ⟨_,.start ⟨_,.accept (1,2) 0 (some (2,2)),before,
    ⟨by decide,⟨0,⟨Option.some_ne_none 0,[],rfl⟩,rfl⟩,rfl,rfl⟩,by decide,rfl⟩,rfl,by decide⟩

end Connections
end KernelSocket
