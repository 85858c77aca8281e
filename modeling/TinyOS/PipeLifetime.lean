import TinyOS.PipeEnds

/- Runs over the pipes of sys_Pipe. An end of a pipe is open while its FCB is referenced, and a
   call inside the pipe holds such a reference. -/
namespace PlainPipe
open KernelStreams KernelProc KernelPipe Monitor Transition
variable {Task Obj Dev : Type} {s s' : PipesRun Task Obj Dev} {r : PipeRef} {side : Side}
  {f : FcbRef} {t : Thread} {c : Call} {m : Memory Dev}
  {files' : FileRun Task (Stream Obj) (Memory Dev)}

def stream (s : PipesRun Task Obj Dev) (f : FcbRef) : Stream Obj :=
  (s.files.kernel.files.FT f).stream

/-- The FCB is in use for this end of the pipe. -/
def Open (s : PipesRun Task Obj Dev) (r : PipeRef) (side : Side) (f : FcbRef) : Prop :=
  stream s f = .pipe r side ∧ 0 < references s.files f

structure PipesInv (s : PipesRun Task Obj Dev) : Prop where
  files : FilesSettled s.files
  memory : MemoryOk s.memory
  ends : ∀ r side f, Open s r side f ↔
    r < s.memory.nextPipe ∧ side.fcb (s.memory.pipes r) = some f
  calls : ∀ t r c, s.calls t = some (r,c) →
    ∃ f, (t,f) ∈ s.files.inUse ∧ stream s f = .pipe r (callSide c)
  asleep : ∀ r cv t, t ∈ s.memory.waits.asleep (r,cv) →
    ∃ c, s.calls t = some (r,c) ∧ cv = (callSide c).cv
  woken : ∀ t, s.memory.waits.woken t ≠ none → s.calls t ≠ none
  sound : s.memory.waits.Sound

theorem held_references {files : FileRun Task (Stream Obj) (Memory Dev)}
    (member : (t,f) ∈ files.inUse) : 0 < references files f := by
  have held : 0 < holders files f := List.countP_pos_iff.mpr ⟨(t,f),member,by simp⟩
  unfold references
  omega

theorem call_open (inv : PipesInv s) (inside : s.calls t = some (r,c)) :
    ∃ f, (t,f) ∈ s.files.inUse ∧ Open s r (callSide c) f := by
  obtain ⟨f,member,here⟩ := inv.calls t r c inside
  exact ⟨f,member,here,held_references member⟩

theorem open_unique (inv : PipesInv s) {g : FcbRef} (one : Open s r side f)
    (two : Open s r side g) : f = g := by
  have left := ((inv.ends r side f).mp one).2
  have right := ((inv.ends r side g).mp two).2
  exact Option.some.inj (left.symm.trans right)

/-- An FCB in use for an end on which some thread sleeps is held by that thread. -/
theorem sleeper_holds (inv : PipesInv s) (here : Open s r side f)
    (sleeping : t ∈ s.memory.waits.asleep (r,side.cv)) :
    (t,f) ∈ s.files.inUse ∧ s.calls t ≠ none := by
  obtain ⟨c,inside,same⟩ := inv.asleep r side.cv t sleeping
  obtain ⟨g,member,there⟩ := call_open inv inside
  rw [← cv_injective same] at there
  rw [open_unique inv here there, inside]
  exact ⟨member,by simp⟩

/-- No end of a pipe is opened again, and the end of a call stays open. -/
structure Later (s s' : PipesRun Task Obj Dev) : Prop where
  next : s.memory.nextPipe ≤ s'.memory.nextPipe
  ends : ∀ r side f, r < s.memory.nextPipe → Open s' r side f → Open s r side f
  held : ∀ t r c, s.calls t = some (r,c) → ∃ f, Open s' r (callSide c) f

/-- The invariant after a step that leaves the calls alone and wakes some of them. -/
theorem wakes_inv (inv : PipesInv s) (sameCalls : s'.calls = s.calls) (files : FilesSettled s'.files)
    (memory : MemoryOk s'.memory)
    (ends : ∀ r side f, Open s' r side f ↔
      r < s'.memory.nextPipe ∧ side.fcb (s'.memory.pipes r) = some f)
    (held : ∀ t f, (t,f) ∈ s.files.inUse → s.calls t ≠ none → (t,f) ∈ s'.files.inUse ∧
      stream s' f = stream s f)
    (wakes : s.memory.waits.Wakes s'.memory.waits) : PipesInv s' := by
  refine ⟨files,memory,ends,fun t r c inside => ?_,fun r cv t sleeping => ?_,fun t woken => ?_,
    wakes_sound inv.sound wakes⟩
  · rw [sameCalls] at inside
    obtain ⟨f,member,here⟩ := inv.calls t r c inside
    obtain ⟨member',same⟩ := held t f member (by simp [inside])
    exact ⟨f,member',same.trans here⟩
  · rw [sameCalls]
    exact inv.asleep r cv t ((wakes.asleep (r,cv)).subset sleeping)
  · rw [sameCalls]
    by_cases same : s'.memory.waits.woken t = s.memory.waits.woken t
    · exact inv.woken t (same ▸ woken)
    · obtain ⟨⟨r,cv⟩,was,_⟩ := wakes.changed t same
      obtain ⟨c,inside,_⟩ := inv.asleep r cv t was
      simp [inside]

/-- A system call that opens no pipe. -/
theorem opening_inv {New : Stream Obj → Prop} (inv : PipesInv s) (inv' : FilesSettled files')
    (opening : OpensOnly New s.files.kernel.files files'.kernel.files)
    (others : ∀ f, files'.kernel.files.opens f ≠ s.files.kernel.files.opens f →
      ∃ o, (files'.kernel.files.FT f).stream = .other o)
    (kept : ∀ t f, (t,f) ∈ s.files.inUse → s.calls t ≠ none → (t,f) ∈ files'.inUse) :
    PipesInv { s with files := files' } ∧ Later s { s with files := files' } := by
  have changes := opened_references inv.files inv' opening
  have same (f : FcbRef) (used : 0 < references s.files f) :
      stream { s with files := files' } f = stream s f :=
    opening.kept f ((changes f).2 used)
  have opened (f : FcbRef) (r : PipeRef) (side : Side) :
      Open { s with files := files' } r side f ↔ Open s r side f := by
    constructor
    · rintro ⟨here,used⟩
      by_cases fresh : files'.kernel.files.opens f = s.files.kernel.files.opens f
      · have before := ((changes f).1.mp used).resolve_right (not_not.mpr fresh)
        exact ⟨(same f before).symm.trans here,before⟩
      · obtain ⟨o,foreign⟩ := others f fresh
        exact absurd (foreign.symm.trans here) (by simp)
    · rintro ⟨here,used⟩
      exact ⟨(same f used).trans here,(changes f).1.mpr (Or.inl used)⟩
  have memory : PipesRun.memory { s with files := files' } = s.memory := opening.device
  have held (t : Thread) (f : FcbRef) (member : (t,f) ∈ s.files.inUse)
      (inside : s.calls t ≠ none) : (t,f) ∈ files'.inUse ∧ _ :=
    ⟨kept t f member inside,same f (held_references member)⟩
  refine ⟨wakes_inv inv rfl inv' (memory ▸ inv.memory) (fun r side f => ?_) held ?_,
    ?_,fun r side f _ here => (opened f r side).mp here,fun t r c inside => ?_⟩
  · rw [opened, inv.ends, memory]
  · rw [memory]
    exact .refl _
  · rw [memory]
  · obtain ⟨f,_,isOpen⟩ := call_open inv inside
    exact ⟨f,(opened f r (callSide c)).mpr isOpen⟩

/-- A system call that opens no pipe and returns from none of the calls inside the pipes. -/
theorem files_step (ops : FileOps Obj Dev) (inv : PipesInv s) {a : FileAction Task (Stream Obj)}
    (enabled : FileEnabled s.files a) (run : fileExec (streamOps ops) s.files a = some files')
    (others : ∀ o, a.Opens o → ∃ o', o = .other o')
    (kept : ∀ t f, (t,f) ∈ s.files.inUse → s.calls t ≠ none → (t,f) ∈ files'.inUse) :
    PipesInv { s with files := files' } ∧ Later s { s with files := files' } := by
  obtain ⟨files'',run',inv',kind⟩ := settled_step (streamOps ops) inv.files enabled
  obtain rfl : files'' = files' := Option.some.inj (run'.symm.trans run)
  rcases kind with closing | opening
  · obtain ⟨fs,device,closes⟩ := closing.closed
    obtain ⟨distinct,gone⟩ := closed_references inv.files inv' closing.opens closes
    have opened (f : FcbRef) (r : PipeRef) (side : Side) :
        Open { s with files := files'' } r side f ↔ Open s r side f ∧ f ∉ fs := by
      simp only [Open, stream, closing.streams, (gone f).1, and_assoc]
    have closed := close_all_spec ops s.files.kernel.files.FT fs s.memory inv.memory distinct
      (fun f left g right r side one two =>
        open_unique inv ⟨one,(gone f).2 left⟩ ⟨two,(gone g).2 right⟩)
      (fun f member r side here => by
        have isOpen : Open s r side f := ⟨here,(gone f).2 member⟩
        obtain ⟨made,fcb⟩ := (inv.ends r side f).mp isOpen
        refine ⟨made,by simp [fcb],List.eq_nil_iff_forall_not_mem.mpr fun t sleeping => ?_⟩
        obtain ⟨holding,inside⟩ := sleeper_holds inv isOpen sleeping
        have still := held_references (kept t f holding inside)
        exact ((gone f).1.mp still).2 member)
    change files''.kernel.files.device = closeAll _ _ fs s.memory at device
    rw [← device] at closed
    have held (t : Thread) (f : FcbRef) (member : (t,f) ∈ s.files.inUse)
        (inside : s.calls t ≠ none) : (t,f) ∈ files''.inUse ∧ _ :=
      ⟨kept t f member inside,closing.streams f⟩
    refine ⟨wakes_inv inv rfl inv' closed.ok (fun r side f => ?_) held closed.wakes,
      closed.next.ge,fun r side f _ here => ((opened f r side).mp here).1,fun t r c inside => ?_⟩
    · rw [opened, inv.ends]
      change (r < s.memory.nextPipe ∧ side.fcb (s.memory.pipes r) = some f) ∧ f ∉ fs ↔
        r < files''.kernel.files.device.nextPipe ∧
          side.fcb (files''.kernel.files.device.pipes r) = some f
      rw [closed.next]
      by_cases dying : ∃ g ∈ fs, stream s g = .pipe r side
      · rw [closed.gone r side dying]
        obtain ⟨g,member,here⟩ := dying
        refine ⟨fun before => ?_,fun after => by simp at after⟩
        have same := open_unique inv ((inv.ends r side f).mpr before.1) ⟨here,(gone g).2 member⟩
        exact absurd (same ▸ member) before.2
      · have apart : ∀ g ∈ fs, stream s g ≠ .pipe r side :=
          fun g member here => dying ⟨g,member,here⟩
        rw [closed.kept r side apart]
        refine ⟨fun before => before.1,fun after => ⟨after,fun member => ?_⟩⟩
        exact apart f member ((inv.ends r side f).mpr after).1
    · obtain ⟨f,member,isOpen⟩ := call_open inv inside
      have still := held_references (kept t f member (by simp [inside]))
      exact ⟨f,(opened f r (callSide c)).mpr ⟨isOpen,((gone f).1.mp still).2⟩⟩
  · exact opening_inv inv inv' opening (fun f fresh => others _ (opening.opened f fresh)) kept

theorem in_use_kept {ops : FileOps Obj Dev} {s s' : FileRun Task Obj Dev}
    {a : FileAction Task Obj} (run : fileExec ops s a = some s')
    (member : (t,f) ∈ s.inUse) (other : a ≠ .endTransfer t f) : (t,f) ∈ s'.inUse := by
  cases a with
  | threadExit u =>
    simp only [fileExec, Option.map_eq_some_iff] at run
    obtain ⟨k,_,rfl⟩ := run
    exact member
  | openDevice u opened =>
    simp only [fileExec, Option.map_eq_some_iff] at run
    obtain ⟨k,_,rfl⟩ := run
    exact member
  | startTransfer u fid =>
    simp only [fileExec] at run
    split at run
    · cases run
      exact member
    · cases run
      exact List.mem_cons_of_mem _ member
  | endTransfer u g =>
    cases run
    have apart : (t,f) ≠ (u,g) := by
      rintro same
      cases same
      exact other rfl
    exact (List.mem_erase_of_ne apart).mpr member
  | _ =>
    cases run
    exact member

theorem ordinary_opens {a : FileAction Task (Stream Obj)} (ordinary : Ordinary a = true) :
    ∀ o, a.Opens o → ∃ o', o = .other o' := by
  intro o opens
  cases o with
  | other o => exact ⟨o,rfl⟩
  | pipe r side =>
    cases a with
    | openDevice t opened =>
      cases opens
      simp [Ordinary] at ordinary
    | pipe => simp [Ordinary] at ordinary
    | openInfo | socket | accept =>
      cases opens
      simp [Ordinary] at ordinary
    | _ => exact opens.elim

/-- A change of the memory that touches no end of a pipe. -/
theorem memory_files (inv : PipesInv s) (m : Memory Dev) : FilesSettled (s.setMemory m).files := by
  obtain ⟨ok,balanced,closed⟩ := inv.files
  obtain ⟨nodup,free,counted,held,apart,history⟩ := balanced
  exact ⟨settled_congr ok rfl rfl rfl,⟨nodup,free,counted,held,apart,history⟩,closed⟩

theorem memory_ends (inv : PipesInv s) {m : Memory Dev} (next : m.nextPipe = s.memory.nextPipe)
    (ends : ∀ r (side : Side), side.fcb (m.pipes r) = side.fcb (s.memory.pipes r)) (r : PipeRef)
    (side : Side) (f : FcbRef) :
    Open s r side f ↔ r < m.nextPipe ∧ side.fcb (m.pipes r) = some f := by
  rw [next, ends]
  exact inv.ends r side f

theorem pass_made (inv : PipesInv s) (member : (t,f) ∈ s.files.inUse)
    (here : stream s f = .pipe r side) :
    r < s.memory.nextPipe ∧ side.fcb (s.memory.pipes r) = some f :=
  (inv.ends r side f).mp ⟨here,held_references member⟩

section Passes
variable (inv : PipesInv s) (member : (t,f) ∈ s.files.inUse)
  (here : stream s f = .pipe r (callSide c))
  (awake : ∀ ch, t ∉ s.memory.waits.asleep ch) (unwoken : s.memory.waits.woken t = none)
include inv member here awake unwoken

theorem sleeps_inv (starved : Starved (s.memory.pipes r) (callSide c))
    (isOpen : (callSide c).other.fcb (s.memory.pipes r) ≠ none) :
    PipesInv (endPass s t r c (.sleeps (callSide c).cv,s.memory.pipes r)) := by
  obtain ⟨made,mine⟩ := pass_made inv member here
  let m : Memory Dev := { s.memory with waits := s.memory.waits.wait (r,(callSide c).cv) t }
  have result : endPass s t r c (.sleeps (callSide c).cv,s.memory.pipes r) =
      { s.setMemory m with calls := Function.update s.calls t (some (r,c)) } := by
    simp [endPass, Memory.setPipe, m]
  have only : OnlyPipe s.memory m r := by
    refine ⟨rfl,fun _ _ => rfl,fun _ _ => rfl,fun _ _ => rfl,fun r' cv apart => ?_⟩
    have other : (r',cv) ≠ (r,(callSide c).cv) := fun same => apart (congrArg Prod.fst same)
    simp [m, Waits.wait, other]
  have ok : MemoryOk m := by
    refine only_pipe_ok inv.memory only made (slept_ok (inv.memory.pipes r made) starved ?_ ?_)
    · intro other
      rcases side_cases (callSide c) other with rfl | rfl
      · exact mine.trans_ne (Option.some_ne_none f)
      · exact isOpen
    · intro cv u there
      rcases mem_wait.mp there with old | new
      · exact Or.inl old
      · exact Or.inr (congrArg Prod.snd new.1)
  rw [result]
  refine ⟨memory_files inv m,ok,memory_ends inv rfl (fun _ _ => rfl),fun u r' c' inside => ?_,
    fun r' cv u there => ?_,fun u woken => ?_,wait_sound inv.sound _ awake unwoken⟩
  · by_cases same : u = t
    · subst same
      simp only [Function.update_self, Option.some.injEq, Prod.mk.injEq] at inside
      obtain ⟨rfl,rfl⟩ := inside
      exact ⟨f,member,here⟩
    · simp only [Function.update_of_ne same] at inside
      exact inv.calls u r' c' inside
  · rcases mem_wait.mp there with old | ⟨new,rfl⟩
    · have apart : u ≠ t := by
        rintro rfl
        exact awake _ old
      simp only [Function.update_of_ne apart]
      exact inv.asleep r' cv u old
    · cases new
      exact ⟨c,by simp,rfl⟩
  · by_cases same : u = t
    · simp [same]
    · simp only [Function.update_of_ne same]
      exact inv.woken u woken

theorem returns_inv {p' : PipeCB} {value : Int} {data : List Byte} {broadcast : Option PipeCV}
    (outcome : PassOutcome c (s.memory.pipes r) (.returns value data broadcast,p')) :
    PipesInv (endPass s t r c (.returns value data broadcast,p')) := by
  obtain ⟨made,_⟩ := pass_made inv member here
  have before := inv.memory.pipes r made
  obtain ⟨wakes,elsewhere,woken⟩ := wake_all_spec (s.memory.setPipe r p') r broadcast
  let m := (s.memory.setPipe r p').wakeAll r broadcast
  have others : m = { s.memory with
      pipes := Function.update s.memory.pipes r p', waits := m.waits } := by
    cases broadcast <;> rfl
  have only : OnlyPipe s.memory m r := by
    rw [others]
    exact ⟨rfl,fun r' apart => by simp [apart],fun _ _ => rfl,fun _ _ => rfl,elsewhere⟩
  have ends : ∀ side : Side, side.fcb p' = side.fcb (s.memory.pipes r) := by
    cases broadcast with
    | none => exact fun side => congrArg (Side.fcb · side) outcome
    | some cv => exact outcome.2.2.2
  have fewer (cv : PipeCV) : m.waits.asleep (r,cv) ⊆ s.memory.waits.asleep (r,cv) :=
    (wakes.asleep (r,cv)).subset
  have block : m.pipes r = p' := by
    rw [others]
    simp
  have ok : MemoryOk m := by
    refine only_pipe_ok inv.memory only made ?_
    rw [block, others]
    cases broadcast with
    | none =>
      obtain rfl : p' = s.memory.pipes r := outcome
      exact before
    | some cv =>
      obtain ⟨rfl,moved,wf,_⟩ := outcome
      exact returned_ok before moved wf ends fewer (woken _ rfl)
  have sameEnds (r' : PipeRef) (side : Side) :
      side.fcb (m.pipes r') = side.fcb (s.memory.pipes r') := by
    by_cases same : r' = r
    · rw [same, block, ends]
    · rw [only.pipes r' same]
  change PipesInv { s.setMemory m with calls := Function.update s.calls t none }
  refine ⟨memory_files inv m,ok,memory_ends inv only.next sameEnds,fun u r' c' inside => ?_,
    fun r' cv u there => ?_,fun u awoken => ?_,wakes_sound inv.sound wakes⟩
  · by_cases same : u = t
    · simp [same] at inside
    · simp only [Function.update_of_ne same] at inside
      exact inv.calls u r' c' inside
  · have old := (wakes.asleep (r',cv)).subset there
    have apart : u ≠ t := by
      rintro rfl
      exact awake _ old
    simp only [Function.update_of_ne apart]
    exact inv.asleep r' cv u old
  · have apart : u ≠ t := by
      rintro rfl
      exact awoken ((wakes_awake wakes awake).trans unwoken)
    simp only [Function.update_of_ne apart]
    by_cases same : m.waits.woken u = s.memory.waits.woken u
    · exact inv.woken u (same ▸ awoken)
    · obtain ⟨⟨r',cv⟩,was,_⟩ := wakes.changed u same
      obtain ⟨c',inside,_⟩ := inv.asleep r' cv u was
      simp [inside]

/-- A pass of a thread that is awake inside the pipe keeps the invariant. -/
theorem pass_inv {result : Pass × PipeCB} (outcome : PassOutcome c (s.memory.pipes r) result) :
    PipesInv (endPass s t r c result) ∧ Later s (endPass s t r c result) := by
  have later (calls : Thread → Option (PipeRef × Call)) {m : Memory Dev}
      (next : m.nextPipe = s.memory.nextPipe) : Later s { s.setMemory m with calls := calls } :=
    ⟨next.ge,fun r side f _ => id,fun u r' c' inside => by
      obtain ⟨g,_,isOpen⟩ := call_open inv inside
      exact ⟨g,isOpen⟩⟩
  obtain ⟨pass,p'⟩ := result
  cases pass with
  | sleeps cv =>
    obtain ⟨rfl,rfl,starved,isOpen⟩ := outcome
    exact ⟨sleeps_inv inv member here awake unwoken starved isOpen,later _ rfl⟩
  | returns value data broadcast =>
    refine ⟨returns_inv inv member here awake unwoken outcome,later _ ?_⟩
    cases broadcast <;> rfl

end Passes

theorem resume_inv (inv : PipesInv s) {signalled : Bool}
    (woken : s.memory.waits.woken t = some signalled) :
    let s' := s.setMemory { s.memory with waits := s.memory.waits.resume t }
    PipesInv s' ∧ (∀ ch, t ∉ s'.memory.waits.asleep ch) ∧ s'.memory.waits.woken t = none := by
  intro s'
  refine ⟨⟨memory_files inv _,⟨inv.memory.pipes,inv.memory.fresh⟩,inv.ends,inv.calls,inv.asleep,
    fun u woken' => ?_,resume_sound inv.sound t⟩,fun ch sleeping => ?_,?_⟩
  · by_cases same : u = t
    · subst same
      exact inv.woken u (by simp [woken])
    · have other : s'.memory.waits.woken u = s.memory.waits.woken u :=
        Function.update_of_ne same _ _
      exact inv.woken u (other ▸ woken')
  · have unwoken := inv.sound.unwoken ch t sleeping
    simp [woken] at unwoken
  · exact Function.update_self _ _ _

theorem make_pipe_block (m : Memory Dev) (reader writer : Option FcbRef) (r : PipeRef) :
    (makePipe m reader writer).pipes r = if r = m.nextPipe then
      acquirePipeCB reader writer (m.pipes m.nextPipe).BUFFER else m.pipes r := by
  by_cases same : r = m.nextPipe
  · simp [makePipe, Memory.setPipe, same]
  · simp [makePipe, Memory.setPipe, same]

theorem made_ok (ok : MemoryOk m) (f g : FcbRef) : MemoryOk (makePipe m (some f) (some g)) := by
  constructor
  · intro r made
    by_cases same : r = m.nextPipe
    · obtain ⟨closes,frees,asleep⟩ := ok.fresh r (Nat.le_of_eq same.symm)
      subst same
      rw [make_pipe_block, if_pos rfl]
      refine ⟨acquired_wellFormed _ _ _,fun side => ?_,?_,fun side t member => ?_⟩
      · refine (closes side).trans ?_
        cases side <;> rfl
      · exact frees
      · have nobody : t ∈ m.waits.asleep (m.nextPipe,side.cv) := member
        rw [asleep] at nobody
        cases nobody
    · have old : r < m.nextPipe := Nat.lt_of_le_of_ne (Nat.lt_succ_iff.mp made) same
      rw [make_pipe_block, if_neg same]
      exact ok.pipes r old
  · intro r fresh
    exact ok.fresh r (Nat.le_of_succ_le fresh)

/-- The two FCBs of a new pipe are its ends, and the other ends are as before. -/
theorem made_opens (inv : PipesInv s) {New : Stream Obj → Prop} (inv' : FilesSettled files')
    (opening : OpensOnly New s.files.kernel.files files'.kernel.files) {f g : FcbRef}
    (apart : f ≠ g) (reader : (files'.kernel.files.FT f).stream = .pipe s.memory.nextPipe .reader)
    (writer : (files'.kernel.files.FT g).stream = .pipe s.memory.nextPipe .writer)
    (opens : ∀ h, files'.kernel.files.opens h =
      s.files.kernel.files.opens h + if h = f ∨ h = g then 1 else 0)
    (garbage : Int → Byte) (r : PipeRef) (side : Side) (h : FcbRef) :
    Open { s with files := files' } r side h ↔ Open s r side h ∨
      r = s.memory.nextPipe ∧ side.fcb (acquirePipeCB (some f) (some g) garbage) = some h := by
  obtain ⟨used,fresh⟩ := opened_references inv.files inv' opening h
  have count := opens h
  have place : side.fcb (acquirePipeCB (some f) (some g) garbage) = some h ↔
      side = .reader ∧ h = f ∨ side = .writer ∧ h = g := by
    cases side <;> simp [Side.fcb, acquirePipeCB, eq_comm]
  rw [place]
  by_cases new : h = f ∨ h = g
  · rw [if_pos new] at count
    have unused : ¬ Open s r side h := by
      rintro ⟨_,before⟩
      have same := fresh before
      omega
    have now : 0 < references files' h := used.mpr (Or.inr (by omega))
    rcases new with rfl | rfl
    · simp only [Open, stream, reader, now, Stream.pipe.injEq]
      grind
    · simp only [Open, stream, writer, now, Stream.pipe.injEq]
      grind
  · rw [if_neg new] at count
    have same := opening.kept h count
    have before : 0 < references files' h ↔ 0 < references s.files h := by
      rw [used]
      omega
    simp only [Open, stream, same, before]
    grind

theorem open_pipe_inv (inv : PipesInv s) (idle : s.files.Idle t) :
    PipesInv (openPipe s t) ∧ Later s (openPipe s t) := by
  obtain ⟨result,k,run,step,outcome⟩ := pipe_spec inv.files.balanced t.1
    (.pipe s.memory.nextPipe .reader) (.pipe s.memory.nextPipe .writer)
  have inv' : FilesSettled { s.files with kernel := k } := opened_settled inv.files idle step
  cases result with
  | none =>
    simp only [openPipe, run]
    exact opening_inv inv inv' step.opening (fun f fresh => absurd (congrFun outcome f) fresh)
      (fun _ _ member _ => member)
  | some fids =>
    obtain ⟨f,g,first,second,apart,reader,writer,opens⟩ := outcome
    have opened := made_opens inv inv' step.opening apart reader writer opens
      (s.memory.pipes s.memory.nextPipe).BUFFER
    obtain ⟨ok,balanced,closed⟩ := inv'
    obtain ⟨nodup,free,counted,held,pending,history⟩ := balanced
    simp only [openPipe, run, first, second]
    refine ⟨⟨⟨settled_congr ok rfl rfl rfl,⟨nodup,free,counted,held,pending,history⟩,closed⟩,
      made_ok inv.memory f g,fun r side h => (opened r side h).trans ?_,fun u r c inside => ?_,
      inv.asleep,inv.woken,inv.sound⟩,Nat.le_succ _,fun r side h old isOpen => ?_,
      fun u r c inside => ?_⟩
    · change _ ↔ r < s.memory.nextPipe + 1 ∧
        side.fcb ((makePipe s.memory (some f) (some g)).pipes r) = some h
      rw [inv.ends, make_pipe_block]
      by_cases same : r = s.memory.nextPipe
      · simp [same]
      · simp only [same, if_false, false_and, or_false]
        have below : r < s.memory.nextPipe ↔ r < s.memory.nextPipe + 1 :=
          ⟨Nat.lt_succ_of_lt,fun less => Nat.lt_of_le_of_ne (Nat.lt_succ_iff.mp less) same⟩
        rw [below]
    · obtain ⟨h,member,isOpen⟩ := call_open inv inside
      refine ⟨h,member,((opened r (callSide c) h).mpr (Or.inl isOpen)).1⟩
    · rcases (opened r side h).mp isOpen with before | ⟨rfl,_⟩
      · exact before
      · exact absurd old (Nat.lt_irrefl _)
    · obtain ⟨h,_,isOpen⟩ := call_open inv inside
      exact ⟨h,(opened r (callSide c) h).mpr (Or.inl isOpen)⟩

theorem awake_outside (inv : PipesInv s) (outside : s.calls t = none) :
    (∀ ch, t ∉ s.memory.waits.asleep ch) ∧ s.memory.waits.woken t = none := by
  constructor
  · rintro ⟨r,cv⟩ sleeping
    obtain ⟨c,inside,_⟩ := inv.asleep r cv t sleeping
    simp [outside] at inside
  · by_contra woken
    exact inv.woken t woken outside

theorem idle_outside (inv : PipesInv s) (idle : s.files.Idle t) : s.calls t = none := by
  cases inside : s.calls t with
  | none => rfl
  | some rc =>
    obtain ⟨f,member,_⟩ := inv.calls t rc.1 rc.2 inside
    exact absurd (List.mem_map_of_mem member) idle.2

theorem transfer_step (ops : FileOps Obj Dev) (inv : PipesInv s) {fid : Int}
    (idle : s.files.Idle t) : ∃ s', pipesExec ops s (.transfer t fid c) = some s' ∧
      PipesInv s' ∧ Later s s' := by
  obtain ⟨files,run,_,_⟩ := settled_step (streamOps ops) inv.files
    (a := .startTransfer t fid) idle
  obtain ⟨inv',later⟩ := files_step ops inv (a := .startTransfer t fid) idle run
    (fun _ => False.elim) (fun u g member _ => in_use_kept run member (by simp))
  simp only [pipesExec, run, Option.bind_eq_bind, Option.bind_some]
  cases found : getFcb s.files.kernel t.1 fid with
  | none => exact ⟨_,rfl,inv',later⟩
  | some f =>
    refine ⟨_,rfl,?_⟩
    cases here : (files.kernel.files.FT f).stream with
    | other o => exact ⟨inv',later⟩
    | pipe r side =>
      by_cases mine : callSide c = side
      · subst mine
        have member : (t,f) ∈ files.inUse := by
          simp only [fileExec, startTransfer, found, Option.some.injEq] at run
          subst run
          exact List.mem_cons_self
        have outside : s.calls t = none := idle_outside inv idle
        obtain ⟨awake,unwoken⟩ := awake_outside inv' outside
        have made := (pass_made inv' member here).1
        have outcome := first_pass_outcome c (inv'.memory.pipes r made).wellFormed
        obtain ⟨inv'',later'⟩ := pass_inv inv' member here awake unwoken outcome
        simp only [startMethod, if_true]
        exact ⟨inv'',later.next.trans later'.next,
          fun r side f old isOpen => later.ends r side f old
            (later'.ends r side f (Nat.lt_of_lt_of_le old later.next) isOpen),
          later'.held⟩
      · simp only [startMethod, mine, if_false]
        exact ⟨inv',later⟩

theorem resume_step (ops : FileOps Obj Dev) (inv : PipesInv s)
    (enabled : PipesEnabled s (.resume t)) : ∃ s', pipesExec ops s (.resume t) = some s' ∧
      PipesInv s' ∧ Later s s' := by
  obtain ⟨inside,woken⟩ := enabled
  obtain ⟨⟨r,c⟩,inside⟩ := Option.isSome_iff_exists.mp inside
  obtain ⟨signalled,woken⟩ := Option.isSome_iff_exists.mp woken
  obtain ⟨inv',awake,unwoken⟩ := resume_inv inv woken
  obtain ⟨f,member,here⟩ := inv'.calls t r c inside
  have made := (pass_made inv' member here).1
  have outcome := next_pass_outcome c (inv'.memory.pipes r made).wellFormed
  obtain ⟨inv'',later⟩ := pass_inv inv' member here awake unwoken outcome
  exact ⟨_,by simp only [pipesExec, inside, Option.bind_eq_bind, Option.bind_some],inv'',
    later.next,later.ends,later.held⟩

/-- A step keeps the invariant and opens no end again. -/
theorem pipes_step (ops : FileOps Obj Dev) (inv : PipesInv s) {a : PipesAction Task Obj Dev}
    (enabled : PipesEnabled s a) : ∃ s', pipesExec ops s a = some s' ∧ PipesInv s' ∧
      Later s s' := by
  cases a with
  | call a =>
    obtain ⟨enabled,ordinary⟩ := enabled
    obtain ⟨files,run,_,_⟩ := settled_step (streamOps ops) inv.files enabled
    refine ⟨{ s with files := files },by simp [pipesExec, run],?_⟩
    refine files_step ops inv enabled run (ordinary_opens ordinary) (fun u f member _ => ?_)
    refine in_use_kept run member ?_
    rintro rfl
    simp [Ordinary] at ordinary
  | pipe t => exact ⟨_,rfl,open_pipe_inv inv enabled⟩
  | transfer t fid c => exact transfer_step ops inv enabled
  | resume t => exact resume_step ops inv enabled
  | endTransfer t f =>
    obtain ⟨member,outside⟩ := enabled
    obtain ⟨files,run,_,_⟩ := settled_step (streamOps ops) inv.files (a := .endTransfer t f) member
    refine ⟨{ s with files := files },by simp [pipesExec, run],?_⟩
    refine files_step ops inv (a := .endTransfer t f) member run (fun _ => False.elim)
      (fun u g member inside => in_use_kept run member ?_)
    rintro same
    cases same
    exact inside outside
  | device d =>
    refine ⟨_,rfl,⟨memory_files inv _,⟨inv.memory.pipes,inv.memory.fresh⟩,inv.ends,inv.calls,
      inv.asleep,inv.woken,inv.sound⟩,Nat.le_refl _,fun _ _ _ _ => id,fun t r c inside => ?_⟩
    obtain ⟨f,_,isOpen⟩ := call_open inv inside
    exact ⟨f,isOpen⟩

theorem start_pipes_inv (blank : Stream Obj) (pipes : PipeRef → PipeCB) (others : Dev) (task : Task)
    (argl : Int) (args : Option (List UInt8)) :
    PipesInv
      { files :=
          { kernel := boot (initializeFiles blank
              { pipes := pipes, nextPipe := 0, waits := .empty _ _, others := others
                closes := fun _ _ => 0, frees := fun _ => 0 }) task argl args
            inUse := [] }
        calls := fun _ => none } := by
  set memory : Memory Dev := { pipes := pipes, nextPipe := 0, waits := .empty _ _, others := others
                               closes := fun _ _ => 0, frees := fun _ => 0 } with start
  have files := start_settled blank memory task argl args
  have same := (boot_files (initializeFiles blank memory) task argl args).1
  have device : (boot (initializeFiles blank memory) task argl args).files.device = memory := by
    rw [same]
    rfl
  have unused (f : FcbRef) : references
      { kernel := boot (initializeFiles blank memory) task argl args, inUse := [] } f = 0 := by
    refine (free_iff files f).mp ?_
    rw [same]
    exact initial_freelist f
  refine ⟨files,?_,fun r side f => ?_,by simp,fun r cv t sleeping => ?_,fun t woken => ?_,?_⟩
  · refine ⟨fun r made => ?_,fun r _ => ?_⟩
    · simp only [PipesRun.memory, device] at made
      exact absurd made (Nat.not_lt_zero r)
    · simp only [PipesRun.memory, device]
      exact ⟨fun _ => rfl,rfl,fun _ => rfl⟩
  · constructor
    · rintro ⟨_,used⟩
      exact absurd (unused f) (Nat.pos_iff_ne_zero.mp used)
    · rintro ⟨made,_⟩
      simp only [PipesRun.memory, device] at made
      exact absurd made (Nat.not_lt_zero r)
  · simp only [PipesRun.memory, device] at sleeping
    cases sleeping
  · simp only [PipesRun.memory, device] at woken
    exact absurd rfl woken
  · simp only [PipesRun.memory, device]
    exact empty_sound

theorem pipes_reach_inv (ops : FileOps Obj Dev) (reach : (pipesSystem Task ops).Reach s) :
    PipesInv s := by
  refine inductive_reach ⟨?_,?_⟩ reach
  · rintro s ⟨blank,pipes,others,task,argl,args,rfl⟩
    exact start_pipes_inv blank pipes others task argl args
  · intro s a s' inv move
    obtain ⟨s'',run,inv',_⟩ := pipes_step ops inv move.1
    obtain rfl : s' = s'' := Option.some.inj (move.2.symm.trans run)
    exact inv'

/-- Some FCB of one of the two ends is in use. -/
def Referenced (s : PipesRun Task Obj Dev) (r : PipeRef) : Prop := ∃ side f, Open s r side f

theorem referenced_iff (inv : PipesInv s) (made : r < s.memory.nextPipe) :
    Referenced s r ↔ ¬ ((s.memory.pipes r).reader = none ∧ (s.memory.pipes r).writer = none) := by
  constructor
  · rintro ⟨side,f,isOpen⟩ closed
    have fcb := ((inv.ends r side f).mp isOpen).2
    have gone := ((both_ends _ side).mp closed).1
    rw [gone] at fcb
    cases fcb
  · intro someEnd
    by_contra unused
    have gone (side : Side) : side.fcb (s.memory.pipes r) = none := by
      by_contra isOpen
      obtain ⟨f,fcb⟩ := Option.ne_none_iff_exists'.mp isOpen
      exact unused ⟨side,f,(inv.ends r side f).mpr ⟨made,fcb⟩⟩
    exact someEnd ⟨gone .reader,gone .writer⟩

theorem frees_eq (inv : PipesInv s) (made : r < s.memory.nextPipe) :
    (Referenced s r → s.memory.frees r = 0) ∧ (¬ Referenced s r → s.memory.frees r = 1) := by
  have frees := (inv.memory.pipes r made).frees
  rw [referenced_iff inv made]
  constructor
  · intro someEnd
    rw [frees, if_neg someEnd]
  · intro gone
    rw [frees, if_pos (not_not.mp gone)]

theorem inside_referenced (inv : PipesInv s) (inside : s.calls t = some (r,c)) :
    Referenced s r := by
  obtain ⟨f,_,isOpen⟩ := call_open inv inside
  exact ⟨callSide c,f,isOpen⟩

theorem asleep_spec (inv : PipesInv s) (side : Side)
    (sleeping : t ∈ s.memory.waits.asleep (r,side.cv)) :
    Starved (s.memory.pipes r) side ∧ ∃ f, side.other.fcb (s.memory.pipes r) = some f ∧
      Open s r side.other f := by
  obtain ⟨c,inside,_⟩ := inv.asleep r side.cv t sleeping
  obtain ⟨g,member,here⟩ := inv.calls t r c inside
  obtain ⟨made,_⟩ := pass_made inv member here
  obtain ⟨starved,isOpen⟩ := (inv.memory.pipes r made).asleep side t sleeping
  obtain ⟨f,fcb⟩ := Option.ne_none_iff_exists'.mp (isOpen side.other)
  exact ⟨starved,f,fcb,(inv.ends r side.other f).mpr ⟨made,fcb⟩⟩

/-- Whoever sleeps on has_data finds the pipe empty and its write end open, and whoever sleeps
    on has_space finds it full and its read end open. -/
theorem pipe_wakeups_kept (ops : FileOps Obj Dev) (reach : (pipesSystem Task ops).Reach s)
    (r : PipeRef) (t : Thread) :
    (t ∈ s.memory.waits.asleep (r,.hasData) → (s.memory.pipes r).usedSpace = 0 ∧
      ∃ f, (s.memory.pipes r).writer = some f ∧ Open s r .writer f) ∧
    (t ∈ s.memory.waits.asleep (r,.hasSpace) → (s.memory.pipes r).usedSpace = pipeBufferSize ∧
      ∃ f, (s.memory.pipes r).reader = some f ∧ Open s r .reader f) := by
  have inv := pipes_reach_inv ops reach
  exact ⟨asleep_spec inv .reader,asleep_spec inv .writer⟩

/- A thread of init reads from an empty pipe. -/
def emptyRead : List (PipesAction Unit Unit Unit) := [.pipe (1,0),.transfer (1,0) 0 (.read 1)]

theorem pipe_wakeups_kept_empty : ∃ s, (pipesSystem Unit bareOps).Reach s ∧
    (1,0) ∈ s.memory.waits.asleep (0,.hasData) ∧ (s.memory.pipes 0).usedSpace = 0 ∧
    ∃ f, (s.memory.pipes 0).writer = some f ∧ Open s 0 .writer f := by
  have reach := play_reach (m := pipesSystem Unit bareOps)
    ⟨.other (),fun _ => acquirePipeCB none none (fun _ => 0),(),(),0,none,rfl⟩ emptyRead rfl
  have sleeping := (pipe_wakeups_kept bareOps reach 0 (1,0)).1 (by decide)
  exact ⟨_,reach,by decide,sleeping⟩

/-- A pipe is freed once, in the step that gives up the last reference to its ends; nobody is
    inside it then, and each of its ends is closed at most once. -/
theorem plain_pipe_freed_once (ops : FileOps Obj Dev) (reach : (pipesSystem Task ops).Reach s)
    (made : r < s.memory.nextPipe) :
    (∀ side, s.memory.closes r side ≤ 1) ∧
    (s.memory.frees r = 0 ∧ Referenced s r ∨ s.memory.frees r = 1 ∧ ¬ Referenced s r) ∧
    ∀ a, PipesEnabled s a → ∃ s', pipesExec ops s a = some s' ∧
      (s'.memory.frees r = s.memory.frees r + 1 ↔ Referenced s r ∧ ¬ Referenced s' r) ∧
      (s'.memory.frees r ≠ s.memory.frees r → s'.memory.frees r = s.memory.frees r + 1 ∧
        ∀ t c, s.calls t ≠ some (r,c) ∧ s'.calls t ≠ some (r,c)) := by
  have inv := pipes_reach_inv ops reach
  obtain ⟨held,gone⟩ := frees_eq inv made
  refine ⟨fun side => ?_,?_,fun a enabled => ?_⟩
  · rw [(inv.memory.pipes r made).closes]
    split <;> omega
  · by_cases used : Referenced s r
    · exact Or.inl ⟨held used,used⟩
    · exact Or.inr ⟨gone used,used⟩
  · obtain ⟨s',run,inv',later⟩ := pipes_step ops inv enabled
    obtain ⟨held',gone'⟩ := frees_eq inv' (Nat.lt_of_lt_of_le made later.next)
    have before : Referenced s' r → Referenced s r :=
      fun ⟨side,f,isOpen⟩ => ⟨side,f,later.ends r side f made isOpen⟩
    refine ⟨s',run,?_,fun changed => ?_⟩
    · by_cases used : Referenced s' r
      · simp [used, held', held (before used)]
      · by_cases was : Referenced s r
        · simp [used, was, gone' used, held was]
        · simp [used, was, gone' used, gone was]
    · have ended : ¬ Referenced s' r := fun used => changed
        ((held' used).trans (held (before used)).symm)
      have was : Referenced s r := by
        by_contra unused
        exact changed ((gone' ended).trans (gone unused).symm)
      refine ⟨by rw [gone' ended, held was],fun t c => ⟨fun inside => ?_,fun inside => ?_⟩⟩
      · obtain ⟨f,isOpen⟩ := later.held t r c inside
        exact ended ⟨callSide c,f,isOpen⟩
      · exact ended (inside_referenced inv' inside)

/- Both ends of a pipe are closed. -/
def closedPipe : List (PipesAction Unit Unit Unit) :=
  [.pipe (1,0),.call (.close (1,0) 0),.call (.close (1,0) 1)]

theorem plain_pipe_freed_once_closed : ∃ s, (pipesSystem Unit bareOps).Reach s ∧
    s.memory.frees 0 = 1 ∧ ¬ Referenced s 0 := by
  have reach := play_reach (m := pipesSystem Unit bareOps)
    ⟨.other (),fun _ => acquirePipeCB none none (fun _ => 0),(),(),0,none,rfl⟩ closedPipe rfl
  refine ⟨_,reach,?_⟩
  rcases (plain_pipe_freed_once bareOps reach (r := 0) (by decide)).2.1 with ⟨live,_⟩ | freed
  · exact absurd live (by decide)
  · exact freed

end PlainPipe
