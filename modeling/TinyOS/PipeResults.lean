import TinyOS.PipeLifetime

/- What Read and Write on a pipe of sys_Pipe return: the end of file, the broken pipe, and how
   many bytes otherwise. -/
namespace PlainPipe
open KernelStreams KernelProc KernelPipe Monitor Transition

section Values
variable {p : PipeCB} {c : Call}

/- The result for a pipe whose other end is closed. -/
def endValue : Side → Int
  | .reader => 0
  | .writer => -1

/- The argument n. -/
def callSize : Call → Nat
  | .read n => n
  | .write buf => buf.length

/-- There is nothing left to wait for: the other end is closed and, for a reader, the buffer is
    empty. -/
def Spent (p : PipeCB) (side : Side) : Prop :=
  side.other.fcb p = none ∧ (side = .reader → p.usedSpace = 0)

theorem read_loop_length (n : Nat) : ∀ p : PipeCB, (readLoop n p).1.length ≤ n ∧
    (0 < p.usedSpace → 0 < n → 0 < (readLoop n p).1.length) ∧
    (¬ 0 < p.usedSpace → (readLoop n p).1 = []) := by
  induction n with
  | zero => simp [readLoop]
  | succ n ih =>
    intro p
    by_cases holds : 0 < p.usedSpace
    · have length := (ih (takeByte p).2).1
      simp only [readLoop, gt_iff_lt, if_pos holds, List.length_cons]
      exact ⟨by omega,by omega,fun none => absurd holds none⟩
    · simp [readLoop, holds]

theorem write_loop_count (buf : List Byte) : ∀ p : PipeCB, (writeLoop buf p).1 ≤ buf.length ∧
    (p.usedSpace < pipeBufferSize → buf ≠ [] → 0 < (writeLoop buf p).1) := by
  induction buf with
  | nil => simp [writeLoop]
  | cons b buf ih =>
    intro p
    by_cases room : p.usedSpace < pipeBufferSize
    · have count := (ih (putByte p b)).1
      simp only [writeLoop, if_pos room, List.length_cons]
      exact ⟨by omega,fun _ _ => by omega⟩
    · simp only [writeLoop, if_neg room]
      exact ⟨Nat.zero_le _,fun yes => absurd yes room⟩

/-- The value that a pass returns, for a pipe whose own end is open. -/
structure ResultOk (c : Call) (p : PipeCB) (value : Int) (data : List Byte) : Prop where
  ends : value = endValue (callSide c) ↔ Spent p (callSide c)
  moves : ¬ Spent p (callSide c) → 1 ≤ value ∧ value ≤ callSize c ∧ data.length = value
  data : c.put data = (match c with | .read _ => [] | .write buf => buf.take data.length)

theorem next_pass_result (c : Call) (wf : WellFormed p) (size : 0 < callSize c) {value : Int}
    {data : List Byte} {broadcast : Option PipeCV}
    (pass : (c.nextPass p).1 = .returns value data broadcast) : ResultOk c p value data := by
  have used := wf.used_nonneg
  cases c with
  | read n =>
    change (readPass n p).1 = _ at pass
    obtain ⟨most,some',none'⟩ := read_loop_length n p
    unfold readPass at pass
    split at pass
    · cases pass
    · rename_i goes
      cases pass
      by_cases holds : 0 < p.usedSpace
      · have moved := some' holds size
        have unspent : ¬ Spent p .reader := fun spent => by
          have := spent.2 rfl
          omega
        exact ⟨⟨fun zero => by simp only [callSide, endValue] at zero; omega,
          fun spent => absurd spent unspent⟩,
          fun _ => ⟨by omega,by simp only [callSize]; omega,rfl⟩,rfl⟩
      · have empty : p.usedSpace = 0 := by omega
        have closed : p.writer = none := by
          by_contra isOpen
          exact goes ⟨empty,isOpen⟩
        have spent : Spent p .reader := ⟨closed,fun _ => empty⟩
        rw [none' holds]
        exact ⟨⟨fun _ => spent,fun _ => rfl⟩,fun unspent => absurd spent unspent,rfl⟩
  | write buf =>
    change (writePass buf p).1 = _ at pass
    obtain ⟨most,some'⟩ := write_loop_count buf p
    have full := wf.used_le
    unfold writePass at pass
    split at pass
    · cases pass
    · rename_i goes
      split at pass
      · rename_i closed
        cases pass
        have spent : Spent p .writer := ⟨closed,by simp⟩
        exact ⟨⟨fun _ => spent,fun _ => rfl⟩,fun unspent => absurd spent unspent,rfl⟩
      · rename_i isOpen
        cases pass
        have room : p.usedSpace < pipeBufferSize := by
          have apart : p.usedSpace ≠ pipeBufferSize := fun same => goes ⟨same,isOpen⟩
          omega
        have moved := some' room (List.length_pos_iff.mp size)
        have unspent : ¬ Spent p .writer := fun spent => isOpen spent.1
        have taken : (buf.take (writeLoop buf p).1).length = (writeLoop buf p).1 := by
          rw [List.length_take]
          omega
        refine ⟨⟨fun broken => ?_,fun spent => absurd spent unspent⟩,
          fun _ => ⟨by omega,by simp only [callSize]; omega,by rw [taken]⟩,?_⟩
        · simp only [callSide, endValue] at broken
          omega
        · simp only [Call.put, taken]

/-- The first pass of a call on an open end of a pipe is like the later ones. -/
theorem first_pass_open (c : Call) (isOpen : (callSide c).fcb p ≠ none) :
    c.firstPass p = c.nextPass p ∨
      ∃ buf, c = .write buf ∧ p.reader = none ∧ c.firstPass p = (.returns (-1) [] none,p) := by
  cases c with
  | read n =>
    left
    exact if_neg isOpen
  | write buf =>
    by_cases closed : p.reader = none
    · exact Or.inr ⟨buf,rfl,closed,if_pos (Or.inl closed)⟩
    · left
      exact if_neg (not_or.mpr ⟨closed,isOpen⟩)

theorem first_pass_result (c : Call) (wf : WellFormed p) (isOpen : (callSide c).fcb p ≠ none)
    (size : 0 < callSize c) {value : Int} {data : List Byte} {broadcast : Option PipeCV}
    (pass : (c.firstPass p).1 = .returns value data broadcast) : ResultOk c p value data := by
  rcases first_pass_open c isOpen with same | ⟨buf,rfl,closed,run⟩
  · rw [same] at pass
    exact next_pass_result c wf size pass
  · rw [run] at pass
    cases pass
    have spent : Spent p .writer := ⟨closed,by simp⟩
    exact ⟨⟨fun _ => spent,fun _ => rfl⟩,fun unspent => absurd spent unspent,rfl⟩

/-- A call on a spent pipe does not sleep. -/
theorem spent_pass (c : Call) (spent : Spent p (callSide c)) :
    (∃ value data broadcast, (c.nextPass p).1 = .returns value data broadcast) ∧
    ((callSide c).fcb p ≠ none → ∃ value data broadcast,
      (c.firstPass p).1 = .returns value data broadcast) := by
  have next : ∃ value data broadcast, (c.nextPass p).1 = .returns value data broadcast := by
    cases c with
    | read n =>
      change ∃ value data broadcast, (readPass n p).1 = _
      unfold readPass
      rw [if_neg (fun waits => waits.2 spent.1)]
      exact ⟨_,_,_,rfl⟩
    | write buf =>
      change ∃ value data broadcast, (writePass buf p).1 = _
      have closed : p.reader = none := spent.1
      unfold writePass
      rw [if_neg (fun waits => waits.2 closed), if_pos closed]
      exact ⟨_,_,_,rfl⟩
  refine ⟨next,fun isOpen => ?_⟩
  rcases first_pass_open c isOpen with same | ⟨buf,rfl,closed,run⟩
  · rw [same]
    exact next
  · rw [run]
    exact ⟨_,_,_,rfl⟩

end Values

section Traffic
variable {Task Obj Dev : Type}

/- History: the bytes that Reads on a pipe have delivered and Writes to it have put in. -/
structure Traffic where
  delivered : PipeRef → List Byte
  accepted : PipeRef → List Byte

/- The pass through pipe_read or pipe_write that an action makes. -/
def passOf (s : PipesRun Task Obj Dev) :
    PipesAction Task Obj Dev → Option (PipeRef × Call × Pass)
  | .transfer t fid c => do
    let f ← getFcb s.files.kernel t.1 fid
    match stream s f with
    | .pipe r side =>
      if callSide c = side then some (r,c,(c.firstPass (s.memory.pipes r)).1) else none
    | .other _ => none
  | .resume t => do
    let (r, c) ← s.calls t
    some (r,c,(c.nextPass (s.memory.pipes r)).1)
  | _ => none

def Traffic.add (h : Traffic) : Option (PipeRef × Call × Pass) → Traffic
  | some (r, c, .returns _ data _) =>
    { delivered := Function.update h.delivered r (h.delivered r ++ c.taken data)
      accepted := Function.update h.accepted r (h.accepted r ++ c.put data) }
  | _ => h

@[simp] theorem add_none (h : Traffic) : h.add none = h := rfl

@[simp] theorem add_sleeps (h : Traffic) (r : PipeRef) (c : Call) (cv : PipeCV) :
    h.add (some (r,c,.sleeps cv)) = h := rfl

/- The pipes with the history of their traffic. -/
def trafficSystem (Task : Type) (ops : FileOps Obj Dev) :
    Machine (PipesRun Task Obj Dev × Traffic) (PipesAction Task Obj Dev) where
  start x := (pipesSystem Task ops).start x.1 ∧
    x.2 = { delivered := fun _ => [], accepted := fun _ => [] }
  enabled x := PipesEnabled x.1
  exec x a := (pipesExec ops x.1 a).map (·,x.2.add (passOf x.1 a))

instance (ops : FileOps Obj Dev) (x : PipesRun Task Obj Dev × Traffic)
    (a : PipesAction Task Obj Dev) : Decidable ((trafficSystem Task ops).enabled x a) :=
  inferInstanceAs (Decidable (PipesEnabled x.1 a))

end Traffic

section Steps
variable {Task Obj Dev : Type} {s s' : PipesRun Task Obj Dev} {m : Memory Dev} {r : PipeRef}
  {c : Call} {side : Side}

theorem close_side_stored (m : Memory Dev) (r r' : PipeRef) (side : Side) :
    stored ((closeSide m r side).pipes r') = stored (m.pipes r') ∧
      (closeSide m r side).nextPipe = m.nextPipe := by
  rw [close_side_eq]
  refine ⟨?_,rfl⟩
  by_cases same : r' = r
  · subst same
    simp only [Function.update_self]
    cases side <;> rfl
  · simp [same]

theorem close_all_stored (ops : FileOps Obj Dev) (FT : FcbRef → FCB (Stream Obj))
    (fs : List FcbRef) (r : PipeRef) : ∀ m : Memory Dev,
    stored ((closeAll (streamOps ops) FT fs m).pipes r) = stored (m.pipes r) ∧
      (closeAll (streamOps ops) FT fs m).nextPipe = m.nextPipe := by
  induction fs with
  | nil => exact fun _ => ⟨rfl,rfl⟩
  | cons f fs ih =>
    intro m
    obtain ⟨bytes,next⟩ := ih (streamClose ops (FT f).stream m).2
    cases here : (FT f).stream with
    | pipe r' side =>
      rw [here] at bytes next
      obtain ⟨bytes',next'⟩ := close_side_stored m r' r side
      simp only [closeAll, List.foldl_cons, streamOps, here] at bytes next ⊢
      exact ⟨bytes.trans bytes',next.trans next'⟩
    | other o =>
      rw [here] at bytes next
      simp only [closeAll, List.foldl_cons, streamOps, here] at bytes next ⊢
      exact ⟨bytes,next⟩

/-- The bytes in the pipes are the same, and new pipes are empty. -/
def KeepsBytes (m m' : Memory Dev) : Prop :=
  ∀ r, (r < m.nextPipe → stored (m'.pipes r) = stored (m.pipes r)) ∧
    (m.nextPipe ≤ r → r < m'.nextPipe → stored (m'.pipes r) = [])

/-- One pass has been made through a pipe whose own end is open. -/
structure PassMade (s s' : PipesRun Task Obj Dev) (r : PipeRef) (c : Call) (pass : Pass) :
    Prop where
  next : s'.memory.nextPipe = s.memory.nextPipe
  made : r < s.memory.nextPipe
  isOpen : (callSide c).fcb (s.memory.pipes r) ≠ none
  kind : pass = (c.firstPass (s.memory.pipes r)).1 ∨ pass = (c.nextPass (s.memory.pipes r)).1
  spec : PassSpec c (s.memory.pipes r) (pass,s'.memory.pipes r)
  others : ∀ r', r' ≠ r → s'.memory.pipes r' = s.memory.pipes r'

def StepBytes (s s' : PipesRun Task Obj Dev) : Option (PipeRef × Call × Pass) → Prop
  | none => KeepsBytes s.memory s'.memory
  | some (r, c, pass) => PassMade s s' r c pass

theorem keeps_bytes_same {m m' : Memory Dev} (next : m'.nextPipe = m.nextPipe)
    (same : ∀ r, stored (m'.pipes r) = stored (m.pipes r)) : KeepsBytes m m' :=
  fun r => ⟨fun _ => same r,fun fresh made => absurd made (Nat.not_lt.mpr (next ▸ fresh))⟩

/-- A system call that makes no pass. -/
theorem file_step_bytes (ops : FileOps Obj Dev) (inv : PipesInv s)
    {files' : FileRun Task (Stream Obj) (Memory Dev)} {a : FileAction Task (Stream Obj)}
    (enabled : FileEnabled s.files a) (run : fileExec (streamOps ops) s.files a = some files') :
    KeepsBytes s.memory files'.kernel.files.device := by
  obtain ⟨files'',run',_,kind⟩ := settled_step (streamOps ops) inv.files enabled
  obtain rfl : files'' = files' := Option.some.inj (run'.symm.trans run)
  rcases kind with closing | opening
  · obtain ⟨fs,device,_⟩ := closing.closed
    rw [device]
    refine keeps_bytes_same ?_ (fun r => (close_all_stored ops _ fs r _).1)
    exact (close_all_stored ops s.files.kernel.files.FT fs 0 s.memory).2
  · rw [opening.device]
    exact keeps_bytes_same rfl (fun _ => rfl)

theorem open_pipe_bytes (s : PipesRun Task Obj Dev) (inv : PipesInv s) (t : Thread) :
    KeepsBytes s.memory (openPipe s t).memory := by
  obtain ⟨result,k,run,step,_⟩ := pipe_spec inv.files.balanced t.1
    (.pipe s.memory.nextPipe .reader) (.pipe s.memory.nextPipe .writer)
  cases result with
  | none =>
    simp only [openPipe, run]
    change KeepsBytes s.memory k.files.device
    rw [step.opening.device]
    exact keeps_bytes_same rfl (fun _ => rfl)
  | some fids =>
    simp only [openPipe, run]
    change KeepsBytes s.memory (makePipe s.memory _ _)
    intro r
    rw [make_pipe_block]
    refine ⟨fun old => ?_,fun fresh made => ?_⟩
    · rw [if_neg (Nat.ne_of_lt old)]
    · have last : r = s.memory.nextPipe := Nat.le_antisymm (Nat.lt_succ_iff.mp made) fresh
      rw [if_pos last]
      rfl

/-- What endPass leaves of the pipes. -/
theorem end_pass_pipes (s : PipesRun Task Obj Dev) (t : Thread) (r : PipeRef) (c : Call)
    (result : Pass × PipeCB) : (endPass s t r c result).memory.pipes =
      Function.update s.memory.pipes r result.2 ∧
    (endPass s t r c result).memory.nextPipe = s.memory.nextPipe := by
  obtain ⟨pass,p⟩ := result
  cases pass with
  | sleeps cv => exact ⟨rfl,rfl⟩
  | returns value data broadcast =>
    cases broadcast <;> exact ⟨rfl,rfl⟩

theorem pass_bytes {s₀ : PipesRun Task Obj Dev} (t : Thread) (result : Pass × PipeCB)
    (same : s₀.memory.pipes = s.memory.pipes) (next : s₀.memory.nextPipe = s.memory.nextPipe)
    (made : r < s.memory.nextPipe) (isOpen : (callSide c).fcb (s.memory.pipes r) ≠ none)
    (kind : result = c.firstPass (s.memory.pipes r) ∨ result = c.nextPass (s.memory.pipes r))
    (spec : PassSpec c (s.memory.pipes r) result) :
    PassMade s (endPass s₀ t r c result) r c result.1 := by
  obtain ⟨pipes,next'⟩ := end_pass_pipes s₀ t r c result
  rw [same] at pipes
  refine ⟨next'.trans next,made,isOpen,kind.imp (congrArg Prod.fst) (congrArg Prod.fst),?_,
    fun r' apart => ?_⟩
  · rw [pipes, Function.update_self]
    exact spec
  · rw [pipes, Function.update_of_ne apart]

theorem transfer_bytes (ops : FileOps Obj Dev) (inv : PipesInv s) {t : Thread} {fid : Int}
    (idle : s.files.Idle t) {s' : PipesRun Task Obj Dev}
    (run : pipesExec ops s (.transfer t fid c) = some s') :
    StepBytes s s' (passOf s (.transfer t fid c)) := by
  obtain ⟨files,start,_,_⟩ := settled_step (streamOps ops) inv.files (a := .startTransfer t fid) idle
  obtain ⟨inv',_⟩ := files_step ops inv (a := .startTransfer t fid) idle start
    (fun _ => False.elim) (fun u g member _ => in_use_kept start member (by simp))
  simp only [pipesExec, start, Option.bind_eq_bind, Option.bind_some] at run
  cases found : getFcb s.files.kernel t.1 fid with
  | none =>
    simp only [found, Option.some.injEq] at run
    subst run
    simp only [passOf, found, Option.bind_eq_bind, Option.bind_none]
    exact file_step_bytes ops inv (a := .startTransfer t fid) idle start
  | some f =>
    have files_eq : files =
        { kernel := { s.files.kernel with files := fcbIncref s.files.kernel.files f }
          inUse := (t,f) :: s.files.inUse } := by
      simp only [fileExec, startTransfer, found, Option.some.injEq] at start
      exact start.symm
    have device : files.kernel.files.device = s.memory := by
      rw [files_eq]
      rfl
    have kept : (files.kernel.files.FT f).stream = stream s f := by
      rw [files_eq]
      exact set_refcount_stream _ _ _ _
    simp only [found, kept, Option.some.injEq] at run
    subst run
    simp only [passOf, found, Option.bind_eq_bind, Option.bind_some]
    cases here : stream s f with
    | other o =>
      change KeepsBytes s.memory files.kernel.files.device
      rw [device]
      exact keeps_bytes_same rfl (fun _ => rfl)
    | pipe r side =>
      by_cases mine : callSide c = side
      · subst mine
        have member : (t,f) ∈ files.inUse := by
          rw [files_eq]
          exact List.mem_cons_self
        obtain ⟨made,fcb⟩ := pass_made inv' member (kept.trans here)
        have block : (PipesRun.memory { s with files := files }) = s.memory := device
        rw [block] at made fcb
        have wf := (inv.memory.pipes r made).wellFormed
        simp only [startMethod, if_true]
        rw [block]
        exact pass_bytes t _ (congrArg Memory.pipes block) (congrArg Memory.nextPipe block) made
          (by simp [fcb]) (Or.inl rfl) (first_pass_spec c wf)
      · simp only [startMethod, mine, if_false]
        change KeepsBytes s.memory files.kernel.files.device
        rw [device]
        exact keeps_bytes_same rfl (fun _ => rfl)

theorem step_bytes (ops : FileOps Obj Dev) (inv : PipesInv s) {a : PipesAction Task Obj Dev}
    (enabled : PipesEnabled s a) (run : pipesExec ops s a = some s') :
    StepBytes s s' (passOf s a) := by
  cases a with
  | call a =>
    simp only [pipesExec, Option.map_eq_some_iff] at run
    obtain ⟨files,run,rfl⟩ := run
    exact file_step_bytes ops inv enabled.1 run
  | pipe t =>
    cases run
    exact open_pipe_bytes s inv t
  | transfer t fid c => exact transfer_bytes ops inv enabled run
  | resume t =>
    obtain ⟨⟨r,c⟩,inside⟩ := Option.isSome_iff_exists.mp enabled.1
    simp only [pipesExec, inside, Option.bind_eq_bind, Option.bind_some, Option.some.injEq] at run
    subst run
    obtain ⟨f,member,here⟩ := inv.calls t r c inside
    obtain ⟨made,fcb⟩ := pass_made inv member here
    simp only [passOf, inside, Option.bind_eq_bind, Option.bind_some]
    exact pass_bytes t _ rfl rfl made (by simp [fcb]) (Or.inr rfl)
      (next_pass_spec c (inv.memory.pipes r made).wellFormed)
  | endTransfer t f =>
    simp only [pipesExec, Option.map_eq_some_iff] at run
    obtain ⟨files,run,rfl⟩ := run
    exact file_step_bytes ops inv (a := .endTransfer t f) enabled.1 run
  | device d =>
    cases run
    exact keeps_bytes_same rfl (fun _ => rfl)

end Steps

section Results
variable {Task Obj Dev : Type} {x x' : PipesRun Task Obj Dev × Traffic} {r : PipeRef} {c : Call}
  {side : Side}

/-- The bytes delivered and those still in a pipe are the bytes accepted. -/
structure TrafficOk (x : PipesRun Task Obj Dev × Traffic) : Prop where
  inv : PipesInv x.1
  fifo : ∀ r < x.1.memory.nextPipe,
    x.2.delivered r ++ stored (x.1.memory.pipes r) = x.2.accepted r
  fresh : ∀ r, x.1.memory.nextPipe ≤ r → x.2.delivered r = [] ∧ x.2.accepted r = []

theorem traffic_step (ops : FileOps Obj Dev) (ok : TrafficOk x) {a : PipesAction Task Obj Dev}
    (enabled : PipesEnabled x.1 a) (run : (trafficSystem Task ops).exec x a = some x') :
    TrafficOk x' ∧ Later x.1 x'.1 ∧ StepBytes x.1 x'.1 (passOf x.1 a) ∧
      x'.2 = x.2.add (passOf x.1 a) := by
  obtain ⟨s',ran,rfl⟩ := Option.map_eq_some_iff.mp run
  obtain ⟨s'',ran',inv',later⟩ := pipes_step ops ok.inv enabled
  obtain rfl : s' = s'' := Option.some.inj (ran.symm.trans ran')
  have bytes := step_bytes ops ok.inv enabled ran
  refine ⟨⟨inv',?_,?_⟩,later,bytes,rfl⟩
  · intro r made
    simp only at made ⊢
    cases pass : passOf x.1 a with
    | none =>
      rw [pass] at bytes
      by_cases old : r < x.1.memory.nextPipe
      · rw [add_none, (bytes r).1 old]
        exact ok.fifo r old
      · have fresh := Nat.not_lt.mp old
        rw [add_none, (bytes r).2 fresh made, (ok.fresh r fresh).1, (ok.fresh r fresh).2]
        rfl
    | some rcp =>
      obtain ⟨r',c,pass'⟩ := rcp
      rw [pass] at bytes
      have old : r < x.1.memory.nextPipe := bytes.next ▸ made
      have before := ok.fifo r old
      cases pass' with
      | sleeps cv =>
        by_cases same : r = r'
        · have kept : s'.memory.pipes r = x.1.memory.pipes r := same ▸ bytes.spec
          rw [add_sleeps, kept]
          exact before
        · rw [add_sleeps, bytes.others r same]
          exact before
      | returns value data broadcast =>
        by_cases same : r = r'
        · subst same
          have fifo := bytes.spec.fifo
          simp only [Traffic.add, Function.update_self]
          rw [List.append_assoc, fifo, ← List.append_assoc, before]
        · simp only [Traffic.add, ne_eq, same, not_false_eq_true, Function.update_of_ne]
          rw [bytes.others r same]
          exact before
  · intro r fresh
    have old : x.1.memory.nextPipe ≤ r := later.next.trans fresh
    have before := ok.fresh r old
    simp only
    cases pass : passOf x.1 a with
    | none => exact before
    | some rcp =>
      obtain ⟨r',c,pass'⟩ := rcp
      rw [pass] at bytes
      have apart : r ≠ r' := fun same => absurd bytes.made (Nat.not_lt.mpr (same ▸ old))
      cases pass' with
      | sleeps cv => exact before
      | returns value data broadcast => simpa [Traffic.add, apart] using before

theorem traffic_reach (ops : FileOps Obj Dev) (reach : (trafficSystem Task ops).Reach x) :
    TrafficOk x := by
  refine inductive_reach ⟨?_,?_⟩ reach
  · rintro ⟨s,h⟩ ⟨⟨blank,pipes,others,task,argl,args,rfl⟩,rfl⟩
    refine ⟨start_pipes_inv blank pipes others task argl args,fun r made => ?_,fun _ _ => ⟨rfl,rfl⟩⟩
    rw [PipesRun.memory, (boot_files _ task argl args).1] at made
    exact absurd made (Nat.not_lt_zero r)
  · exact fun x a x' ok move => (traffic_step ops ok move.1 move.2).1

/-- No FCB of the other end is in use and, for a reader, every byte has been delivered. -/
def Exhausted (x : PipesRun Task Obj Dev × Traffic) (r : PipeRef) (side : Side) : Prop :=
  (∀ f, ¬ Open x.1 r side.other f) ∧ (side = .reader → x.2.delivered r = x.2.accepted r)

theorem exhausted_iff (ok : TrafficOk x) (made : r < x.1.memory.nextPipe) :
    Exhausted x r side ↔ Spent (x.1.memory.pipes r) side := by
  have ends : (∀ f, ¬ Open x.1 r side.other f) ↔ side.other.fcb (x.1.memory.pipes r) = none := by
    simp only [ok.inv.ends, made, true_and]
    exact Option.eq_none_iff_forall_ne_some.symm
  have bytes : x.2.delivered r = x.2.accepted r ↔ (x.1.memory.pipes r).usedSpace = 0 := by
    have fifo := ok.fifo r made
    have used := (ok.inv.memory.pipes r made).wellFormed.used_nonneg
    have length := stored_length (p := x.1.memory.pipes r)
    constructor
    · intro same
      rw [← same] at fifo
      have nothing : stored (x.1.memory.pipes r) = [] := by simpa using fifo
      rw [nothing, List.length_nil] at length
      omega
    · intro empty
      rw [empty] at length
      rw [← fifo, List.eq_nil_of_length_eq_zero length, List.append_nil]
  rw [Exhausted, ends, bytes]
  rfl

/-- What is exhausted stays so. -/
theorem exhausted_step (ops : FileOps Obj Dev) (ok : TrafficOk x) {a : PipesAction Task Obj Dev}
    (enabled : PipesEnabled x.1 a) (run : (trafficSystem Task ops).exec x a = some x')
    (made : r < x.1.memory.nextPipe) (ended : Exhausted x r side) : Exhausted x' r side := by
  obtain ⟨ok',later,bytes,history⟩ := traffic_step ops ok enabled run
  refine ⟨fun f isOpen => ended.1 f (later.ends r side.other f made isOpen),fun reads => ?_⟩
  subst reads
  have before := ended.2 rfl
  have empty := (exhausted_iff ok made).mp ended
  rw [history]
  cases pass : passOf x.1 a with
  | none => exact before
  | some rcp =>
    obtain ⟨r',c,pass'⟩ := rcp
    rw [pass] at bytes
    cases pass' with
    | sleeps cv => exact before
    | returns value data broadcast =>
      by_cases same : r = r'
      · subst same
        have fifo := bytes.spec.fifo
        simp only [Traffic.add, Function.update_self]
        cases c with
        | write buf => exact absurd empty.1 bytes.isOpen
        | read n =>
          have nothing : stored (x.1.memory.pipes r) = [] := by
            apply List.eq_nil_of_length_eq_zero
            rw [stored_length, empty.2 rfl]
            rfl
          rw [nothing] at fifo
          simp only [Call.taken, Call.put, List.append_nil, List.append_eq_nil_iff] at fifo ⊢
          rw [fifo.1, List.append_nil]
          exact before
      · simpa [Traffic.add, same] using before

theorem exhausted_runs (ops : FileOps Obj Dev) {as : List (PipesAction Task Obj Dev)}
    (runs : (trafficSystem Task ops).Runs x as x') (ok : TrafficOk x)
    (made : r < x.1.memory.nextPipe) (ended : Exhausted x r side) :
    TrafficOk x' ∧ r < x'.1.memory.nextPipe ∧ Exhausted x' r side := by
  induction runs with
  | nil => exact ⟨ok,made,ended⟩
  | cons move rest ih =>
    obtain ⟨ok',later,_,_⟩ := traffic_step ops ok move.1 move.2
    exact ih ok' (Nat.lt_of_lt_of_le made later.next)
      (exhausted_step ops ok move.1 move.2 made ended)

/-- The result of a pass is determined by what is exhausted when it is made. -/
theorem pass_result (ops : FileOps Obj Dev) (ok : TrafficOk x) {a : PipesAction Task Obj Dev}
    (enabled : PipesEnabled x.1 a) {pass : Pass} (made : passOf x.1 a = some (r,c,pass)) :
    r < x.1.memory.nextPipe ∧
    (Exhausted x r (callSide c) → ∃ value data broadcast, pass = .returns value data broadcast) ∧
    (0 < callSize c → ∀ value data broadcast, pass = .returns value data broadcast →
      ResultOk c (x.1.memory.pipes r) value data) := by
  obtain ⟨s',run,_⟩ := pipes_step ops ok.inv enabled
  have bytes := step_bytes ops ok.inv enabled run
  rw [made] at bytes
  have wf := (ok.inv.memory.pipes r bytes.made).wellFormed
  refine ⟨bytes.made,fun ended => ?_,fun size value data broadcast returned => ?_⟩
  · obtain ⟨next,first⟩ := spent_pass c ((exhausted_iff ok bytes.made).mp ended)
    rcases bytes.kind with same | same
    · rw [same]
      exact first bytes.isOpen
    · rw [same]
      exact next
  · rcases bytes.kind with same | same
    · exact first_pass_result c wf bytes.isOpen size (same ▸ returned)
    · exact next_pass_result c wf size (same ▸ returned)

/-- A Read returns 0 exactly when the write end is closed and all bytes have been delivered, and
    a Write −1 exactly when the read end is closed; other results count the bytes moved, and the
    end of a pipe is for ever. -/
theorem pipe_results (ops : FileOps Obj Dev) (reach : (trafficSystem Task ops).Reach x)
    {a : PipesAction Task Obj Dev} (enabled : PipesEnabled x.1 a) {value : Int} {data : List Byte}
    {broadcast : Option PipeCV} (pass : passOf x.1 a = some (r,c,.returns value data broadcast))
    (size : 0 < callSize c) :
    (value = endValue (callSide c) ↔ Exhausted x r (callSide c)) ∧
    (value ≠ endValue (callSide c) → 1 ≤ value ∧ value ≤ callSize c) ∧
    ∃ x', (trafficSystem Task ops).exec x a = some x' ∧
      (∀ buf, c = .write buf → value ≠ -1 →
        stored (x'.1.memory.pipes r) = stored (x.1.memory.pipes r) ++ buf.take value.toNat) ∧
      (value = endValue (callSide c) → ∀ as x'', (trafficSystem Task ops).Runs x' as x'' →
        ∀ b c' pass', PipesEnabled x''.1 b → passOf x''.1 b = some (r,c',pass') →
          callSide c' = callSide c → 0 < callSize c' →
          ∃ data broadcast, pass' = .returns (endValue (callSide c')) data broadcast) := by
  have ok := traffic_reach ops reach
  obtain ⟨made,_,result⟩ := pass_result ops ok enabled pass
  have here := result size value data broadcast rfl
  have ends : value = endValue (callSide c) ↔ Exhausted x r (callSide c) :=
    here.ends.trans (exhausted_iff ok made).symm
  have unspent (other : value ≠ endValue (callSide c)) : ¬ Spent (x.1.memory.pipes r) (callSide c) :=
    fun spent => other (here.ends.mpr spent)
  obtain ⟨s',run,inv',later⟩ := pipes_step ops ok.inv enabled
  have exec : (trafficSystem Task ops).exec x a = some (s',x.2.add (passOf x.1 a)) := by
    change (pipesExec ops x.1 a).map _ = _
    rw [run]
    rfl
  refine ⟨ends,fun other => ?_,_,exec,?_,?_⟩
  · obtain ⟨low,high,_⟩ := here.moves (unspent other)
    exact ⟨low,high⟩
  · rintro buf rfl moved
    have bytes := step_bytes ops ok.inv enabled run
    rw [pass] at bytes
    have fifo := bytes.spec.fifo
    obtain ⟨_,_,length⟩ := here.moves (unspent moved)
    have count : data.length = value.toNat := by omega
    have put : data = buf.take data.length := here.data
    rw [Call.taken, List.nil_append] at fifo
    rw [← count]
    exact fifo.trans (congrArg _ put)
  · intro last as x'' runs b c' pass' enabled' pass'' same size'
    have ended := exhausted_step ops ok enabled exec made (ends.mp last)
    obtain ⟨ok'',made'',ended''⟩ := exhausted_runs ops runs (traffic_step ops ok enabled exec).1
      (Nat.lt_of_lt_of_le made later.next) ended
    rw [← same] at ended''
    obtain ⟨_,goes,result'⟩ := pass_result ops ok'' enabled' pass''
    obtain ⟨value',data',broadcast',rfl⟩ := goes ended''
    have there := result' size' value' data' broadcast' rfl
    exact ⟨data',broadcast',by rw [there.ends.mpr ((exhausted_iff ok'' made'').mp ended'')]⟩

def pipesBoot : PipesRun Unit Unit Unit × Traffic :=
  let memory : Memory Unit :=
    { pipes := fun _ => acquirePipeCB none none (fun _ => 0), nextPipe := 0, waits := .empty _ _
      others := (), closes := fun _ _ => 0, frees := fun _ => 0 }
  ({ files := { kernel := boot (initializeFiles (.other ()) memory) () 0 none, inUse := [] }
     calls := fun _ => none },
    { delivered := fun _ => [], accepted := fun _ => [] })

/- One byte is written, the write end is closed, and the byte is read. -/
def drainedPipe : List (PipesAction Unit Unit Unit) :=
  [.pipe (1,0),.transfer (1,0) 1 (.write [7]),.endTransfer (1,0) 1,.call (.close (1,0) 1),
    .transfer (1,0) 0 (.read 2),.endTransfer (1,0) 0]

theorem pipe_results_drained : ∃ x, (trafficSystem Unit bareOps).Reach x ∧
    passOf x.1 (.transfer (1,0) 0 (.read 2)) = some (0,.read 2,.returns 0 [] (some .hasSpace)) ∧
    x.2.delivered 0 = [7] ∧ Exhausted x 0 .reader := by
  have reach := play_reach (m := trafficSystem Unit bareOps) (s := pipesBoot)
    ⟨⟨.other (),fun _ => acquirePipeCB none none (fun _ => 0),(),(),0,none,rfl⟩,rfl⟩ drainedPipe rfl
  have results := pipe_results bareOps reach (a := .transfer (1,0) 0 (.read 2)) (by decide) rfl
    (by decide)
  exact ⟨_,reach,rfl,rfl,results.1.mp rfl⟩

end Results
end PlainPipe
