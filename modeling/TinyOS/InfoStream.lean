import TinyOS.Execute

/- The stream of OpenInfo over runs of the system: what procinfo_read touches in memory, and what
   a whole enumeration reports while processes come and go. -/
namespace ProcInfo
open KernelProc KernelStreams KernelThreads ArgVector Transition
variable {Task Obj Dev : Type}

abbrev sizeofProcinfo : Nat := 168

/- An entry of PT is read, or n bytes are copied, from an args with the bytes it holds, or to the
   buffer of the caller. -/
inductive Access where
  | table (i : Nat)
  | args (held : Option Nat) (n : Nat)
  | user (n : Nat)

/- A copy of no bytes touches nothing. -/
def Access.Safe (size : Nat) : Access → Prop
  | .table i => i < maxProc
  | .args held n => n = 0 ∨ ∃ m, held = some m ∧ n ≤ m
  | .user n => n ≤ size

def dataLen (argl : Int) : Int :=
  if argl > procinfoMaxArgsSize then procinfoMaxArgsSize else argl

/- The tests of the loop, each of which reads pstate before it looks at the bound. -/
def scanReads (k : Kernel Task Obj Dev) : Nat → Nat → List Access
  | 0, cursor => [.table cursor]
  | i + 1, cursor =>
    .table cursor :: if h : cursor < maxProc then
      if (k.PT ⟨cursor,h⟩).pstate = .free then scanReads k i (cursor + 1) else []
    else []

/- From an entry in use on. The size of the caller is not looked at. -/
def entryAccesses (k : Kernel Task Obj Dev) (p : Pid) : List Access :=
  [.table p.val,.args ((k.PT p).args.map List.length) (toSize (dataLen (k.PT p).argl)),
    .user sizeofProcinfo]

/- All that procinfo_read touches; the scan is that of skipFree. -/
def readAccesses (k : Kernel Task Obj Dev) (cursor : Nat) : List Access :=
  let next := skipFree k (maxProc - cursor) cursor
  scanReads k (maxProc - cursor) cursor ++
    if h : next < maxProc then entryAccesses k ⟨next,h⟩ else []

structure NextUsed (k : Kernel Task Obj Dev) (cursor : Nat) (p : Pid) : Prop where
  from' : cursor ≤ p.val
  used : (k.PT p).pstate ≠ .free
  first : ∀ q : Pid, cursor ≤ q.val → q.val < p.val → (k.PT q).pstate = .free

section Scan
variable {k : Kernel Task Obj Dev} {cursor : Nat} {p : Pid}

/-- The cursor stops at the next entry in use, or at the end of the table. -/
theorem skip_free_spec (i cursor : Nat) (bound : cursor + i = maxProc) :
    (∃ p, NextUsed k cursor p ∧ skipFree k i cursor = p.val) ∨
    ((∀ q : Pid, cursor ≤ q.val → (k.PT q).pstate = .free) ∧ skipFree k i cursor = maxProc) := by
  induction i generalizing cursor with
  | zero =>
    refine Or.inr ⟨fun q from' => ?_,bound⟩
    have inside := q.isLt
    omega
  | succ i ih =>
    have inside : cursor < maxProc := by omega
    rw [skipFree, dif_pos inside]
    by_cases free : (k.PT ⟨cursor,inside⟩).pstate = .free
    · have here (q : Pid) (from' : cursor ≤ q.val) (rest : cursor + 1 ≤ q.val →
          (k.PT q).pstate = .free) : (k.PT q).pstate = .free := by
        rcases Nat.eq_or_lt_of_le from' with same | later
        · have at' : q = ⟨cursor,inside⟩ := Fin.ext same.symm
          rw [at', free]
        · exact rest later
      rw [if_pos free]
      rcases ih (cursor + 1) (by omega) with ⟨p,next,stop⟩ | ⟨none,stop⟩
      · refine Or.inl ⟨p,⟨Nat.le_of_succ_le next.from',next.used,fun q from' before => ?_⟩,stop⟩
        exact here q from' (fun later => next.first q later before)
      · exact Or.inr ⟨fun q from' => here q from' (none q),stop⟩
    · rw [if_neg free]
      exact Or.inl ⟨⟨cursor,inside⟩,⟨le_refl cursor,free,fun q from' before =>
        absurd (Nat.lt_of_le_of_lt from' before) (Nat.lt_irrefl _)⟩,rfl⟩

theorem next_used_unique {q : Pid} (one : NextUsed k cursor p) (other : NextUsed k cursor q) :
    p = q := by
  rcases Nat.lt_trichotomy p.val q.val with less | same | more
  · exact absurd (other.first p one.from' less) one.used
  · exact Fin.ext same
  · exact absurd (one.first q other.from' more) other.used

theorem skip_next (next : NextUsed k cursor p) : skipFree k (maxProc - cursor) cursor = p.val := by
  have inside := Nat.lt_of_le_of_lt next.from' p.isLt
  rcases @skip_free_spec _ _ _ k (maxProc - cursor) cursor (by omega) with ⟨q,next',stop⟩ | ⟨none,_⟩
  · rw [stop, next_used_unique next next']
  · exact absurd (none p next.from') next.used

/-- The scan stays within the table exactly if it finds an entry in use. -/
theorem scan_safe (size i cursor : Nat) (bound : maxProc ≤ cursor + i) :
    (∀ a ∈ scanReads k i cursor, a.Safe size) ↔ ∃ p, NextUsed k cursor p := by
  have outside {cursor : Nat} (over' : maxProc ≤ cursor) : ¬ ∃ p, NextUsed k cursor p := by
    rintro ⟨p,next⟩
    exact absurd p.isLt (Nat.not_lt.mpr (over'.trans next.from'))
  induction i generalizing cursor with
  | zero =>
    refine iff_of_false (fun safe => ?_) (outside bound)
    exact absurd (safe _ (List.mem_singleton_self _)) (Nat.not_lt.mpr bound)
  | succ i ih =>
    rw [scanReads, List.forall_mem_cons]
    by_cases inside : cursor < maxProc
    · rw [dif_pos inside]
      by_cases free : (k.PT ⟨cursor,inside⟩).pstate = .free
      · rw [if_pos free]
        refine (and_congr_right fun _ => ih (cursor + 1) (by omega)).trans ?_
        constructor
        · rintro ⟨_,p,next⟩
          refine ⟨p,Nat.le_of_succ_le next.from',next.used,fun q from' before => ?_⟩
          rcases Nat.eq_or_lt_of_le from' with same | later
          · have at' : q = ⟨cursor,inside⟩ := Fin.ext same.symm
            rw [at', free]
          · exact next.first q later before
        · rintro ⟨p,next⟩
          refine ⟨inside,p,?_,next.used,fun q from' => next.first q (Nat.le_of_succ_le from')⟩
          refine Nat.lt_of_le_of_ne next.from' (fun same => next.used ?_)
          have at' : p = ⟨cursor,inside⟩ := Fin.ext same.symm
          rw [at', free]
      · rw [if_neg free]
        refine iff_of_true ⟨inside,by simp⟩ ⟨⟨cursor,inside⟩,le_refl cursor,free,?_⟩
        exact fun q from' before => absurd (Nat.lt_of_le_of_lt from' before) (Nat.lt_irrefl _)
    · rw [dif_neg inside]
      exact iff_of_false (fun safe => inside safe.1) (outside (Nat.not_lt.mp inside))

end Scan

section Copies
variable {b : PCB Task} {k : Kernel Task Obj Dev} {s s' : ThreadRun Task Obj Dev}

abbrev intMax : Int := 2147483647
abbrev intMin : Int := -2147483648

/- What a call of Exec hands over: argl is an int, and args has as many bytes. -/
structure Handed (argl : Int) (args : Option (List Byte)) : Prop where
  lower : intMin ≤ argl
  upper : argl ≤ intMax
  bytes : ∀ held ∈ args, argl ≤ held.length

instance (argl : Int) (args : Option (List Byte)) : Decidable (Handed argl args) :=
  decidable_of_iff (intMin ≤ argl ∧ argl ≤ intMax ∧ ∀ held ∈ args, argl ≤ held.length)
    ⟨fun ⟨lower,upper,bytes⟩ => ⟨lower,upper,bytes⟩,fun ⟨lower,upper,bytes⟩ => ⟨lower,upper,bytes⟩⟩

/- The storage that Exec has made has argl bytes, as long as it is there. -/
structure Stored (argl : Int) (args : Option (List Byte)) : Prop where
  lower : intMin ≤ argl
  upper : argl ≤ intMax
  bytes : ∀ held, args = some held → held.length = argl.toNat

/- argl outlives args, which the exit of a process frees. -/
def Copyable (b : PCB Task) : Prop := b.argl = 0 ∨ 0 < b.argl ∧ b.args ≠ none

def callerKeeps : ThreadRun Task Obj Dev → ThreadAction Task Obj → Prop
  | _, .exec _ _ argl args => Handed argl args
  | _, _ => True

instance (s : ThreadRun Task Obj Dev) (a : ThreadAction Task Obj) : Decidable (callerKeeps s a) :=
  match a with
  | .exec _ _ argl args => inferInstanceAs (Decidable (Handed argl args))
  | .start .. | .createThread .. | .join .. | .resume .. | .detach .. | .threadExit .. | .exit ..
  | .files .. => instDecidableTrue

/- The runs of threads whose calls of Exec hand over what they announce. -/
def callerSystem (Task : Type) (ops : FileOps Obj Dev) :
    Machine (ThreadRun Task Obj Dev) (ThreadAction Task Obj) :=
  { (threadSystem Task ops).restrict callerKeeps with
    start := fun s => ∃ blank device memory task argl args, Handed argl args ∧
      s = bootedThreads blank device memory task argl args }

instance (ops : FileOps Obj Dev) (s : ThreadRun Task Obj Dev) (a : ThreadAction Task Obj) :
    Decidable ((callerSystem Task ops).enabled s a) :=
  inferInstanceAs (Decidable (ThreadEnabled s a ∧ callerKeeps s a))

theorem stored_handed {argl : Int} {args : Option (List Byte)} (handed : Handed argl args) :
    Stored argl (args.map (List.take argl.toNat)) := by
  refine ⟨handed.lower,handed.upper,fun held kept => ?_⟩
  obtain ⟨given,given',rfl⟩ := Option.map_eq_some_iff.mp kept
  have enough := handed.bytes given given'
  rw [List.length_take]
  omega

theorem caller_reach {ops : FileOps Obj Dev} (reach : (callerSystem Task ops).Reach s) :
    (threadSystem Task ops).Reach s := by
  induction reach with
  | start first =>
    obtain ⟨blank,device,memory,task,argl,args,_,rfl⟩ := first
    exact .start ⟨blank,device,memory,task,argl,args,rfl⟩
  | step before move ih => exact .step ih ⟨move.1.1,move.2⟩

theorem caller_stored {ops : FileOps Obj Dev} (reach : (callerSystem Task ops).Reach s) (p : Pid) :
    Stored (s.kernel.PT p).argl (s.kernel.PT p).args := by
  have image {k : Kernel Task Obj Dev} {task : Option Task} {argl : Int}
      {args : Option (List Byte)} (same : k.images p = (task,argl,args))
      (stored : Stored argl args) : Stored (k.PT p).argl (k.PT p).args := by
    simp only [Kernel.images, Prod.mk.injEq] at same
    rw [same.2.1, same.2.2]
    exact stored
  induction reach with
  | start first =>
    obtain ⟨blank,device,memory,task,argl,args,handed,rfl⟩ := first
    have entry := congrFun (boot_images (initializeFiles blank device) task argl args) p
    by_cases here : p = initpcb
    · subst here
      exact image (entry.trans (Function.update_self ..)) (stored_handed handed)
    · exact image (entry.trans (Function.update_of_ne here ..))
        ⟨by decide,by decide,fun _ none => by cases none⟩
  | @step s s' a before move ih =>
    obtain ⟨⟨enabled,keeps⟩,run⟩ := move
    have inv := thread_reach_inv ops (caller_reach before)
    rcases step_images ops inv enabled run p with same | ⟨t,call,argl,args,rfl,_,same⟩ | ⟨_,same⟩
    · exact image same ih
    · exact image same (stored_handed keeps)
    · exact image same ⟨ih.lower,ih.upper,fun _ none => by cases none⟩

theorem args_safe (stored : Stored b.argl b.args) (size : Nat) :
    (Access.args (b.args.map List.length) (toSize (dataLen b.argl))).Safe size ↔ Copyable b := by
  obtain ⟨lower,upper,bytes⟩ := stored
  simp only [intMin, intMax] at lower upper
  have least : dataLen b.argl = min b.argl 128 := by
    simp only [dataLen, procinfoMaxArgsSize]
    split <;> omega
  have length : b.argl < 0 ∧ 2 ^ 63 ≤ toSize (dataLen b.argl) ∨
      0 ≤ b.argl ∧ toSize (dataLen b.argl) = min b.argl.toNat 128 := by
    rw [least, toSize]
    omega
  simp only [Access.Safe, Copyable]
  cases kept : b.args with
  | none =>
    simp only [Option.map_none, ne_eq, not_true_eq_false, and_false, or_false]
    constructor
    · rintro (none | ⟨_,absent,_⟩)
      · omega
      · cases absent
    · intro none
      exact Or.inl (by omega)
  | some held =>
    have whole := bytes held kept
    simp only [Option.map_some, Option.some.injEq, exists_eq_left', ne_eq, reduceCtorEq,
      not_false_eq_true, and_true]
    omega

/-- procinfo_read keeps within PT, the args and the buffer exactly if there is an entry left, whose
    args have not been freed, and the buffer has room for a procinfo. -/
theorem procinfo_read_safe {ops : FileOps Obj Dev} (reach : (callerSystem Task ops).Reach s)
    (cursor size : Nat) : (∀ a ∈ readAccesses s.kernel cursor, a.Safe size) ↔
      ∃ p, NextUsed s.kernel cursor p ∧ Copyable (s.kernel.PT p) ∧ sizeofProcinfo ≤ size := by
  have scan := @scan_safe _ _ _ s.kernel size (maxProc - cursor) cursor (by omega)
  have entry (p : Pid) : (∀ a ∈ entryAccesses s.kernel p, a.Safe size) ↔
      Copyable (s.kernel.PT p) ∧ sizeofProcinfo ≤ size := by
    simp only [entryAccesses, List.forall_mem_cons, args_safe (caller_stored reach p)]
    simp only [Access.Safe, p.isLt, true_and, List.not_mem_nil, false_implies, implies_true, and_true]
  unfold readAccesses
  rw [List.forall_mem_append]
  constructor
  · rintro ⟨tests,copies⟩
    obtain ⟨p,next⟩ := scan.mp tests
    rw [skip_next next, dif_pos p.isLt] at copies
    exact ⟨p,next,(entry p).mp copies⟩
  · rintro ⟨p,next,fits⟩
    refine ⟨scan.mpr ⟨p,next⟩,?_⟩
    rw [skip_next next, dif_pos p.isLt]
    exact (entry p).mpr fits

def bootedCaller : ThreadRun Unit Unit Unit :=
  bootedThreads () () ⟨(),0,none,0,false,false,0⟩ () 0 none

theorem booted_caller_start : (callerSystem Unit bareOps).start bootedCaller :=
  ⟨(),(),⟨(),0,none,0,false,false,0⟩,(),0,none,⟨by decide,by decide,fun _ none => by cases none⟩,rfl⟩

/- A process that has been given three bytes. -/
def suppliedCaller : ThreadRun Unit Unit Unit :=
  ((callerSystem Unit bareOps).play bootedCaller
    [.exec (initpcb,0) (some ()) 3 (some [97,98,99])]).get rfl

theorem supplied_caller_reach : (callerSystem Unit bareOps).Reach suppliedCaller :=
  play_reach booted_caller_start [.exec (initpcb,0) (some ()) 3 (some [97,98,99])] rfl

theorem procinfo_read_safe_supplied : (callerSystem Unit bareOps).Reach suppliedCaller ∧
    Access.args (some 3) 3 ∈ readAccesses suppliedCaller.kernel 2 ∧
    ∀ a ∈ readAccesses suppliedCaller.kernel 2, a.Safe sizeofProcinfo := by
  have next : NextUsed suppliedCaller.kernel 2 2 := ⟨le_refl 2,by decide,fun q from' before =>
    absurd (Nat.lt_of_le_of_lt from' before) (Nat.lt_irrefl 2)⟩
  refine ⟨supplied_caller_reach,?_,(procinfo_read_safe supplied_caller_reach 2 sizeofProcinfo).mpr
    ⟨2,next,Or.inr (by decide),le_refl _⟩⟩
  unfold readAccesses
  rw [skip_next next]
  exact List.mem_append_right _ (.tail _ (.head _))

/- A process that has been given three bytes exits. -/
def exitedCaller : ThreadRun Unit Unit Unit :=
  ((callerSystem Unit bareOps).play bootedCaller
    [.exec (initpcb,0) (some ()) 3 (some [97,98,99]),.exit (2,0) 0]).get rfl

/-- argl still tells of the bytes, which are copied from NULL. -/
theorem procinfo_read_freed : (callerSystem Unit bareOps).Reach exitedCaller ∧
    ¬ ∀ a ∈ readAccesses exitedCaller.kernel 2, a.Safe sizeofProcinfo := by
  refine ⟨play_reach (m := callerSystem Unit bareOps) booted_caller_start
    [.exec (initpcb,0) (some ()) 3 (some [97,98,99]),.exit (2,0) 0] rfl,fun safe => ?_⟩
  have next : NextUsed exitedCaller.kernel 2 2 := ⟨le_refl 2,by decide,fun q from' before =>
    absurd (Nat.lt_of_le_of_lt from' before) (Nat.lt_irrefl 2)⟩
  have copied : Access.args none 3 ∈ readAccesses exitedCaller.kernel 2 := by
    unfold readAccesses
    rw [skip_next next]
    exact List.mem_append_right _ (.tail _ (.head _))
  rcases safe _ copied with none | ⟨m,held,_⟩
  · cases none
  · cases held

end Copies

section Enumeration

/- A stream that OpenInfo has opened. `reports` are the results of its non-zero reads, each with the
   kernel at its time, and `during` are the kernels from OpenInfo on until the first 0. -/
structure InfoRun (Task Obj Dev : Type) where
  system : ThreadRun Task Obj Dev
  picb : PICB Task
  reports : List (Kernel Task Obj Dev × Procinfo Task)
  ended : Bool
  during : List (Kernel Task Obj Dev)

/- A read of sizeof(procinfo) bytes, or a step of the system. -/
inductive InfoAction (Task Obj : Type) where
  | read
  | system (a : ThreadAction Task Obj)

def InfoAction.isRead : InfoAction Task Obj → Bool
  | .read => true
  | .system _ => false

def InfoRun.report (s : InfoRun Task Obj Dev) :
    Option (Procinfo Task) × PICB Task → InfoRun Task Obj Dev
  | (some info, picb) => { s with picb := picb, reports := s.reports ++ [(s.system.kernel,info)] }
  | (none, picb) => { s with picb := picb, ended := true }

def InfoRun.become (s : InfoRun Task Obj Dev) (system : ThreadRun Task Obj Dev) :
    InfoRun Task Obj Dev :=
  { s with
    system := system
    during := if s.ended then s.during else s.during ++ [system.kernel] }

def infoExec (ops : FileOps Obj Dev) (s : InfoRun Task Obj Dev) :
    InfoAction Task Obj → Option (InfoRun Task Obj Dev)
  | .read => (procinfoRead s.system.kernel s.picb).map s.report
  | .system a => (threadExec ops s.system a).map s.become

/- sys_OpenInfo sets the cursor; the rest of the PICB is what xmalloc finds. -/
def openedInfo (system : ThreadRun Task Obj Dev) (k : Kernel Task Obj Dev) (memory : Procinfo Task) :
    InfoRun Task Obj Dev :=
  { system := system.setKernel k
    picb := { info := memory, cursor := 0 }
    reports := []
    ended := false
    during := [k] }

/- A read that faults has no next state. -/
def infoSystem (Task : Type) (ops : FileOps Obj Dev) :
    Machine (InfoRun Task Obj Dev) (InfoAction Task Obj) where
  start s := ∃ system t picb fid k memory, (threadSystem Task ops).Reach system ∧ system.Idle t ∧
    sysOpenInfo system.kernel t.1 picb = (some fid,k) ∧ s = openedInfo system k memory
  enabled s
    | .read => True
    | .system a => ThreadEnabled s.system a
  exec := infoExec ops

instance (ops : FileOps Obj Dev) (s : InfoRun Task Obj Dev) (a : InfoAction Task Obj) :
    Decidable ((infoSystem Task ops).enabled s a) :=
  match a with
  | .read => instDecidableTrue
  | .system a => inferInstanceAs (Decidable (ThreadEnabled s.system a))

/- The PCB was in use in every state from OpenInfo to the first 0. -/
def InfoRun.Steady (s : InfoRun Task Obj Dev) (p : Pid) : Prop :=
  ∀ k ∈ s.during, (k.PT p).pstate ≠ .free

def InfoRun.pids (s : InfoRun Task Obj Dev) : List Int := s.reports.map fun r => r.2.pid

/- A report tells of a PCB in use. -/
def Describes (k : Kernel Task Obj Dev) (info : Procinfo Task) : Prop :=
  ∃ p : Pid, (k.PT p).pstate ≠ .free ∧ info.pid = p.val ∧ info.ppid = getPid (k.PT p).parent ∧
    info.alive = (if (k.PT p).pstate = .zombie then 0 else 1) ∧
    info.threadCount = (k.PT p).threadCount ∧ info.argl = (k.PT p).argl

/- The pids below the cursor have been dealt with. -/
structure InfoInv (s : InfoRun Task Obj Dev) : Prop where
  bound : s.picb.cursor ≤ maxProc
  sorted : s.pids.Pairwise (· < ·)
  below : ∀ i ∈ s.pids, 0 ≤ i ∧ i < s.picb.cursor
  complete : ∀ p : Pid, p.val < s.picb.cursor → s.Steady p → (p.val : Int) ∈ s.pids
  described : ∀ r ∈ s.reports, Describes r.1 r.2
  now : s.ended = false → s.system.kernel ∈ s.during
  ended : s.ended → s.picb.cursor = maxProc

variable {s s' : InfoRun Task Obj Dev} {k : Kernel Task Obj Dev}

theorem entry_describes {p : Pid} {old info : Procinfo Task} (used : (k.PT p).pstate ≠ .free)
    (entry : procinfoEntry k p old = some info) : Describes k info ∧ info.pid = p.val := by
  simp only [procinfoEntry, Option.bind_eq_bind, Option.bind_eq_some_iff, Option.some.injEq] at entry
  obtain ⟨_,_,rfl⟩ := entry
  exact ⟨⟨p,used,rfl,rfl,rfl,rfl,rfl⟩,rfl⟩

/-- A read takes the next entry in use, or there is none. -/
theorem procinfo_read_cases {picb picb' : PICB Task} {r : Option (Procinfo Task)}
    (bound : picb.cursor ≤ maxProc) (run : procinfoRead k picb = some (r,picb')) :
    (∃ p info, NextUsed k picb.cursor p ∧ r = some info ∧ info.pid = p.val ∧ Describes k info ∧
      picb'.cursor = p.val + 1) ∨
    ((∀ p : Pid, picb.cursor ≤ p.val → (k.PT p).pstate = .free) ∧ r = none ∧
      picb'.cursor = maxProc) := by
  simp only [procinfoRead] at run
  rcases @skip_free_spec _ _ _ k (maxProc - picb.cursor) picb.cursor (by omega) with
    ⟨p,next,stop⟩ | ⟨none,stop⟩
  · simp only [stop, p.isLt, dif_pos, Option.bind_eq_bind, Option.bind_eq_some_iff,
      Option.some.injEq, Prod.mk.injEq] at run
    obtain ⟨info,entry,rfl,rfl⟩ := run
    obtain ⟨described,pid⟩ := entry_describes next.used entry
    exact Or.inl ⟨p,info,next,rfl,pid,described,rfl⟩
  · simp only [stop, Nat.lt_irrefl, dif_neg, not_false_eq_true, Option.some.injEq,
      Prod.mk.injEq] at run
    obtain ⟨rfl,rfl⟩ := run
    exact Or.inr ⟨none,rfl,rfl⟩

theorem procinfo_read_end {picb : PICB Task} (last : picb.cursor = maxProc) :
    procinfoRead k picb = some (none,picb) := by
  obtain ⟨info,cursor⟩ := picb
  cases last
  rfl

theorem report_inv (inv : InfoInv s) {r : Option (Procinfo Task) × PICB Task}
    (run : procinfoRead s.system.kernel s.picb = some r) : InfoInv (s.report r) := by
  -- what the cursor has passed over was FREE just now
  have skipped {p : Pid} (from' : s.picb.cursor ≤ p.val)
      (free : (s.system.kernel.PT p).pstate = .free) : ¬ s.Steady p := by
    intro steady
    cases over' : s.ended with
    | false => exact steady _ (inv.now over') free
    | true =>
      have last := inv.ended over'
      have inside := p.isLt
      omega
  obtain ⟨r,picb⟩ := r
  rcases procinfo_read_cases inv.bound run with
    ⟨p,info,next,rfl,pid,described,cursor⟩ | ⟨none,rfl,cursor⟩
  · have pids : (s.report (some info,picb)).pids = s.pids ++ [(p.val : Int)] := by
      simp only [InfoRun.report, InfoRun.pids, List.map_append, List.map_cons, List.map_nil, pid]
    have cursor' : (s.report (some info,picb)).picb.cursor = p.val + 1 := cursor
    refine ⟨?_,?_,?_,?_,?_,inv.now,fun over' => ?_⟩
    · rw [cursor']
      exact p.isLt
    · rw [pids]
      refine List.pairwise_append.mpr ⟨inv.sorted,List.pairwise_singleton ..,fun i old j new => ?_⟩
      cases List.mem_singleton.mp new
      exact Int.lt_of_lt_of_le (inv.below i old).2 (Int.ofNat_le.mpr next.from')
    · rw [pids, cursor']
      intro i member
      rcases List.mem_append.mp member with old | new
      · have below := inv.below i old
        have from' := next.from'
        omega
      · cases List.mem_singleton.mp new
        omega
    · rw [pids, cursor']
      intro q before steady
      rcases Nat.lt_or_ge q.val s.picb.cursor with old | from'
      · exact List.mem_append_left _ (inv.complete q old steady)
      · rcases Nat.eq_or_lt_of_le (Nat.le_of_lt_succ before) with same | less
        · exact List.mem_append_right _ (List.mem_singleton.mpr (by rw [same]))
        · exact absurd steady (skipped from' (next.first q from' less))
    · intro e member
      rcases List.mem_append.mp member with old | new
      · exact inv.described e old
      · cases List.mem_singleton.mp new
        exact described
    · have last := inv.ended over'
      have from' := next.from'
      have inside := p.isLt
      omega
  · have cursor' : (s.report (Option.none,picb)).picb.cursor = maxProc := cursor
    refine ⟨cursor'.le,inv.sorted,fun i member => ?_,fun q before steady => ?_,inv.described,
      fun going => (by cases going),fun _ => cursor'⟩
    · rw [cursor']
      have below := inv.below i member
      have bound := inv.bound
      omega
    · rcases Nat.lt_or_ge q.val s.picb.cursor with old | from'
      · exact inv.complete q old steady
      · exact absurd steady (skipped from' (none q from'))

theorem become_inv (inv : InfoInv s) (system : ThreadRun Task Obj Dev) :
    InfoInv (s.become system) := by
  have steady (p : Pid) (later : (s.become system).Steady p) : s.Steady p := by
    intro k member
    refine later k ?_
    unfold InfoRun.become
    dsimp only
    split
    · exact member
    · exact List.mem_append_left _ member
  refine ⟨inv.bound,inv.sorted,inv.below,fun p before later => inv.complete p before (steady p later),
    inv.described,fun going => ?_,inv.ended⟩
  have going' : s.ended = false := going
  simp [InfoRun.become, going']

theorem opened_inv (system : ThreadRun Task Obj Dev) (k : Kernel Task Obj Dev)
    (memory : Procinfo Task) : InfoInv (openedInfo system k memory) :=
  ⟨Nat.zero_le _,List.Pairwise.nil,fun _ none => (by cases none),
    fun _ before => absurd before (Nat.not_lt_zero _),fun _ none => (by cases none),
    fun _ => List.mem_cons_self,fun over' => (by cases over')⟩

theorem info_step {ops : FileOps Obj Dev} {a : InfoAction Task Obj} (inv : InfoInv s)
    (run : infoExec ops s a = some s') : InfoInv s' := by
  cases a with
  | read =>
    obtain ⟨r,read,rfl⟩ := Option.map_eq_some_iff.mp run
    exact report_inv inv read
  | system a =>
    obtain ⟨system,_,rfl⟩ := Option.map_eq_some_iff.mp run
    exact become_inv inv system

/-- A read reports an entry or finds the end, and nothing else does. -/
theorem info_progress {ops : FileOps Obj Dev} {a : InfoAction Task Obj} (inv : InfoInv s)
    (run : infoExec ops s a = some s') : s'.ended = true ∨ s.ended = false ∧
      s'.reports.length = s.reports.length + [a].countP InfoAction.isRead := by
  cases a with
  | read =>
    obtain ⟨⟨r,picb⟩,read,rfl⟩ := Option.map_eq_some_iff.mp run
    cases r with
    | none => exact Or.inl rfl
    | some info =>
      cases over' : s.ended with
      | true =>
        rw [procinfo_read_end (inv.ended over')] at read
        cases read
      | false => exact Or.inr ⟨rfl,by simp [InfoRun.report, InfoAction.isRead]⟩
  | system a =>
    obtain ⟨system,_,rfl⟩ := Option.map_eq_some_iff.mp run
    cases over' : s.ended with
    | true => exact Or.inl over'
    | false => exact Or.inr ⟨rfl,rfl⟩

theorem info_runs {ops : FileOps Obj Dev} {as : List (InfoAction Task Obj)} (inv : InfoInv s)
    (runs : (infoSystem Task ops).Runs s as s') : InfoInv s' ∧
      (s.ended = true → s'.ended = true) ∧ (s'.ended = true ∨
        s'.reports.length = s.reports.length + as.countP InfoAction.isRead) := by
  induction runs with
  | nil => exact ⟨inv,id,Or.inr rfl⟩
  | @cons s s₁ s' a as move rest ih =>
    obtain ⟨inv',stays,later⟩ := ih (info_step inv move.2)
    rcases info_progress inv move.2 with over' | ⟨going,first⟩
    · exact ⟨inv',fun _ => stays over',Or.inl (stays over')⟩
    · refine ⟨inv',fun over' => (by rw [going] at over'; cases over'),later.imp_right fun more => ?_⟩
      rw [more, first, Nat.add_assoc, ← List.countP_append]
      rfl

theorem pids_few (inv : InfoInv s) : s.reports.length ≤ maxProc := by
  have nodup : s.pids.Nodup := inv.sorted.imp fun less => ne_of_lt less
  have inside : s.pids ⊆ (List.range s.picb.cursor).map Int.ofNat := by
    intro i member
    obtain ⟨lower,upper⟩ := inv.below i member
    exact List.mem_map.mpr ⟨i.toNat,List.mem_range.mpr (by omega),Int.toNat_of_nonneg lower⟩
  have few := nodup.length_le_of_subset inside
  rw [InfoRun.pids, List.length_map, List.length_map, List.length_range] at few
  exact few.trans inv.bound

/-- Whatever processes do between the reads, the reports are in the order of the pids and each tells
    of a PCB in use; a process that is there all the time is reported once, and the stream ends. -/
theorem info_stream_enumerates {ops : FileOps Obj Dev} {opened s : InfoRun Task Obj Dev}
    {as : List (InfoAction Task Obj)} (first : (infoSystem Task ops).start opened)
    (runs : (infoSystem Task ops).Runs opened as s) :
    s.pids.Pairwise (· < ·) ∧ (∀ r ∈ s.reports, Describes r.1 r.2) ∧
    s.reports.length ≤ maxProc ∧ (maxProc < as.countP InfoAction.isRead → s.ended = true) ∧
    (s.ended = true → (∀ p, s.Steady p → s.pids.count (p.val : Int) = 1) ∧
      procinfoRead s.system.kernel s.picb = some (none,s.picb)) := by
  obtain ⟨system,t,picb,fid,k,memory,_,_,_,rfl⟩ := first
  obtain ⟨inv,_,progress⟩ := info_runs (opened_inv system k memory) runs
  have few := pids_few inv
  refine ⟨inv.sorted,inv.described,few,fun many => progress.resolve_right fun count => ?_,
    fun over' => ⟨fun p steady => ?_,procinfo_read_end (inv.ended over')⟩⟩
  · have none : (openedInfo system k memory).reports.length = 0 := rfl
    omega
  · have nodup : s.pids.Nodup := inv.sorted.imp fun less => ne_of_lt less
    have before : p.val < s.picb.cursor := by
      rw [inv.ended over']
      exact p.isLt
    exact List.count_eq_one_of_mem nodup (inv.complete p before steady)

def openedCaller : InfoRun Unit Unit Unit :=
  openedInfo bootedCaller (sysOpenInfo bootedCaller.kernel initpcb ()).2 (blankInfo Unit)

def twoReads : InfoRun Unit Unit Unit :=
  ((infoSystem Unit bareOps).play openedCaller [.read,.read]).get rfl

theorem info_stream_enumerates_two : twoReads.pids = [0,1] ∧ twoReads.pids.Pairwise (· < ·) ∧
    ∀ r ∈ twoReads.reports, Describes r.1 r.2 := by
  have runs := play_runs (infoSystem Unit bareOps) [.read,.read] openedCaller twoReads rfl
  have first : (infoSystem Unit bareOps).start openedCaller :=
    ⟨bootedCaller,(initpcb,0),(),0,_,blankInfo Unit,caller_reach (.start booted_caller_start),
      by decide,rfl,rfl⟩
  obtain ⟨sorted,described,_⟩ := info_stream_enumerates first runs
  exact ⟨rfl,sorted,described⟩

end Enumeration
end ProcInfo
