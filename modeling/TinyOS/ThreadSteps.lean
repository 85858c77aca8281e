import TinyOS.ThreadRun

/- Every step of the threads keeps the PTCBs of each process in order and in line with the
   threads that the process table counts. When init has no thread left, nobody has. -/
namespace KernelThreads
open KernelStreams KernelProc Monitor Transition
variable {Task Obj Dev : Type} {s s' : ThreadRun Task Obj Dev} {k k' : Kernel Task Obj Dev}
  {procs : Pid → Threads Task} {cur p new : Pid} {t : Thread}

/-- The process table and the threads of each process agree. -/
structure Linked (k : Kernel Task Obj Dev) (procs : Pid → Threads Task) : Prop where
  ptcbs : ∀ p, PtcbOk (procs p) none
  nodup : ∀ p, (k.PT p).threads.Nodup
  threads : ∀ p t, t ∈ (k.PT p).threads ↔ t ∈ live (procs p)
  counted : ∀ p, (k.PT p).threadCount = (k.PT p).threads.length
  running : ∀ p, (k.PT p).pstate = .alive → (k.PT p).mainTask.isSome → (k.PT p).threads ≠ []
  ended : ∀ p, (k.PT p).pstate = .zombie →
    (k.PT p).threads = [] ∧ (k.PT p).args = none ∧ ∀ i, (k.PT p).FIDT i = none

structure ThreadInv (s : ThreadRun Task Obj Dev) : Prop where
  linked : Linked s.kernel s.procs
  users : ∀ e ∈ s.files.inUse, e.1.2 ∈ (s.kernel.PT e.1.1).threads
  system : (FileInv s.files ∧ ∃ birth, Rooted s.kernel.tree birth) ∨ Halted s.kernel

theorem called_member (linked : Linked k procs) {p : Pid} {t : PtcbRef}
    (called : ((procs p).waits.woken t).isSome) : t ∈ (k.PT p).threads := by
  obtain ⟨⟨r,out⟩,inside⟩ := Option.isSome_iff_exists.mp ((linked.ptcbs p).woken t called)
  exact (linked.threads p t).mpr ((linked.ptcbs p).calls t r out inside).1

/-- Nothing is enabled when nothing is left to run. -/
theorem halted_stuck (inv : ThreadInv s) (halted : Halted s.kernel) (a : ThreadAction Task Obj) :
    ¬ ThreadEnabled s a := by
  have none (t : Thread) (member : t.2 ∈ (s.kernel.PT t.1).threads) : False := by
    rw [halted.threads] at member
    cases member
  intro enabled
  cases a with
  | start t => exact none t enabled.1
  | exec t _ _ _ | createThread t _ _ _ | join t _ _ | detach t _ | threadExit t _ =>
    exact none t enabled.1.1
  | resume t => exact none t (called_member inv.linked enabled)
  | exit t _ => exact none t enabled.1.1.1
  | files a =>
    obtain ⟨enabled,caller⟩ := enabled
    cases a with
    | exec | createThread | threadExit => exact caller
    | reap p =>
      apply caller
      cases (s.kernel.PT p).parent with
      | none => rfl
      | some q => exact halted.threads q
    | endTransfer t f => exact none t (inv.users (t,f) enabled)
    | startTransfer t | close t | dup2 t | openDevice t | openInfo t | pipe t | socket t | accept t =>
      exact none t caller.1.1

theorem files_halted (inv : ThreadInv s) (a : ThreadAction Task Obj) (enabled : ThreadEnabled s a) :
    FileInv s.files ∧ ∃ birth, Rooted s.kernel.tree birth :=
  inv.system.resolve_right (fun halted => halted_stuck inv halted a enabled)

/-- The threads of one process have changed, but not which of them run. -/
theorem threads_inv (inv : ThreadInv s) (p : Pid) {threads : Threads Task}
    (ok : PtcbOk threads none) (same : live threads = live (s.procs p)) :
    ThreadInv (s.setThreads p threads) := by
  refine ⟨⟨fun q => ?_,inv.linked.nodup,fun q u => ?_,inv.linked.counted,inv.linked.running,
    inv.linked.ended⟩,inv.users,inv.system⟩
  · by_cases here : q = p
    · subst here
      simpa using ok
    · simpa [here] using inv.linked.ptcbs q
  · have before := inv.linked.threads q u
    by_cases here : q = p
    · subst here
      simpa [same] using before
    · simpa [here] using before

/-- What a call on streams, or the reaping of a zombie, leaves of the process table. -/
structure TableKept (k k' : Kernel Task Obj Dev) : Prop where
  threads : ∀ p, (k'.PT p).threads = (k.PT p).threads
  programs : k'.programs = k.programs
  alive : ∀ p, (k'.PT p).pstate = .alive ↔ (k.PT p).pstate = .alive
  zombie : ∀ p, (k'.PT p).pstate = .zombie → (k.PT p).pstate = .zombie
  rooted : ∀ birth, Rooted k.tree birth → Rooted k'.tree birth

theorem procs_kept (same : k'.procs = k.procs) : TableKept k k' := by
  have tree := procs_tree same
  refine ⟨fun p => congrArg Links.threads (congrFun tree p),procs_programs same,fun p => ?_,
    fun p => ?_,fun birth rooted => tree ▸ rooted⟩
  · have state : (k'.PT p).pstate = (k.PT p).pstate := congrArg Links.pstate (congrFun tree p)
    rw [state]
  · have state : (k'.PT p).pstate = (k.PT p).pstate := congrArg Links.pstate (congrFun tree p)
    rw [state]
    exact id

theorem reap_kept (zombie : (k.PT p).pstate = .zombie) : TableKept k (cleanupZombie k p).2 := by
  have tree := (cleanup_spec k p).1
  have state (q : Pid) : ((cleanupZombie k p).2.PT q).pstate =
      if q = p then .free else (k.PT q).pstate := congrArg Links.pstate (congrFun tree q)
  refine ⟨fun q => congrArg Links.threads (congrFun tree q),cleanup_programs k p,fun q => ?_,
    fun q => ?_,fun birth rooted => tree ▸ rooted_reaped rooted p k.pcbFreelist⟩
  · rw [state]
    by_cases here : q = p
    · simp [here, zombie]
    · simp [here]
  · rw [state]
    by_cases here : q = p
    · simp [here]
    · simp [here]

theorem files_table (ops : FileOps Obj Dev) (inv : FileInv s.files) {a : FileAction Task Obj}
    (enabled : FileEnabled s.files a) (caller : s.Caller a) {files : FileRun Task Obj Dev}
    (run : fileExec ops s.files a = some files) : (files.kernel.procs = s.kernel.procs ∨
      ∃ p, (s.kernel.PT p).pstate = .zombie ∧ files.kernel = (cleanupZombie s.kernel p).2) ∧
      ∀ e ∈ files.inUse, e ∈ s.files.inUse ∨ e.1.2 ∈ (s.kernel.PT e.1.1).threads := by
  refine ⟨?_,fun e member => (user_origin enabled run member).imp_right (fun new => new.1.1)⟩
  rcases call_table ops inv enabled run with same | ⟨p,_,zombie,reaped⟩ | ⟨_,_,_,_,rfl⟩ |
    ⟨_,_,rfl⟩ | ⟨_,rfl⟩
  · exact Or.inl same
  · exact Or.inr ⟨p,zombie,reaped⟩
  · exact caller.elim
  · exact caller.elim
  · exact caller.elim

/-- A call on streams keeps the table, and the users of the FCBs are threads of their processes. -/
theorem files_kept (ops : FileOps Obj Dev) (inv : FileInv s.files) {a : FileAction Task Obj}
    (enabled : FileEnabled s.files a) (caller : s.Caller a) {files : FileRun Task Obj Dev}
    (run : fileExec ops s.files a = some files) : TableKept s.kernel files.kernel ∧
      ∀ e ∈ files.inUse, e ∈ s.files.inUse ∨ e.1.2 ∈ (s.kernel.PT e.1.1).threads := by
  obtain ⟨table,users⟩ := files_table ops inv enabled caller run
  refine ⟨?_,users⟩
  rcases table with same | ⟨p,zombie,reaped⟩
  · exact procs_kept same
  · rw [reaped]
    exact reap_kept zombie

theorem kept_linked (linked : Linked k procs) (kept : TableKept k k') (ok : KernelOk k')
    (closed : Closed k') : Linked k' procs := by
  have program (p : Pid) := congrFun kept.programs p
  simp only [Kernel.programs, Prod.mk.injEq] at program
  refine ⟨linked.ptcbs,fun p => ?_,fun p t => ?_,ok.threads.counted,fun p alive task => ?_,
    fun p zombie => ?_⟩
  · rw [kept.threads]
    exact linked.nodup p
  · rw [kept.threads]
    exact linked.threads p t
  · rw [kept.threads]
    rw [(program p).1] at task
    exact linked.running p ((kept.alive p).mp alive) task
  · obtain ⟨none,args,_⟩ := linked.ended p (kept.zombie p zombie)
    rw [kept.threads, (program p).2]
    exact ⟨none,args,closed p (by simp [zombie])⟩

/-- A PCB that is not ALIVE has no thread, and its list of PTCBs is empty. -/
theorem dead_list (linked : Linked k procs) (ok : KernelOk k) (dead : (k.PT p).pstate ≠ .alive) :
    (k.PT p).threads = [] ∧ (procs p).ptcbList = [] := by
  have none : (k.PT p).threads = [] := by
    by_contra some
    exact dead (ok.threads.alive p some)
  refine ⟨none,(linked.ptcbs p).ended ?_⟩
  apply Finset.eq_empty_of_forall_notMem
  intro t member
  have there := (linked.threads p t).mpr member
  rw [none] at there
  cases there

theorem exec_threads_spec (threads : Threads Task) (list : threads.ptcbList = [])
    (call : Option Task) (argl : Int) (args : Option (List UInt8)) :
    PtcbOk (execThreads threads call argl args) none ∧
    ∀ t, t ∈ live (execThreads threads call argl args) ↔ call.isSome ∧ t = 0 := by
  cases call with
  | none => exact ⟨renew_ok threads list,fun t => by simp [execThreads, renew_live]⟩
  | some task =>
    obtain ⟨ok,alive⟩ := main_spec threads list task argl (args.map (List.take argl.toNat))
    exact ⟨ok,fun t => by simp [execThreads, alive]⟩

theorem exec_linked (linked : Linked k procs) (ok : KernelOk k) (head : k.pcbFreelist = some new)
    (alive : (k.PT cur).pstate = .alive) (call : Option Task) (argl : Int)
    (args : Option (List UInt8)) (closed : Closed (sysExec k cur call argl args).2) :
    Linked (sysExec k cur call argl args).2
      (Function.update procs new (execThreads (procs new) call argl args)) := by
  obtain ⟨k',run,tree,_⟩ := exec_spec head cur call argl args
  have ok' := exec_ok ok alive call argl args
  have programs := exec_programs head cur call argl args
  rw [run] at closed ok' programs ⊢
  have closed : Closed k' := closed
  have unused := head_unused ok head
  obtain ⟨none,list⟩ := dead_list linked ok (p := new) (by simp [unused])
  obtain ⟨made,first⟩ := exec_threads_spec (procs new) list call argl args
  have threads (p : Pid) : (k'.PT p).threads =
      (k.PT p).threads ++ if p = new ∧ call.isSome then [0] else [] := by
    refine (congrArg Links.threads (congrFun tree p)).trans ?_
    rw [execed_threads]
    rfl
  have state (p : Pid) : (k'.PT p).pstate = if p = new then .alive else (k.PT p).pstate := by
    refine (congrArg Links.pstate (congrFun tree p)).trans ?_
    rw [execed_pstate]
    rfl
  have program (p : Pid) := congrFun programs p
  simp only [Kernel.programs] at program
  refine ⟨fun p => ?_,fun p => ?_,fun p t => ?_,ok'.threads.counted,fun p alive' task => ?_,
    fun p zombie => ?_⟩
  · by_cases same : p = new
    · subst same
      simpa using made
    · simpa [same] using linked.ptcbs p
  · rw [threads]
    by_cases same : p = new
    · rw [same, none]
      split <;> simp
    · simpa [same] using linked.nodup p
  · rw [threads]
    by_cases same : p = new
    · subst same
      rw [none, Function.update_self, first]
      split
      · rename_i running
        simp [running.2]
      · rename_i running
        simpa using fun some' => absurd ⟨rfl,some'⟩ running
    · simpa [same] using linked.threads p t
  · have entry := program p
    rw [threads]
    by_cases same : p = new
    · rw [same, Function.update_self, Prod.mk.injEq] at entry
      rw [same, entry.1] at task
      simp [same, task]
    · rw [Function.update_of_ne same, Prod.mk.injEq] at entry
      rw [state, if_neg same] at alive'
      rw [entry.1] at task
      simpa [same] using linked.running p alive' task
  · have entry := program p
    have same : p ≠ new := by
      rintro rfl
      rw [state, if_pos rfl] at zombie
      cases zombie
    rw [Function.update_of_ne same, Prod.mk.injEq] at entry
    have zombie : (k'.PT p).pstate = .zombie := zombie
    have before := zombie
    rw [state, if_neg same] at before
    obtain ⟨gone,args',_⟩ := linked.ended p before
    refine ⟨?_,entry.2.trans args',closed p (by simp [zombie])⟩
    rw [threads, gone]
    simp [same]

theorem create_linked (linked : Linked k procs) (ok : KernelOk k) {tid : Tid}
    (member : tid ∈ (k.PT cur).threads) (task : Task) (argl : Int) (args : Option (List UInt8)) :
    Linked (sysCreateThread k cur (createPTCB (procs cur) task argl args).1)
      (Function.update procs cur (createPTCB (procs cur) task argl args).2) := by
  obtain ⟨made,_,alive,name⟩ := create_spec (linked.ptcbs cur)
    ((linked.threads cur tid).mp member) task argl args
  rw [name]
  have ok' := create_thread_ok ok member (procs cur).nextPtcb
  have tree := create_thread_tree k cur (procs cur).nextPtcb
  have threads (p : Pid) : ((sysCreateThread k cur (procs cur).nextPtcb).PT p).threads =
      (k.PT p).threads ++ if p = cur then [(procs cur).nextPtcb] else [] :=
    congrArg Links.threads (tree p)
  have state (p : Pid) : ((sysCreateThread k cur (procs cur).nextPtcb).PT p).pstate =
      (k.PT p).pstate := congrArg Links.pstate (tree p)
  have program (p : Pid) := congrFun (modify_programs k cur (f := fun b =>
    { b with threadCount := b.threadCount + 1, threads := b.threads ++ [(procs cur).nextPtcb] })
    (by simp)) p
  have tables := (same_files_modify k cur (g := fun b =>
    { b with threadCount := b.threadCount + 1, threads := b.threads ++ [(procs cur).nextPtcb] })
    (fun _ => rfl)).tables
  simp only [Kernel.programs, Prod.mk.injEq] at program
  have fresh : (procs cur).nextPtcb ∉ (k.PT cur).threads := fun there =>
    Nat.lt_irrefl _ (mem_live.mp ((linked.threads cur _).mp there)).1
  refine ⟨fun p => ?_,fun p => ?_,fun p t => ?_,ok'.threads.counted,fun p alive' task' => ?_,
    fun p zombie => ?_⟩
  · by_cases same : p = cur
    · subst same
      simpa using made
    · simpa [same] using linked.ptcbs p
  · rw [threads]
    by_cases same : p = cur
    · subst same
      rw [if_pos rfl]
      exact (linked.nodup p).append (List.nodup_singleton _) (by simpa using fresh)
    · simpa [same] using linked.nodup p
  · rw [threads]
    by_cases same : p = cur
    · subst same
      rw [if_pos rfl, Function.update_self, alive, Finset.mem_insert, ← linked.threads]
      simp [or_comm]
    · simpa [same] using linked.threads p t
  · rw [threads]
    rw [state] at alive'
    have task'' : (k.PT p).mainTask.isSome := (program p).1 ▸ task'
    exact List.append_ne_nil_of_left_ne_nil (linked.running p alive' task'') _
  · rw [state] at zombie
    obtain ⟨none,args',fids⟩ := linked.ended p zombie
    have apart : p ≠ cur := by
      rintro rfl
      rw [none] at member
      cases member
    refine ⟨?_,(program p).2.trans args',fun i => (congrFun (tables p) i).trans (fids i)⟩
    rw [threads, none]
    simp [apart]

/-- The process table after the exit of a thread. -/
structure ThreadGone (k k' : Kernel Task Obj Dev) (cur : Pid) (tid : Tid) : Prop where
  threads : ∀ p, (k'.PT p).threads =
    if p = cur then (k.PT p).threads.erase tid else (k.PT p).threads
  counts : ∀ p, (k'.PT p).threadCount =
    if p = cur then (k.PT p).threadCount - 1 else (k.PT p).threadCount
  states : ∀ p, (k'.PT p).pstate =
    if p = cur ∧ (k.PT cur).threadCount = 1 then .zombie else (k.PT p).pstate
  tables : ∀ p, (k'.PT p).pstate ≠ .alive → ∀ i, (k'.PT p).FIDT i = none

theorem not_last_gone (ops : FileOps Obj Dev) {f : FileRun Task Obj Dev} (inv : FileInv f)
    {tid : Tid} (member : tid ∈ (f.kernel.PT cur).threads)
    (notLast : cur = initpcb → (f.kernel.PT cur).threadCount ≠ 1)
    (rooted : ∃ birth, Rooted f.kernel.tree birth)
    (run : sysThreadExit ops f.kernel cur tid = some k') :
    FileInv { f with kernel := k' } ∧ (∃ birth, Rooted k'.tree birth) ∧
    ThreadGone f.kernel k' cur tid := by
  obtain ⟨k₁,run₁,ok,balanced,closed,_⟩ :=
    thread_exit_files ops inv.ok inv.balanced inv.closed member notLast
  cases run₁.symm.trans run
  obtain ⟨birth,rooted⟩ := rooted
  refine ⟨⟨ok,balanced,closed⟩,⟨birth,rooted_exit ops inv.ok rooted member notLast run⟩,?_⟩
  rcases exit_tree ops inv.ok member notLast run with ⟨last,_,parent,tree⟩ | ⟨last,tree⟩
  · refine ⟨fun p => congrArg Links.threads (congrFun tree p),
      fun p => congrArg Links.threadCount (congrFun tree p),fun p => ?_,closed⟩
    rw [show ((k'.PT p).pstate = if p = cur then .zombie else (f.kernel.PT p).pstate) from
      congrArg Links.pstate (congrFun tree p)]
    simp [last]
  · refine ⟨fun p => congrArg Links.threads (congrFun tree p),
      fun p => congrArg Links.threadCount (congrFun tree p),fun p => ?_,closed⟩
    rw [show (k'.PT p).pstate = (f.kernel.PT p).pstate from
      congrArg Links.pstate (congrFun tree p)]
    simp [last]

theorem init_gone (ops : FileOps Obj Dev) {f : FileRun Task Obj Dev} (inv : FileInv f)
    {tid : Tid} (member : tid ∈ (f.kernel.PT initpcb).threads)
    (last : (f.kernel.PT initpcb).threadCount = 1) (rooted : ∃ birth, Rooted f.kernel.tree birth)
    (run : sysThreadExit ops f.kernel initpcb tid = some k') :
    ThreadGone f.kernel k' initpcb tid ∧ Halted k' := by
  obtain ⟨birth,rooted⟩ := rooted
  obtain ⟨_,tree,halted⟩ := init_halts ops inv.ok rooted member last run
  have count : ((leaveProcess f.kernel initpcb tid).PT initpcb).threadCount = 0 := by
    simp [leaveProcess, last]
  have exit : exitProcess ops (leaveProcess f.kernel initpcb tid) initpcb = some k' := by
    simpa [sysThreadExit, count] using run
  have left := same_files_modify f.kernel initpcb (g := fun b =>
    { b with threadCount := b.threadCount - 1, threads := b.threads.erase tid }) (fun _ => rfl)
  obtain ⟨_,others,gone,_⟩ := exit_process_files ops (balanced_same inv.balanced left) exit
  have states (p : Pid) := congrArg Links.pstate (congrFun tree p)
  simp only [Kernel.tree, Tree.ended, Tree.threadLeft] at states
  refine ⟨⟨fun p => congrArg Links.threads (congrFun tree p),
    fun p => congrArg Links.threadCount (congrFun tree p),fun p => ?_,fun p dead i => ?_⟩,halted⟩
  · rw [states]
    simp [last]
  · by_cases here : p = initpcb
    · exact here ▸ gone i
    · rw [others p here, left.tables p]
      rw [states, if_neg here] at dead
      exact inv.closed p dead i

theorem exit_gone (ops : FileOps Obj Dev) {f : FileRun Task Obj Dev} (inv : FileInv f)
    (rooted : ∃ birth, Rooted f.kernel.tree birth) {tid : Tid}
    (member : tid ∈ (f.kernel.PT cur).threads)
    (run : sysThreadExit ops f.kernel cur tid = some k') : ThreadGone f.kernel k' cur tid := by
  by_cases final : cur = initpcb ∧ (f.kernel.PT cur).threadCount = 1
  · obtain ⟨rfl,last⟩ := final
    exact (init_gone ops inv member last rooted run).1
  · exact (not_last_gone ops inv member (fun init last => final ⟨init,last⟩) rooted run).2.2

theorem remaining_threads (linked : Linked k procs) (cur : Pid) (tid t : Tid) :
    t ∈ (k.PT cur).threads.erase tid ↔ t ∈ (live (procs cur)).erase tid := by
  rw [(linked.nodup cur).mem_erase_iff, Finset.mem_erase, linked.threads]

/-- The test of thread_count in ThreadExit tells whether no other thread is left. -/
theorem last_agrees (linked : Linked k procs) {tid : Tid} (member : tid ∈ (k.PT cur).threads) :
    decide (((leaveProcess k cur tid).PT cur).threadCount = 0) = true ↔
      (live (procs cur)).erase tid = ∅ := by
  have remaining := remaining_threads linked cur tid
  have counted := linked.counted cur
  have length : ((k.PT cur).threads.erase tid).length + 1 = (k.PT cur).threads.length := by
    have short := List.length_erase_of_mem member
    have long := List.length_pos_of_mem member
    omega
  have count : ((leaveProcess k cur tid).PT cur).threadCount = (k.PT cur).threadCount - 1 := by
    simp [leaveProcess]
  rw [decide_eq_true_iff, count, counted]
  constructor
  · intro zero
    have none : (k.PT cur).threads.erase tid = [] := List.length_eq_zero_iff.mp (by omega)
    apply Finset.eq_empty_of_forall_notMem
    intro t still
    have there := (remaining t).mpr still
    rw [none] at there
    cases there
  · intro none
    have empty : (k.PT cur).threads.erase tid = [] := by
      apply List.eq_nil_iff_forall_not_mem.mpr
      intro t still
      have there := (remaining t).mp still
      rw [none] at there
      cases there
    rw [empty] at length
    simp only [List.length_nil] at length
    omega

theorem exit_linked (ops : FileOps Obj Dev) (linked : Linked k procs) {tid : Tid}
    (member : tid ∈ (k.PT cur).threads) (idle : (procs cur).calls tid = none)
    (run : sysThreadExit ops k cur tid = some k') (gone : ThreadGone k k' cur tid)
    (exitval : Int) :
    Linked k' (Function.update procs cur (exitPTCB (procs cur) tid exitval
      (decide (((leaveProcess k cur tid).PT cur).threadCount = 0)))) := by
  have inside : tid ∈ live (procs cur) := (linked.threads cur tid).mp member
  have counted := linked.counted cur
  have agrees := last_agrees linked member
  obtain ⟨made,_,alive,_⟩ := exit_spec (linked.ptcbs cur) inside idle exitval _ agrees
  have programs := exit_programs ops run
  have program (p : Pid) := congrFun programs p
  have last : (k.PT cur).threadCount = 1 ↔ (k.PT cur).threads.erase tid = [] := by
    have short := List.length_erase_of_mem member
    have long := List.length_pos_of_mem member
    rw [← List.length_eq_zero_iff]
    omega
  refine ⟨fun p => ?_,fun p => ?_,fun p t => ?_,fun p => ?_,fun p running task => ?_,
    fun p zombie => ?_⟩
  · by_cases same : p = cur
    · subst same
      simpa using made
    · simpa [same] using linked.ptcbs p
  · rw [gone.threads]
    split
    · exact (linked.nodup p).erase tid
    · exact linked.nodup p
  · rw [gone.threads]
    by_cases same : p = cur
    · subst same
      rw [if_pos rfl, Function.update_self, alive]
      exact remaining_threads linked p tid t
    · simpa [same] using linked.threads p t
  · rw [gone.threads, gone.counts]
    have before := linked.counted p
    by_cases same : p = cur
    · subst same
      have short := List.length_erase_of_mem member
      have long := List.length_pos_of_mem member
      rw [if_pos rfl, if_pos rfl]
      omega
    · rw [if_neg same, if_neg same]
      exact before
  · have entry := program p
    simp only [Kernel.programs] at entry
    rw [gone.states] at running
    rw [gone.threads]
    by_cases final : (k.PT cur).threadCount = 1
    · have same : p ≠ cur := by
        rintro rfl
        simp [final] at running
      rw [if_pos final, Function.update_of_ne same, Prod.mk.injEq] at entry
      rw [if_neg (by simp [same])] at running
      rw [entry.1] at task
      rw [if_neg same]
      exact linked.running p running task
    · rw [if_neg final, Prod.mk.injEq] at entry
      rw [if_neg (by simp [final])] at running
      rw [entry.1] at task
      by_cases same : p = cur
      · rw [if_pos same, same]
        exact fun none => final (last.mpr none)
      · rw [if_neg same]
        exact linked.running p running task
  · have entry := program p
    simp only [Kernel.programs] at entry
    refine ⟨?_,?_,gone.tables p (by simp [zombie])⟩
    · rw [gone.states] at zombie
      rw [gone.threads]
      by_cases same : p = cur
      · subst same
        rw [if_pos rfl]
        by_cases final : (k.PT p).threadCount = 1
        · exact last.mp final
        · rw [if_neg (by simp [final])] at zombie
          rw [(linked.ended p zombie).1] at member
          cases member
      · rw [if_neg same]
        rw [if_neg (by simp [same])] at zombie
        exact (linked.ended p zombie).1
    · rw [gone.states] at zombie
      by_cases final : (k.PT cur).threadCount = 1
      · rw [if_pos final] at entry
        by_cases same : p = cur
        · rw [same, Function.update_self, Prod.mk.injEq] at entry
          rw [same]
          exact entry.2
        · rw [Function.update_of_ne same, Prod.mk.injEq] at entry
          rw [if_neg (by simp [same])] at zombie
          exact entry.2.trans (linked.ended p zombie).2.1
      · rw [if_neg final, Prod.mk.injEq] at entry
        rw [if_neg (by simp [final])] at zombie
        exact entry.2.trans (linked.ended p zombie).2.1

theorem exit_inv (ops : FileOps Obj Dev) (inv : ThreadInv s)
    (system : FileInv s.files ∧ ∃ birth, Rooted s.kernel.tree birth) (idle : s.Idle t)
    {exitval : Int} (run : exitThread ops s t exitval = some s') :
    ThreadInv s' ∧ ThreadGone s.kernel s'.kernel t.1 t.2 := by
  obtain ⟨⟨member,unused⟩,_,call⟩ := idle
  obtain ⟨files,rooted⟩ := system
  simp only [exitThread, Option.map_eq_some_iff] at run
  obtain ⟨k',run,rfl⟩ := run
  have users (gone : ThreadGone s.kernel k' t.1 t.2) :
      ∀ e ∈ s.files.inUse, e.1.2 ∈ (k'.PT e.1.1).threads := by
    intro e used
    have before := inv.users e used
    rw [gone.threads]
    by_cases same : e.1.1 = t.1
    · have apart : e.1.2 ≠ t.2 := fun tid => unused
        (List.mem_map.mpr ⟨e,used,Prod.ext same tid⟩)
      rw [if_pos same]
      exact (List.mem_erase_of_ne apart).mpr before
    · rwa [if_neg same]
  by_cases last : t.1 = initpcb ∧ (s.kernel.PT initpcb).threadCount = 1
  · have member' : t.2 ∈ (s.files.kernel.PT initpcb).threads := last.1 ▸ member
    have run' : sysThreadExit ops s.files.kernel initpcb t.2 = some k' := last.1 ▸ run
    obtain ⟨gone,halted⟩ := init_gone ops files member' last.2 rooted run'
    have gone : ThreadGone s.kernel k' t.1 t.2 := by
      rw [last.1]
      exact gone
    exact ⟨⟨exit_linked ops inv.linked member call run gone exitval,users gone,
      Or.inr halted⟩,gone⟩
  · have notLast (init : t.1 = initpcb) : (s.files.kernel.PT t.1).threadCount ≠ 1 := fun count =>
      last ⟨init,init ▸ count⟩
    obtain ⟨files',rooted',gone⟩ := not_last_gone ops files member notLast rooted run
    have gone : ThreadGone s.kernel k' t.1 t.2 := gone
    exact ⟨⟨exit_linked ops inv.linked member call run gone exitval,users gone,
      Or.inl ⟨files',rooted'⟩⟩,gone⟩

theorem idle_live (inv : ThreadInv s) (idle : s.Idle t) :
    t.2 ∈ live (s.procs t.1) ∧ (s.procs t.1).calls t.2 = none :=
  ⟨(inv.linked.threads t.1 t.2).mp idle.1.1,idle.2.2⟩

/-- ThreadJoin from its first section on. -/
theorem join_ok (inv : ThreadInv s) (idle : s.Idle t) (tid : Option PtcbRef) (out : Bool) :
    Joined (s.procs t.1) (sysThreadJoin (s.procs t.1) t.2 tid out).2 t.2 := by
  have ok := inv.linked.ptcbs t.1
  obtain ⟨member,free⟩ := idle_live inv idle
  by_cases refused : Refused (s.procs t.1) t.2 tid
  · rw [join_refused ok refused]
    exact ⟨ok,.refl _ _,rfl,rfl⟩
  · simp only [Refused, not_forall, not_or, Bool.not_eq_true, not_not] at refused
    obtain ⟨r,rfl,listed,apart,joinable⟩ := refused
    exact (join_spec ok member free listed apart joinable out).2

theorem detach_ok (ok : PtcbOk (s.procs p) none) (tid : Option PtcbRef) (t : PtcbRef) :
    Joined (s.procs p) (sysThreadDetach (s.procs p) tid).2 t := by
  by_cases refused : ∀ r, tid = some r →
      r ∉ (s.procs p).ptcbList ∨ ((s.procs p).ptcbs r).exited = true
  · rw [detach_refused ok refused]
    exact ⟨ok,.refl _ _,rfl,rfl⟩
  · simp only [not_forall, not_or, Bool.not_eq_true, not_not] at refused
    obtain ⟨r,rfl,listed,running⟩ := refused
    obtain ⟨s',run,_,joined⟩ := detach_spec ok listed running t
    rw [run]
    exact joined

theorem set_exitval_inv (inv : ThreadInv s)
    (system : FileInv s.files ∧ ∃ birth, Rooted s.kernel.tree birth) (p : Pid) (exitval : Int) :
    ThreadInv (s.setKernel (s.kernel.modify p ({ · with exitval := exitval }))) ∧
    FileInv (s.setKernel (s.kernel.modify p ({ · with exitval := exitval }))).files ∧
    ∃ birth, Rooted (s.kernel.modify p ({ · with exitval := exitval })).tree birth := by
  obtain ⟨files,birth,rooted⟩ := system
  have tree := set_exitval_tree s.kernel p exitval
  have same := same_files_modify s.kernel p (g := ({ · with exitval := exitval })) (fun _ => rfl)
  have kept : TableKept s.kernel (s.kernel.modify p ({ · with exitval := exitval })) := by
    refine ⟨fun q => congrArg Links.threads (congrFun tree q),
      modify_programs s.kernel p (f := ({ · with exitval := exitval })) (by simp),fun q => ?_,
      fun q => ?_,fun birth rooted => tree ▸ rooted⟩
    · rw [show ((s.kernel.modify p ({ · with exitval := exitval })).PT q).pstate =
        (s.kernel.PT q).pstate from congrArg Links.pstate (congrFun tree q)]
    · rw [show ((s.kernel.modify p ({ · with exitval := exitval })).PT q).pstate =
        (s.kernel.PT q).pstate from congrArg Links.pstate (congrFun tree q)]
      exact id
  have ok' := kernel_ok_congr files.ok tree rfl rfl
  have closed' : Closed (s.kernel.modify p ({ · with exitval := exitval })) := by
    intro q dead i
    have state : ((s.kernel.modify p ({ · with exitval := exitval })).PT q).pstate =
        (s.kernel.PT q).pstate := congrArg Links.pstate (congrFun tree q)
    rw [same.tables]
    exact files.closed q (state ▸ dead) i
  have files' : FileInv (s.setKernel (s.kernel.modify p ({ · with exitval := exitval }))).files :=
    ⟨ok',balanced_same files.balanced same,closed'⟩
  refine ⟨⟨kept_linked inv.linked kept ok' closed',fun e used => ?_,
    Or.inl ⟨files',birth,kept.rooted birth rooted⟩⟩,files',birth,kept.rooted birth rooted⟩
  rw [set_kernel_kernel, kept.threads]
  exact inv.users e used

theorem set_exitval_idle (idle : s.Idle t) (p : Pid) (exitval : Int) :
    (s.setKernel (s.kernel.modify p ({ · with exitval := exitval }))).Idle t := by
  obtain ⟨⟨member,unused⟩,rest⟩ := idle
  refine ⟨⟨?_,unused⟩,rest⟩
  have same := congrArg Links.threads (congrFun (set_exitval_tree s.kernel p exitval) t.1)
  have threads : ((s.kernel.modify p ({ · with exitval := exitval })).PT t.1).threads =
    (s.kernel.PT t.1).threads := same
  change t.2 ∈ ((s.kernel.modify p ({ · with exitval := exitval })).PT t.1).threads
  rw [threads]
  exact member

theorem exec_thread_inv (ops : FileOps Obj Dev) (inv : ThreadInv s) (files : FileInv s.files)
    {birth : Pid → ℕ} (rooted : Rooted s.kernel.tree birth) {t : Pid × Tid} {call : Option Task}
    {argl : Int} {args : Option (List UInt8)} (enabled : ThreadEnabled s (.exec t call argl args))
    (run : threadExec ops s (.exec t call argl args) = some s') : ThreadInv s' := by
  have member : t.2 ∈ (s.kernel.PT t.1).threads := enabled.1.1
  have alive := running_alive files.ok member
  obtain ⟨balanced',closed',_⟩ : _ ∧ _ ∧ OpensOnly (fun _ => True) _ _ :=
    exec_files files.ok files.balanced files.closed t.1 call argl args
  have ok' := exec_ok files.ok alive call argl args
  cases head : s.kernel.pcbFreelist with
  | none =>
    simp only [threadExec, exec_full head, Option.some.injEq] at run
    cases run
    exact inv
  | some new =>
    obtain ⟨k',exec,tree,_⟩ := exec_spec head t.1 call argl args
    have linked := exec_linked inv.linked files.ok head alive call argl args closed'
    have apart : t.1 ≠ 0 := fun zero => by
      have none : (s.kernel.PT 0).threads = [] := files.ok.threads.idle.2
      rw [zero, none] at member
      cases member
    obtain ⟨birth',rooted'⟩ := rooted_execed rooted files.ok.wf (head_unused files.ok head) apart
      alive call.isSome
    simp only [threadExec, exec, Option.some.injEq] at run
    cases run
    have exec' : sysExec s.files.kernel t.1 call argl args = (some new,k') := exec
    rw [exec'] at balanced' closed' ok'
    rw [exec] at linked
    refine ⟨linked,fun e used => ?_,Or.inl ⟨⟨ok',balanced',closed'⟩,birth',tree ▸ rooted'⟩⟩
    have threads : (k'.PT e.1.1).threads = (s.kernel.PT e.1.1).threads ++ _ :=
      (congrArg Links.threads (congrFun tree e.1.1)).trans (execed_threads ..)
    change e.1.2 ∈ (k'.PT e.1.1).threads
    rw [threads]
    exact List.mem_append_left _ (inv.users e used)

theorem create_thread_inv (ops : FileOps Obj Dev) (inv : ThreadInv s) (files : FileInv s.files)
    {birth : Pid → ℕ} (rooted : Rooted s.kernel.tree birth) {t : Pid × Tid} {task : Task}
    {argl : Int} {args : Option (List UInt8)}
    (enabled : ThreadEnabled s (.createThread t task argl args))
    (run : threadExec ops s (.createThread t task argl args) = some s') : ThreadInv s' := by
  have member : t.2 ∈ (s.kernel.PT t.1).threads := enabled.1.1
  have linked := create_linked inv.linked files.ok member task argl args
  have fresh : (createPTCB (s.procs t.1) task argl args).1 ∉ (s.files.kernel.PT t.1).threads := by
    intro there
    rw [create_eq] at there
    exact Nat.lt_irrefl _ (mem_live.mp ((inv.linked.threads t.1 _).mp there)).1
  rcases made : createPTCB (s.procs t.1) task argl args with ⟨tid,threads⟩
  rw [made] at linked fresh
  have tree := create_thread_tree s.kernel t.1 tid
  obtain ⟨f',run',files',_⟩ := file_step ops files (a := .createThread t tid) ⟨enabled.1,fresh⟩ id
  simp only [fileExec, Option.some.injEq] at run'
  simp only [threadExec, made, Option.some.injEq] at run
  cases run'
  cases run
  refine ⟨linked,fun e used => ?_,Or.inl ⟨files',birth,?_⟩⟩
  · have grown : ((sysCreateThread s.kernel t.1 tid).PT e.1.1).threads =
      (s.kernel.PT e.1.1).threads ++ _ := congrArg Links.threads (tree e.1.1)
    change e.1.2 ∈ ((sysCreateThread s.kernel t.1 tid).PT e.1.1).threads
    rw [grown]
    exact List.mem_append_left _ (inv.users e used)
  · change Rooted (sysCreateThread s.kernel t.1 tid).tree birth
    have states (p : Pid) : ((sysCreateThread s.kernel t.1 tid).tree p).pstate =
      (s.kernel.tree p).pstate := by rw [tree p]
    exact rooted_congr rooted (fun p => by rw [states]) (fun p _ => by rw [tree p])

theorem thread_step (ops : FileOps Obj Dev) (inv : ThreadInv s) {a : ThreadAction Task Obj}
    (enabled : ThreadEnabled s a) (run : threadExec ops s a = some s') : ThreadInv s' := by
  have system := files_halted inv a enabled
  have ⟨files,birth,rooted⟩ := system
  cases a with
  | start t =>
    cases run
    have member := (inv.linked.threads t.1 t.2).mp enabled.1
    have ok := inv.linked.ptcbs t.1
    refine threads_inv inv t.1 (exe_ok ok member) ?_
    simp only [threadExe, use_eq (listed_unfreed ok (ok.kept t.2 member)).2]
    rfl
  | exec t call argl args => exact exec_thread_inv ops inv files rooted enabled run
  | createThread t task argl args => exact create_thread_inv ops inv files rooted enabled run
  | join t tid out =>
    cases run
    have joined := join_ok inv enabled tid out
    exact threads_inv inv t.1 joined.ok joined.live
  | resume t =>
    obtain ⟨r,out,threads,_,_,run',joined⟩ := resume_spec (inv.linked.ptcbs t.1) enabled
    simp only [threadExec, run', Option.map_some, Option.some.injEq] at run
    cases run
    exact threads_inv inv t.1 joined.ok joined.live
  | detach t tid =>
    cases run
    have joined := detach_ok (inv.linked.ptcbs t.1) tid t.2
    exact threads_inv inv t.1 joined.ok joined.live
  | threadExit t exitval => exact (exit_inv ops inv system enabled run).1
  | exit t exitval =>
    obtain ⟨inv',system'⟩ := set_exitval_inv inv system t.1 exitval
    exact (exit_inv ops inv' system' (set_exitval_idle enabled.1 t.1 exitval) run).1
  | files a =>
    obtain ⟨enabled,caller⟩ := enabled
    have more : ¬ s.files.Final a := fun final => by
      cases a with
      | threadExit => exact caller
      | _ => exact final
    obtain ⟨f',run',files',_⟩ := file_step ops files enabled more
    simp only [threadExec, run', Option.map_some, Option.some.injEq] at run
    cases run
    obtain ⟨kept,users⟩ := files_kept ops files enabled caller run'
    refine ⟨kept_linked inv.linked kept files'.ok files'.closed,fun e used => ?_,
      Or.inl ⟨files',birth,kept.rooted birth rooted⟩⟩
    change e.1.2 ∈ (f'.kernel.PT e.1.1).threads
    rw [kept.threads]
    exact (users e used).elim (inv.users e) id

theorem booted_inv (blank : Obj) (device : Dev) (memory : PTCB Task) (task : Task) (argl : Int)
    (args : Option (List UInt8)) :
    ThreadInv (bootedThreads blank device memory task argl args) := by
  obtain ⟨tree,_⟩ := boot_spec (initializeFiles blank device) task argl args
  have files := start_inv blank device task argl args
  have threads (p : Pid) : ((boot (initializeFiles blank device) task argl args).PT p).threads =
      if p = initpcb then [0] else [] := congrArg Links.threads (tree p)
  have state (p : Pid) : ((boot (initializeFiles blank device) task argl args).PT p).pstate =
      if p.val ≤ 1 then .alive else .free := congrArg Links.pstate (tree p)
  obtain ⟨main,first⟩ := exec_threads_spec (noThreads memory) rfl (some task) argl args
  have none : PtcbOk (noThreads memory) none ∧ live (noThreads memory) = ∅ :=
    ⟨renew_ok (noThreads memory) rfl,renew_live (noThreads memory)⟩
  refine ⟨⟨fun p => ?_,fun p => ?_,fun p t => ?_,files.ok.threads.counted,fun p alive called => ?_,
    fun p zombie => ?_⟩,fun e used => absurd used List.not_mem_nil,
    Or.inl ⟨files,_,boot_rooted (initializeFiles blank device) task argl args⟩⟩
  · by_cases here : p = initpcb
    · subst here
      simpa [bootedThreads] using main
    · simpa [bootedThreads, here] using none.1
  · change ((boot (initializeFiles blank device) task argl args).PT p).threads.Nodup
    rw [threads]
    split <;> simp
  · change t ∈ ((boot (initializeFiles blank device) task argl args).PT p).threads ↔ _
    rw [threads]
    by_cases here : p = initpcb
    · subst here
      simp [bootedThreads, first]
    · simp [bootedThreads, here, none.2]
  · change ((boot (initializeFiles blank device) task argl args).PT p).threads ≠ []
    rw [threads]
    by_cases here : p = initpcb
    · simp [here]
    · have program := congrFun (boot_programs (initializeFiles blank device) task argl args) p
      rw [Function.update_of_ne here, Kernel.programs, Prod.mk.injEq] at program
      change ((boot (initializeFiles blank device) task argl args).PT p).mainTask.isSome at called
      rw [program.1] at called
      cases called
  · change ((boot (initializeFiles blank device) task argl args).PT p).pstate = _ at zombie
    rw [state] at zombie
    split at zombie <;> cases zombie

theorem thread_reach_inv (ops : FileOps Obj Dev) (reach : (threadSystem Task ops).Reach s) :
    ThreadInv s := by
  refine inductive_reach ⟨?_,?_⟩ reach
  · rintro s ⟨blank,device,memory,task,argl,args,rfl⟩
    exact booted_inv blank device memory task argl args
  · intro s a s' inv move
    exact thread_step ops inv move.1 move.2

end KernelThreads
