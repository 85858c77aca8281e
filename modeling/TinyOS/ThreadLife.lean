import TinyOS.ThreadSteps

/- The life of a process follows its threads: it is ALIVE while one of them runs and becomes a
   ZOMBIE when the last one exits, with its PTCBs freed and everything else cleaned up. -/
namespace KernelThreads
open KernelStreams KernelProc Monitor Transition
variable {Task Obj Dev : Type} {s s' : ThreadRun Task Obj Dev} {k k' : Kernel Task Obj Dev}
  {cur p new : Pid} {t : Thread}

theorem zombie_list (inv : ThreadInv s) (zombie : (s.kernel.PT p).pstate = .zombie) :
    live (s.procs p) = ∅ ∧ (s.procs p).ptcbList = [] := by
  have none : live (s.procs p) = ∅ := by
    apply Finset.eq_empty_of_forall_notMem
    intro t member
    have there := (inv.linked.threads p t).mpr member
    rw [(inv.linked.ended p zombie).1] at there
    cases there
  exact ⟨none,(inv.linked.ptcbs p).ended none⟩

/-- No PTCB is touched when it has been freed, none is freed twice, before its thread has exited
    or under a joiner, and all of them are freed when the process is a zombie. -/
theorem ptcbs_freed_once (ops : FileOps Obj Dev) (reach : (threadSystem Task ops).Reach s)
    (p : Pid) : (s.procs p).faults = [] ∧ ∀ r, (s.procs p).frees r ≤ 1 ∧
      (0 < (s.procs p).frees r → ((s.procs p).ptcbs r).exited = true ∧
        ∀ t out, (s.procs p).calls t ≠ some (r,out)) ∧
      ((s.kernel.PT p).pstate = .zombie → r < (s.procs p).nextPtcb → (s.procs p).frees r = 1) := by
  have inv := thread_reach_inv ops reach
  have ok := inv.linked.ptcbs p
  refine ⟨ok.faults,fun r => ⟨ok.frees r,fun freed => ⟨?_,fun t out call => ?_⟩,
    fun zombie below => ?_⟩⟩
  · have below : r < (s.procs p).nextPtcb := by
      by_contra fresh
      have unfreed := (ok.fresh r (Nat.le_of_not_lt fresh)).1
      omega
    by_contra running
    have member := ok.kept r (mem_live.mpr ⟨below,Bool.not_eq_true _ ▸ running⟩)
    have unfreed := (listed_unfreed ok member).2
    omega
  · have unfreed := (listed_unfreed ok (ok.calls t r out call).2).2
    omega
  · have once := ok.frees r
    have some' : (s.procs p).frees r ≠ 0 := fun unfreed => by
      have member := (ok.members r).mpr ⟨below,unfreed⟩
      rw [(zombie_list inv zombie).2] at member
      cases member
    omega

/- The main thread of init makes a thread that exits, and joins it. -/
def joinedRun : List (ThreadAction Unit Unit) :=
  [.createThread (initpcb,0) () 0 none, .start (initpcb,1), .join (initpcb,0) (some 1) true,
    .threadExit (initpcb,1) 7, .resume (initpcb,0)]

def idleMemory : PTCB Unit :=
  { task := (), argl := 0, args := none, exitval := 0, exited := false, detached := false
    refcount := 0 }

theorem ptcbs_freed_once_joined : ∃ s, (threadSystem Unit bareOps).Reach s ∧
    (s.procs initpcb).frees 1 = 1 ∧ ((s.procs initpcb).ptcbs 1).exited = true := by
  have reach := play_reach (m := threadSystem Unit bareOps)
    (s := bootedThreads () () idleMemory () 0 none) ⟨(),(),idleMemory,(),0,none,rfl⟩ joinedRun rfl
  have freed := ptcbs_freed_once bareOps reach initpcb
  exact ⟨_,reach,rfl,((freed.2 1).2.1 Nat.zero_lt_one).1⟩

/-- The step by which the last thread of the process exits. -/
def LastExit (s : ThreadRun Task Obj Dev) (a : ThreadAction Task Obj) (p : Pid) : Prop :=
  ∃ t exitval, (a = .threadExit (p,t) exitval ∨ a = .exit (p,t) exitval) ∧ live (s.procs p) = {t}

/-- args is freed, the streams are dropped, and a child is once in the exited list of its parent. -/
def CleanedUp (k : Kernel Task Obj Dev) (p : Pid) : Prop :=
  (k.PT p).args = none ∧ (∀ i, (k.PT p).FIDT i = none) ∧
  (2 ≤ p.val → ∃ parent, (k.PT p).parent = some parent ∧ (k.PT parent).exitedList.count p = 1 ∧
    ∀ q, q ≠ parent → p ∉ (k.PT q).exitedList)

theorem thread_count_live (inv : ThreadInv s) (p : Pid) :
    (s.kernel.PT p).threadCount = (live (s.procs p)).card := by
  have same : (s.kernel.PT p).threads.toFinset = live (s.procs p) := by
    ext t
    rw [List.mem_toFinset, inv.linked.threads]
  rw [inv.linked.counted, ← same, List.toFinset_card_of_nodup (inv.linked.nodup p)]

theorem running_live (inv : ThreadInv s) (p : Pid) :
    (s.kernel.PT p).threads ≠ [] ↔ live (s.procs p) ≠ ∅ := by
  constructor
  · intro some none
    obtain ⟨t,member⟩ := List.exists_mem_of_ne_nil _ some
    have there := (inv.linked.threads p t).mp member
    rw [none] at there
    cases there
  · intro some none
    obtain ⟨t,member⟩ := Finset.nonempty_iff_ne_empty.mpr some
    have there := (inv.linked.threads p t).mpr member
    rw [none] at there
    cases there

/-- A process that Exec has given a task is ALIVE or a zombie, as it has threads or not. -/
theorem state_of_live (inv : ThreadInv s) (used : (s.kernel.PT p).pstate ≠ .free)
    (task : (s.kernel.PT p).mainTask.isSome) :
    ((s.kernel.PT p).pstate = .alive ↔ live (s.procs p) ≠ ∅) ∧
    ((s.kernel.PT p).pstate = .zombie ↔ live (s.procs p) = ∅) := by
  have alive := inv.linked.running p
  have zombie := inv.linked.ended p
  have same := running_live inv p
  cases state : (s.kernel.PT p).pstate with
  | free => exact absurd state used
  | alive =>
    have some' := same.mp (alive state task)
    simp [some']
  | zombie =>
    have none : live (s.procs p) = ∅ := by
      by_contra some'
      exact same.mpr some' (zombie state).1
    simp [none]

theorem zombie_cleaned (inv : ThreadInv s) (zombie : (s.kernel.PT p).pstate = .zombie) :
    CleanedUp s.kernel p := by
  obtain ⟨_,args,fids⟩ := inv.linked.ended p zombie
  refine ⟨args,fids,fun child => ?_⟩
  rcases inv.system with ⟨files,_⟩ | halted
  · have wf := files.ok.wf
    obtain ⟨parent,is,_⟩ := wf.parents p child (show (s.kernel.PT p).pstate ≠ .free by simp [zombie])
    refine ⟨parent,is,?_,fun q apart member => ?_⟩
    · have member := (wf.exited p parent).mpr ⟨child,zombie,is⟩
      exact List.count_eq_one_of_mem (wf.exitedNodup parent) member
    · obtain ⟨_,_,is'⟩ := (wf.exited p q).mp member
      exact apart (Option.some.inj (is'.symm.trans is))
  · rw [halted.others p child] at zombie
    cases zombie

theorem alive_unlisted (inv : ThreadInv s) (alive : (s.kernel.PT p).pstate = .alive)
    (running : live (s.procs p) ≠ ∅) (q : Pid) : p ∉ (s.kernel.PT q).exitedList := by
  rcases inv.system with ⟨files,_⟩ | halted
  · intro member
    have zombie : (s.kernel.PT p).pstate = .zombie := ((files.ok.wf.exited p q).mp member).2.1
    rw [alive] at zombie
    cases zombie
  · exact absurd (halted.threads p) ((running_live inv p).mpr running)

theorem exec_tables (ok : KernelOk k) {held : FcbRef → Nat} (balanced : Balanced k held [])
    (closed : Closed k) (head : k.pcbFreelist = some new) (cur : Pid) (call : Option Task)
    (argl : Int) (args : Option (List UInt8)) (apart : p ≠ new) :
    ((sysExec k cur call argl args).2.PT p).FIDT = (k.PT p).FIDT := by
  have empty := closed new (by simp [head_unused ok head])
  obtain ⟨k₁,acquired,same⟩ := acquire_files head
  have clear (i : Fid) := (congrFun (same.tables new) i).trans (empty i)
  obtain ⟨_,_,tables⟩ : _ ∧ OpensOnly (fun _ => True) _ _ ∧ _ :=
    attach_child_files (balanced_same balanced same) clear cur
  have programmed := same_files_modify (attachChild k₁ cur new) new
    (g := ({ · with mainTask := call, argl := argl, args := args.map (List.take argl.toNat) }))
    (fun _ => rfl)
  have started := start_files (setProgram (attachChild k₁ cur new) new call argl args) new call
  simp only [sysExec, acquired]
  exact (started.tables p).trans ((programmed.tables p).trans
    ((tables p apart).trans (same.tables p)))

theorem exit_tables (ops : FileOps Obj Dev) {held : FcbRef → Nat} (balanced : Balanced k held [])
    {tid : Tid} (run : sysThreadExit ops k cur tid = some k')
    (other : p ≠ cur ∨ (k.PT cur).threadCount ≠ 1) : (k'.PT p).FIDT = (k.PT p).FIDT := by
  have left := same_files_modify k cur (g := fun b =>
    { b with threadCount := b.threadCount - 1, threads := b.threads.erase tid }) (fun _ => rfl)
  have count : ((leaveProcess k cur tid).PT cur).threadCount = (k.PT cur).threadCount - 1 := by
    simp [leaveProcess]
  simp only [sysThreadExit, count] at run
  split at run
  · have apart : p ≠ cur := other.resolve_right (by omega)
    obtain ⟨_,others,_⟩ := exit_process_files ops (balanced_same balanced left) run
    exact (others p apart).trans (left.tables p)
  · cases run
    exact left.tables p

/-- What a step that is not the exit of its last thread leaves of a process. -/
structure ProcessKept (k k' : Kernel Task Obj Dev) (p : Pid) : Prop where
  state : (k'.PT p).pstate = .alive
  task : (k'.PT p).mainTask = (k.PT p).mainTask
  args : (k'.PT p).args = (k.PT p).args

theorem last_iff (inv : ThreadInv s) (member : t.2 ∈ (s.kernel.PT t.1).threads) :
    (s.kernel.PT t.1).threadCount = 1 ↔ live (s.procs t.1) = {t.2} := by
  have inside := (inv.linked.threads t.1 t.2).mp member
  rw [thread_count_live inv]
  constructor
  · intro one
    obtain ⟨u,single⟩ := Finset.card_eq_one.mp (Int.ofNat.inj one)
    rw [single, Finset.mem_singleton] at inside
    rw [single, inside]
  · intro single
    rw [single]
    rfl

theorem exit_kept (ops : FileOps Obj Dev) (inv : ThreadInv s)
    (system : FileInv s.files ∧ ∃ birth, Rooted s.kernel.tree birth) (idle : s.Idle t)
    {exitval : Int} (run : exitThread ops s t exitval = some s')
    (alive : (s.kernel.PT p).pstate = .alive) :
    (p = t.1 ∧ live (s.procs p) = {t.2} →
      (s'.kernel.PT p).pstate = .zombie ∧ (s'.kernel.PT p).mainTask = (s.kernel.PT p).mainTask) ∧
    (¬ (p = t.1 ∧ live (s.procs p) = {t.2}) →
      ProcessKept s.kernel s'.kernel p ∧ (s'.kernel.PT p).FIDT = (s.kernel.PT p).FIDT) := by
  have gone := (exit_inv ops inv system idle run).2
  have last := last_iff inv idle.1.1
  simp only [exitThread, Option.map_eq_some_iff] at run
  obtain ⟨k',run,rfl⟩ := run
  have gone : ThreadGone s.kernel k' t.1 t.2 := gone
  have entry := congrFun (exit_programs ops run) p
  change (p = t.1 ∧ _ → (k'.PT p).pstate = .zombie ∧ (k'.PT p).mainTask = _) ∧
    (¬ (p = t.1 ∧ _) → ProcessKept s.kernel k' p ∧ (k'.PT p).FIDT = _)
  simp only [Kernel.programs] at entry
  refine ⟨?_,fun other => ?_⟩
  · rintro ⟨rfl,single⟩
    have count := last.mpr single
    rw [if_pos count, Function.update_self, Prod.mk.injEq] at entry
    exact ⟨by rw [gone.states, if_pos ⟨rfl,count⟩],entry.1⟩
  · have apart : ¬ (p = t.1 ∧ (s.kernel.PT t.1).threadCount = 1) := by
      rintro ⟨rfl,count⟩
      exact other ⟨rfl,last.mp count⟩
    have kept : ((k'.PT p).mainTask,(k'.PT p).args) =
        ((s.kernel.PT p).mainTask,(s.kernel.PT p).args) := by
      rw [entry]
      by_cases count : (s.kernel.PT t.1).threadCount = 1
      · have other' : p ≠ t.1 := fun same => apart ⟨same,count⟩
        rw [if_pos count, Function.update_of_ne other']
        rfl
      · rw [if_neg count]
        rfl
    rw [Prod.mk.injEq] at kept
    refine ⟨⟨?_,kept.1,kept.2⟩,exit_tables ops system.1.balanced run ?_⟩
    · rw [gone.states, if_neg apart]
      exact alive
    · exact not_and_or.mp apart

theorem set_exitval_entry (k : Kernel Task Obj Dev) (cur p : Pid) (exitval : Int) :
    (k.modify cur ({ · with exitval := exitval })).PT p =
      { k.PT p with exitval := if p = cur then exitval else (k.PT p).exitval } := by
  by_cases same : p = cur
  · simp [same]
  · simp [same]

/- An Exec leaves the other processes as they are; the new one has not been ALIVE. -/
theorem exec_process (ops : FileOps Obj Dev) (files : FileInv s.files) {t : Pid × Tid}
    {call : Option Task} {argl : Int} {args : Option (List UInt8)}
    (run : threadExec ops s (.exec t call argl args) = some s')
    (alive : (s.kernel.PT p).pstate = .alive) :
    ProcessKept s.kernel s'.kernel p ∧ (s'.kernel.PT p).FIDT = (s.kernel.PT p).FIDT := by
  cases head : s.kernel.pcbFreelist with
  | none =>
    simp only [threadExec, exec_full head, Option.some.injEq] at run
    cases run
    exact ⟨⟨alive,rfl,rfl⟩,rfl⟩
  | some new =>
    obtain ⟨k',exec,tree,_⟩ := exec_spec head t.1 call argl args
    have unused := head_unused files.ok head
    have apart : p ≠ new := by
      rintro rfl
      have unused : (s.kernel.PT p).pstate = .free := unused
      rw [alive] at unused
      cases unused
    have entry := congrFun (exec_programs head t.1 call argl args) p
    have table := exec_tables files.ok files.balanced files.closed head t.1 call argl args apart
    rw [exec, Function.update_of_ne apart] at entry
    rw [show sysExec s.files.kernel t.1 call argl args = (some new,k') from exec] at table
    simp only [Kernel.programs, Prod.mk.injEq] at entry
    simp only [threadExec, exec, Option.some.injEq] at run
    cases run
    refine ⟨⟨?_,entry.1,entry.2⟩,table⟩
    have state := congrArg Links.pstate (congrFun tree p)
    rw [execed_pstate, if_neg apart] at state
    exact state.trans alive

theorem create_process (ops : FileOps Obj Dev) {t : Pid × Tid} {task : Task} {argl : Int}
    {args : Option (List UInt8)} (run : threadExec ops s (.createThread t task argl args) = some s')
    (alive : (s.kernel.PT p).pstate = .alive) :
    ProcessKept s.kernel s'.kernel p ∧ (s'.kernel.PT p).FIDT = (s.kernel.PT p).FIDT := by
  rcases made : createPTCB (s.procs t.1) task argl args with ⟨tid,threads⟩
  simp only [threadExec, made, Option.some.injEq] at run
  cases run
  have tree := create_thread_tree s.kernel t.1 tid p
  have entry := congrFun (modify_programs s.kernel t.1 (f := fun b =>
    { b with threadCount := b.threadCount + 1, threads := b.threads ++ [tid] }) (by simp)) p
  have tables := (same_files_modify s.kernel t.1 (g := fun b =>
    { b with threadCount := b.threadCount + 1, threads := b.threads ++ [tid] })
    (fun _ => rfl)).tables p
  simp only [Kernel.programs, Prod.mk.injEq] at entry
  exact ⟨⟨(congrArg Links.pstate tree).trans alive,entry.1,entry.2⟩,tables⟩

/- In sys_Exit the exit value is set first, which does not make a difference. -/
theorem main_exit_kept (ops : FileOps Obj Dev) (inv : ThreadInv s)
    (system : FileInv s.files ∧ ∃ birth, Rooted s.kernel.tree birth) {t : Pid × Tid}
    {exitval : Int} (idle : s.Idle t) (run : threadExec ops s (.exit t exitval) = some s')
    (alive : (s.kernel.PT p).pstate = .alive) :
    (p = t.1 ∧ live (s.procs p) = {t.2} →
      (s'.kernel.PT p).pstate = .zombie ∧ (s'.kernel.PT p).mainTask = (s.kernel.PT p).mainTask) ∧
    (¬ (p = t.1 ∧ live (s.procs p) = {t.2}) →
      ProcessKept s.kernel s'.kernel p ∧ (s'.kernel.PT p).FIDT = (s.kernel.PT p).FIDT) := by
  obtain ⟨inv',system'⟩ := set_exitval_inv inv system t.1 exitval
  have entry := set_exitval_entry s.kernel t.1 p exitval
  have alive' : ((s.kernel.modify t.1 ({ · with exitval := exitval })).PT p).pstate = .alive := by
    rw [entry]
    exact alive
  obtain ⟨last,kept⟩ := exit_kept ops inv' system' (set_exitval_idle idle t.1 exitval) run alive'
  rw [set_kernel_kernel, entry] at last kept
  rw [set_kernel_procs] at last kept
  refine ⟨last,fun apart => ?_⟩
  obtain ⟨⟨state,task,args⟩,table⟩ := kept apart
  rw [entry] at task args
  exact ⟨⟨state,task,args⟩,table⟩

/-- What a step makes of an ALIVE process. -/
theorem step_process (ops : FileOps Obj Dev) (inv : ThreadInv s) {a : ThreadAction Task Obj}
    (enabled : ThreadEnabled s a) (run : threadExec ops s a = some s')
    (alive : (s.kernel.PT p).pstate = .alive) :
    (LastExit s a p → (s'.kernel.PT p).pstate = .zombie ∧
      (s'.kernel.PT p).mainTask = (s.kernel.PT p).mainTask) ∧
    (¬ LastExit s a p → ProcessKept s.kernel s'.kernel p ∧
      ((s'.kernel.PT p).FIDT = (s.kernel.PT p).FIDT ∨ ∃ b, a = .files b)) := by
  have system := files_halted inv a enabled
  have files := system.1
  have other {s₁ : ThreadRun Task Obj Dev} (noExit : ∀ u v, a ≠ .threadExit u v ∧ a ≠ .exit u v)
      (kept : ProcessKept s.kernel s₁.kernel p ∧ ((s₁.kernel.PT p).FIDT = (s.kernel.PT p).FIDT ∨
        ∃ b, a = .files b)) : (LastExit s a p → (s₁.kernel.PT p).pstate = .zombie ∧
      (s₁.kernel.PT p).mainTask = (s.kernel.PT p).mainTask) ∧ (¬ LastExit s a p →
        ProcessKept s.kernel s₁.kernel p ∧
          ((s₁.kernel.PT p).FIDT = (s.kernel.PT p).FIDT ∨ ∃ b, a = .files b)) := by
    refine ⟨?_,fun _ => kept⟩
    rintro ⟨u,v,is | is,_⟩
    · exact absurd is (noExit _ _).1
    · exact absurd is (noExit _ _).2
  have same : ProcessKept s.kernel s.kernel p ∧ ((s.kernel.PT p).FIDT = (s.kernel.PT p).FIDT ∨
      ∃ b, a = .files b) := ⟨⟨alive,rfl,rfl⟩,Or.inl rfl⟩
  cases a with
  | start t | join t | detach t =>
    cases run
    exact other (by simp) same
  | exec t call argl args =>
    obtain ⟨kept,table⟩ := exec_process ops files run alive
    exact other (by simp) ⟨kept,Or.inl table⟩
  | createThread t task argl args =>
    obtain ⟨kept,table⟩ := create_process ops run alive
    exact other (by simp) ⟨kept,Or.inl table⟩
  | resume t =>
    simp only [threadExec, Option.map_eq_some_iff] at run
    obtain ⟨r,_,rfl⟩ := run
    exact other (by simp) same
  | threadExit t exitval =>
    obtain ⟨last,kept⟩ := exit_kept ops inv system enabled run alive
    refine ⟨?_,fun notLast => ?_⟩
    · rintro ⟨u,v,is | is,single⟩
      · cases is
        exact last ⟨rfl,single⟩
      · cases is
    · have apart : ¬ (p = t.1 ∧ live (s.procs p) = {t.2}) := by
        rintro ⟨rfl,single⟩
        exact notLast ⟨t.2,exitval,Or.inl rfl,single⟩
      exact ⟨(kept apart).1,Or.inl (kept apart).2⟩
  | exit t exitval =>
    obtain ⟨last,kept⟩ := main_exit_kept ops inv system enabled.1 run alive
    refine ⟨?_,fun notLast => ?_⟩
    · rintro ⟨u,v,is | is,single⟩
      · cases is
      · cases is
        exact last ⟨rfl,single⟩
    · have apart : ¬ (p = t.1 ∧ live (s.procs p) = {t.2}) := by
        rintro ⟨rfl,single⟩
        exact notLast ⟨t.2,exitval,Or.inr rfl,single⟩
      exact ⟨(kept apart).1,Or.inl (kept apart).2⟩
  | files a =>
    obtain ⟨enabled,caller⟩ := enabled
    simp only [threadExec, Option.map_eq_some_iff] at run
    obtain ⟨f',run,rfl⟩ := run
    have kept := (files_kept ops files enabled caller run).1
    have entry := congrFun kept.programs p
    simp only [Kernel.programs, Prod.mk.injEq] at entry
    exact other (by simp) ⟨⟨(kept.alive p).mpr alive,entry.1,entry.2⟩,Or.inr ⟨a,rfl⟩⟩

/-- A zombie does not come back to life. -/
theorem step_zombie (ops : FileOps Obj Dev) (inv : ThreadInv s) {a : ThreadAction Task Obj}
    (enabled : ThreadEnabled s a) (run : threadExec ops s a = some s')
    (zombie : (s.kernel.PT p).pstate = .zombie) : (s'.kernel.PT p).pstate ≠ .alive := by
  have system := files_halted inv a enabled
  have files := system.1
  have dead : (s.kernel.PT p).pstate ≠ .alive := by simp [zombie]
  have exit {s₁ : ThreadRun Task Obj Dev} {t : Thread} (gone : ThreadGone s₁.kernel s'.kernel t.1 t.2)
      (same : (s₁.kernel.PT p).pstate = (s.kernel.PT p).pstate) :
      (s'.kernel.PT p).pstate ≠ .alive := by
    rw [gone.states]
    split
    · decide
    · rw [same]
      exact dead
  cases a with
  | start t | join t _ _ | detach t _ =>
    cases run
    exact dead
  | resume t =>
    simp only [threadExec, Option.map_eq_some_iff] at run
    obtain ⟨r,_,rfl⟩ := run
    exact dead
  | exec t call argl args =>
    cases head : s.kernel.pcbFreelist with
    | none =>
      simp only [threadExec, exec_full head, Option.some.injEq] at run
      cases run
      exact dead
    | some new =>
      obtain ⟨k',exec,tree,_⟩ := exec_spec head t.1 call argl args
      have unused : (s.kernel.PT new).pstate = .free := head_unused files.ok head
      have apart : p ≠ new := by
        rintro rfl
        rw [zombie] at unused
        cases unused
      simp only [threadExec, exec, Option.some.injEq] at run
      cases run
      have state := congrArg Links.pstate (congrFun tree p)
      rw [execed_pstate, if_neg apart] at state
      exact fun alive => dead (state.symm.trans alive)
  | createThread t task argl args =>
    rcases made : createPTCB (s.procs t.1) task argl args with ⟨tid,threads⟩
    simp only [threadExec, made, Option.some.injEq] at run
    cases run
    have state := congrArg Links.pstate (create_thread_tree s.kernel t.1 tid p)
    exact fun alive => dead (state.symm.trans alive)
  | threadExit t exitval => exact exit (exit_inv ops inv system enabled run).2 rfl
  | exit t exitval =>
    obtain ⟨inv',system'⟩ := set_exitval_inv inv system t.1 exitval
    have gone := (exit_inv ops inv' system' (set_exitval_idle enabled.1 t.1 exitval) run).2
    refine exit gone ?_
    rw [set_kernel_kernel, set_exitval_entry]
  | files a =>
    obtain ⟨enabled,caller⟩ := enabled
    simp only [threadExec, Option.map_eq_some_iff] at run
    obtain ⟨f',run,rfl⟩ := run
    have kept := (files_kept ops files enabled caller run).1
    exact fun alive => dead ((kept.alive p).mp alive)

/-- The thread count of a process is the number of its PTCBs whose threads have not exited. A
    process that was given a task is ALIVE while there are any and in no exited list; the exit of
    the last one, and no other step, makes it a zombie and cleans it up, and it stays so until it
    is reaped. -/
theorem life_follows_threads (ops : FileOps Obj Dev) (reach : (threadSystem Task ops).Reach s)
    (p : Pid) : (s.kernel.PT p).threadCount = (live (s.procs p)).card ∧
      ((s.kernel.PT p).pstate ≠ .free → (s.kernel.PT p).mainTask.isSome →
        ((s.kernel.PT p).pstate = .alive ↔ 0 < (live (s.procs p)).card) ∧
        ((s.kernel.PT p).pstate = .zombie ↔ (live (s.procs p)).card = 0) ∧
        ((s.kernel.PT p).pstate = .alive → ∀ q, p ∉ (s.kernel.PT q).exitedList) ∧
        ((s.kernel.PT p).pstate = .zombie → CleanedUp s.kernel p) ∧
        ∀ a s', (threadSystem Task ops).Step s a s' →
          ((s.kernel.PT p).pstate = .zombie → (s'.kernel.PT p).pstate ≠ .alive) ∧
          ((s.kernel.PT p).pstate = .alive →
            (LastExit s a p → (s'.kernel.PT p).pstate = .zombie ∧ CleanedUp s'.kernel p) ∧
            (¬ LastExit s a p → (s'.kernel.PT p).pstate = .alive ∧
              (s'.kernel.PT p).args = (s.kernel.PT p).args ∧
              (∀ q, p ∉ (s'.kernel.PT q).exitedList) ∧
              ((s'.kernel.PT p).FIDT = (s.kernel.PT p).FIDT ∨ ∃ b, a = .files b)))) := by
  have inv := thread_reach_inv ops reach
  refine ⟨thread_count_live inv p,fun used task => ?_⟩
  obtain ⟨alive,zombie⟩ := state_of_live inv used task
  refine ⟨alive.trans (Finset.nonempty_iff_ne_empty.symm.trans Finset.card_pos.symm),
    zombie.trans Finset.card_eq_zero.symm,fun running => alive_unlisted inv running (alive.mp running),
    zombie_cleaned inv,?_⟩
  intro a s' move
  refine ⟨step_zombie ops inv move.1 move.2,fun running => ?_⟩
  have inv' := thread_step ops inv move.1 move.2
  obtain ⟨last,kept⟩ := step_process ops inv move.1 move.2 running
  refine ⟨fun final => ?_,fun notLast => ?_⟩
  · have ended := (last final).1
    exact ⟨ended,zombie_cleaned inv' ended⟩
  · obtain ⟨⟨state,task',args⟩,table⟩ := kept notLast
    have running' := (state_of_live inv' (by simp [state]) (task' ▸ task)).1.mp state
    exact ⟨state,args,alive_unlisted inv' state running',table⟩

/- The main thread of a child of init leaves before another thread of the child does. -/
def mainFirstRun : List (ThreadAction Unit Unit) :=
  [.exec (initpcb,0) (some ()) 0 none, .createThread (2,0) () 0 none, .threadExit (2,0) 1,
    .start (2,1), .threadExit (2,1) 2]

theorem life_follows_threads_main_first : ∃ s, (threadSystem Unit bareOps).Reach s ∧
    (s.kernel.PT 2).pstate = .zombie ∧ CleanedUp s.kernel 2 := by
  have reach := play_reach (m := threadSystem Unit bareOps)
    (s := bootedThreads () () idleMemory () 0 none) ⟨(),(),idleMemory,(),0,none,rfl⟩ mainFirstRun rfl
  have zombie := (life_follows_threads bareOps reach 2).2 (by decide) rfl
  exact ⟨_,reach,rfl,zombie.2.2.2.1 rfl⟩

end KernelThreads
