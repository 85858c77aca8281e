import TinyOS.ProcessLife
import TinyOS.ReapedOnce

/- Where the status that WaitChild stores comes from. Exit writes exitval of the PCB; ThreadExit
   leaves it alone, and so do acquire_PCB and Exec when the PCB is used again. -/
namespace KernelProc
open KernelStreams Transition
variable {Task Obj Dev : Type} {k k' : Kernel Task Obj Dev}

structure ExitCall where
  pid : Pid
  incarnation : Nat
  value : Int

/- `exits` logs the calls of Exit; a main thread that returns from its task makes one too. -/
structure StatusRun (Task Obj Dev : Type) where
  run : ProcRun Task Obj Dev
  exits : List ExitCall

def exitCalls (s : ProcRun Task Obj Dev) : ProcAction Task → List ExitCall
  | .exit t exitval => [{ pid := t.1, incarnation := s.incarnation t.1, value := exitval }]
  | _ => []

def statusSystem (Task : Type) (ops : FileOps Obj Dev) :
    Machine (StatusRun Task Obj Dev) (ProcAction Task) where
  start s := (procSystem Task ops).start s.run ∧ s.exits = []
  enabled s a := ProcEnabled s.run a
  exec s a := (procExec ops s.run a).map fun run =>
    { run := run, exits := s.exits ++ exitCalls s.run a }

instance (ops : FileOps Obj Dev) (s : StatusRun Task Obj Dev) (a : ProcAction Task) :
    Decidable ((statusSystem Task ops).enabled s a) :=
  inferInstanceAs (Decidable (ProcEnabled s.run a))

/- The values given to Exit by the threads of an incarnation of a process. -/
def valuesOf (exits : List ExitCall) (p : Pid) (n : Nat) : List Int :=
  (exits.filter fun e => e.pid = p ∧ e.incarnation = n).map ExitCall.value

def lastExit (exits : List ExitCall) (p : Pid) (n : Nat) : Option Int :=
  (valuesOf exits p n).getLast?

section Log
variable {exits : List ExitCall} {e : ExitCall} {p : Pid} {n : Nat}

theorem values_new : valuesOf (exits ++ [e]) p n =
    if e.pid = p ∧ e.incarnation = n then valuesOf exits p n ++ [e.value]
    else valuesOf exits p n := by
  by_cases same : e.pid = p ∧ e.incarnation = n
  · simp [valuesOf, same]
  · simp [valuesOf, List.filter_append, same]

theorem values_more (more : List ExitCall) (some' : valuesOf exits p n ≠ []) :
    valuesOf (exits ++ more) p n ≠ [] := by
  rw [valuesOf, List.filter_append, List.map_append]
  exact List.append_ne_nil_of_left_ne_nil some' _

theorem values_none (past : ∀ e ∈ exits, e.pid = p → e.incarnation < n) :
    valuesOf exits p n = [] := by
  rw [valuesOf, List.map_eq_nil_iff, List.filter_eq_nil_iff]
  intro e member same
  obtain ⟨pid,now⟩ := of_decide_eq_true same
  exact absurd (past e member pid) (by omega)

theorem last_exit_none : lastExit exits p n = none ↔ valuesOf exits p n = [] :=
  List.getLast?_eq_none_iff

end Log

section Values
variable {α : Type} {field : PCB Task → α}

theorem specific_loop_values (inert : Inert field) (k : Kernel Task Obj Dev) (t : Thread)
    (c : Pid) : (waitForSpecificLoop k t c).2.values field = k.values field := by
  unfold waitForSpecificLoop
  split
  · rfl
  · exact cleanup_values inert k c

theorem specific_values (inert : Inert field) (k : Kernel Task Obj Dev) (t : Thread) (cpid : Int) :
    (waitForSpecificChild k t cpid).2.values field = k.values field := by
  unfold waitForSpecificChild
  split
  · simp only
    split
    · rfl
    · exact specific_loop_values inert k t _
  · rfl

theorem any_values (inert : Inert field) {k : Kernel Task Obj Dev} {t : Thread}
    {r : WaitResult × Kernel Task Obj Dev} (wait : waitForAnyChild k t = some r) :
    r.2.values field = k.values field := by
  unfold waitForAnyChild at wait
  split at wait
  · cases wait
    rfl
  · split at wait
    · cases wait
      rfl
    · split at wait
      · cases wait
        exact cleanup_values inert k _
      · cases wait

end Values

theorem exitval_inert : Inert (@PCB.exitval Task) :=
  ⟨fun _ _ => rfl,fun _ _ => rfl,fun _ _ => rfl,fun _ _ => rfl,fun _ _ => rfl,fun _ _ _ => rfl⟩

@[simp] theorem settle_kernel (s : ProcRun Task Obj Dev) (t : Thread) (target : WaitTarget)
    (r : WaitResult × Kernel Task Obj Dev) : (s.settle t target r).kernel = r.2 := by
  obtain ⟨result,k⟩ := r
  cases result with
  | asleep => rfl
  | returned c status => cases c <;> rfl

@[simp] theorem settle_incarnation (s : ProcRun Task Obj Dev) (t : Thread) (target : WaitTarget)
    (r : WaitResult × Kernel Task Obj Dev) : (s.settle t target r).incarnation = s.incarnation := by
  obtain ⟨result,k⟩ := r
  cases result with
  | asleep => rfl
  | returned c status => cases c <;> rfl

/-- A section of WaitChild appends to the log what it has cleaned up. -/
theorem settle_reaps {s : ProcRun Task Obj Dev} {r : WaitResult × Kernel Task Obj Dev}
    (outcome : WaitOutcome k r) (t : Thread) (target : WaitTarget) :
    (s.settle t target r).reaps = s.reaps ∨ ∃ c, (k.PT c).pstate = .zombie ∧
      (s.settle t target r).reaps = s.reaps ++
        [⟨t,c,s.incarnation c,some (k.PT c).exitval⟩] := by
  cases outcome with
  | @kept r k' silent =>
    refine Or.inl ?_
    cases r with
    | asleep => rfl
    | returned c status =>
      cases c with
      | none => rfl
      | some c => exact absurd rfl (silent c status)
  | @reaped c zombie => exact Or.inr ⟨c,zombie,rfl⟩

/-- No thread tests again a child whose PCB is FREE. -/
def FreshStatus (s : StatusRun Task Obj Dev) (a : ProcAction Task) : Prop := FreshTest s.run a

/-- exitval of a PCB in use, and the status of a reaped process, are what its last Exit gave, if
    it called Exit at all. -/
structure StatusInv (s : StatusRun Task Obj Dev) : Prop where
  proc : ProcInv s.run
  past : ∀ e ∈ s.exits, e.incarnation ≤ s.run.incarnation e.pid
  now : ∀ p v, (s.run.kernel.PT p).pstate ≠ .free →
    lastExit s.exits p (s.run.incarnation p) = some v → (s.run.kernel.PT p).exitval = v
  reaped : ∀ r ∈ s.run.reaps, ∃ v, r.status = some v ∧
    ∀ w, lastExit s.exits r.pid r.incarnation = some w → v = w

section Steps
variable {s s' : StatusRun Task Obj Dev}

/-- A process that is in use has not been reaped yet. -/
theorem used_unreaped {run : ProcRun Task Obj Dev} (inv : ProcInv run) {r : Reap}
    (member : r ∈ run.reaps) (used : (run.kernel.PT r.pid).pstate ≠ .free) :
    r.incarnation ≠ run.incarnation r.pid := by
  intro now
  have once := inv.reaped r.pid r.incarnation
  have some' : 0 < run.reaps.countP (fun q => q.pid = r.pid ∧ q.incarnation = r.incarnation) :=
    List.countP_pos_iff.mpr ⟨r,member,by simp⟩
  rw [once] at some'
  split at some'
  · rename_i gone
    rcases gone.2 with before | ⟨_,free⟩
    · omega
    · exact used free
  · omega

/-- A step that leaves the exit values, the log and the incarnations alone. -/
theorem status_kept (inv : StatusInv s) {run : ProcRun Task Obj Dev} (proc : ProcInv run)
    (incarnation : run.incarnation = s.run.incarnation) (reaps : run.reaps = s.run.reaps)
    (same : run.kernel.values PCB.exitval = s.run.kernel.values PCB.exitval)
    (used : ∀ p, (run.kernel.PT p).pstate ≠ .free → (s.run.kernel.PT p).pstate ≠ .free) :
    StatusInv { run := run, exits := s.exits ++ [] } := by
  rw [List.append_nil]
  refine ⟨proc,fun e member => ?_,fun p v inUse last => ?_,?_⟩
  · rw [incarnation]
    exact inv.past e member
  · rw [incarnation] at last
    exact (congrFun same p).trans (inv.now p v (used p inUse) last)
  · rw [reaps]
    exact inv.reaped

theorem settle_status (inv : StatusInv s) {t : Thread} {target : WaitTarget}
    {r : WaitResult × Kernel Task Obj Dev} (proc : ProcInv (s.run.settle t target r))
    (tree : k.tree = s.run.kernel.tree)
    (values : k.values PCB.exitval = s.run.kernel.values PCB.exitval) (outcome : WaitOutcome k r)
    (after : r.2.values PCB.exitval = k.values PCB.exitval) :
    StatusInv { run := s.run.settle t target r, exits := s.exits ++ [] } := by
  rw [List.append_nil]
  have states (p : Pid) : (k.PT p).pstate = (s.run.kernel.PT p).pstate :=
    congrArg Links.pstate (congrFun tree p)
  refine ⟨proc,fun e member => ?_,fun p v used last => ?_,fun q member => ?_⟩
  · rw [settle_incarnation]
    exact inv.past e member
  · rw [settle_incarnation] at last
    rw [settle_kernel] at used ⊢
    have before : (s.run.kernel.PT p).pstate ≠ .free := by
      cases outcome with
      | @kept _ k' _ tree' =>
        have same : (k'.PT p).pstate = (k.PT p).pstate := congrArg Links.pstate (congrFun tree' p)
        rwa [same, states] at used
      | @reaped c zombie =>
        have entry := congrArg Links.pstate (congrFun (cleanup_spec k c).1 p)
        simp only [Kernel.tree, Tree.reaped] at entry
        rw [entry] at used
        split at used
        · exact absurd rfl used
        · rwa [← states]
    exact (congrFun (after.trans values) p).trans (inv.now p v before last)
  · rcases settle_reaps (s := s.run) outcome t target with same | ⟨c,zombie,more⟩
    · exact inv.reaped q (same ▸ member)
    · rw [more, List.mem_append, List.mem_singleton] at member
      rcases member with before | rfl
      · exact inv.reaped q before
      · refine ⟨_,rfl,fun w last => ?_⟩
        have used : (s.run.kernel.PT c).pstate ≠ .free := by
          rw [← states, zombie]
          decide
        exact (congrFun values c).trans (inv.now c w used last)

/-- The PCBs that are in use after the exit of a thread were so before. -/
theorem exit_used {cur : Pid} {tid : Tid} (ops : FileOps Obj Dev) (ok : KernelOk k)
    (member : tid ∈ (k.PT cur).threads) (notLast : cur = initpcb → (k.PT cur).threadCount ≠ 1)
    (run : sysThreadExit ops k cur tid = some k') (p : Pid) (used : (k'.PT p).pstate ≠ .free) :
    (k.PT p).pstate ≠ .free := by
  obtain ⟨k₁,run₁,_,_,states⟩ := thread_exit_ok ops ok member notLast
  cases run.symm.trans run₁
  by_cases here : p = cur
  · rw [here, running_alive ok member]
    decide
  · rwa [← states p here]

theorem exec_status (inv : StatusInv s) (ops : FileOps Obj Dev) {t : Thread} (idle : s.run.Idle t)
    {call : Option Task} {argl : Int} {args : Option (List UInt8)} {run : ProcRun Task Obj Dev}
    (step : procExec ops s.run (.exec t call argl args) = some run) :
    StatusInv { run := run, exits := s.exits ++ [] } := by
  have proc := exec_inv ops inv.proc idle call argl args step
  cases head : s.run.kernel.pcbFreelist with
  | none =>
    simp only [procExec, exec_full head, Option.some.injEq] at step
    cases step
    exact status_kept inv proc rfl rfl rfl (fun _ used => used)
  | some new =>
    obtain ⟨k',exec,tree,_⟩ := exec_spec head t.1 call argl args
    have values := exec_values exitval_inert head t.1 call argl args (fun _ _ same => same)
    rw [exec] at values
    have same (p : Pid) : (k'.PT p).exitval = (s.run.kernel.PT p).exitval := by
      have entry := congrFun values p
      by_cases here : p = new
      · subst here
        rw [Function.update_self] at entry
        exact entry
      · rw [Function.update_of_ne here] at entry
        exact entry
    simp only [procExec, exec, Option.some.injEq] at step
    subst step
    have grows (p : Pid) : s.run.incarnation p ≤
        Function.update s.run.incarnation new (s.run.incarnation new + 1) p := by
      by_cases here : p = new
      · simp [here]
      · simp [here]
    rw [List.append_nil]
    refine ⟨proc,fun e member => (inv.past e member).trans (grows e.pid),
      fun p v used last => ?_,inv.reaped⟩
    rw [same]
    by_cases here : p = new
    · subst here
      have none : valuesOf s.exits p (s.run.incarnation p + 1) = [] := by
        refine values_none (fun e member is => ?_)
        have past := inv.past e member
        rw [is] at past
        omega
      simp only [Function.update_self] at last
      rw [lastExit, none] at last
      cases last
    · simp only [Function.update_of_ne here] at last
      refine inv.now p v ?_ last
      have entry := congrArg Links.pstate (congrFun tree p)
      rw [execed_pstate, if_neg here] at entry
      exact fun free => used (entry.trans free)

/-- Exit gives the process the value that it logs. -/
theorem exit_status (inv : StatusInv s) (ops : FileOps Obj Dev) {t : Thread} {exitval : Int}
    (enabled : ProcEnabled s.run (.exit t exitval)) {run : ProcRun Task Obj Dev}
    (proc : ProcInv run)
    (step : procExec ops s.run (.exit t exitval) = some run) :
    StatusInv { run := run, exits := s.exits ++ exitCalls s.run (.exit t exitval) } := by
  have member : t.2 ∈ (s.run.kernel.PT t.1).threads := enabled.1.1
  simp only [procExec, sysExit, Option.map_eq_some_iff] at step
  obtain ⟨k,exit,rfl⟩ := step
  set k₀ := s.run.kernel.modify t.1 ({ · with exitval := exitval }) with stored
  have tree : k₀.tree = s.run.kernel.tree := set_exitval_tree s.run.kernel t.1 exitval
  have values : k.values PCB.exitval = k₀.values PCB.exitval := by
    rw [exit_values exitval_inert ops (fun _ _ same => same) exit]
    split
    · exact Function.update_eq_self ..
    · rfl
  have here (p : Pid) : (k.PT p).exitval =
      if p = t.1 then exitval else (s.run.kernel.PT p).exitval := by
    refine (congrFun values p).trans ?_
    by_cases same : p = t.1
    · simp [Kernel.values, stored, same]
    · simp [Kernel.values, stored, same]
  have alive := running_alive inv.proc.ok member
  have used (p : Pid) (inUse : (k.PT p).pstate ≠ .free) : (s.run.kernel.PT p).pstate ≠ .free := by
    have threads : t.2 ∈ (k₀.tree t.1).threads := by
      rw [tree]
      exact member
    have before := exit_used ops (kernel_ok_congr inv.proc.ok tree rfl rfl) threads
      (fun same => absurd same enabled.2) exit p inUse
    have state : (k₀.PT p).pstate = (s.run.kernel.PT p).pstate :=
      congrArg Links.pstate (congrFun tree p)
    rwa [state] at before
  refine ⟨proc,fun e logged => ?_,fun p v inUse last => ?_,fun r reaped => ?_⟩
  · rcases List.mem_append.mp logged with before | new
    · exact inv.past e before
    · rw [List.mem_singleton.mp new]
  · simp only [lastExit, exitCalls, values_new] at last
    rw [here]
    by_cases same : p = t.1
    · subst same
      simp only [and_self, if_true, List.getLast?_concat, Option.some.injEq] at last
      rw [if_pos rfl, last]
    · rw [if_neg (fun both => same both.1.symm)] at last
      rw [if_neg same]
      exact inv.now p v (used p inUse) last
  · obtain ⟨v,status,last⟩ := inv.reaped r reaped
    refine ⟨v,status,fun w after => last w ?_⟩
    simp only [lastExit, exitCalls, values_new] at after
    rw [if_neg ?_] at after
    · exact after
    · rintro ⟨pid,now⟩
      have inUse : (s.run.kernel.PT r.pid).pstate ≠ .free := by
        rw [← pid, alive]
        decide
      exact used_unreaped inv.proc reaped inUse (by rw [← now, pid])

theorem status_step (ops : FileOps Obj Dev) (inv : StatusInv s) {a : ProcAction Task}
    (move : ((statusSystem Task ops).restrict FreshStatus).Step s a s') : StatusInv s' := by
  obtain ⟨⟨enabled,fresh⟩,exec⟩ := move
  simp only [Machine.restrict, statusSystem, Option.map_eq_some_iff] at exec
  obtain ⟨run,step,rfl⟩ := exec
  have proc := proc_step ops inv.proc enabled fresh step
  cases a with
  | exec t call argl args => exact exec_status inv ops enabled step
  | createThread t tid =>
    cases step
    have same := modify_values s.run.kernel t.1 (f := fun b =>
      { b with threadCount := b.threadCount + 1, threads := b.threads ++ [tid] })
      (fun b => exitval_inert.threads b _ _)
    refine status_kept inv proc rfl rfl same (fun p used => ?_)
    have state := congrArg Links.pstate (create_thread_tree s.run.kernel t.1 tid p)
    exact fun free => used (state.trans free)
  | waitChild t cpid =>
    simp only [procExec] at step
    split at step
    · cases step
      exact settle_status inv proc rfl rfl (specific_outcome _ t cpid)
        (specific_values exitval_inert _ t cpid)
    · obtain ⟨r,wait,outcome⟩ := any_outcome inv.proc.ok.wf t
      simp only [wait, Option.map_some, Option.some.injEq] at step
      subst step
      exact settle_status inv proc rfl rfl outcome (any_values exitval_inert wait)
  | resume t =>
    simp only [procExec] at step
    split at step
    · cases step
    · rename_i c call
      cases step
      exact settle_status (k := { s.run.kernel with waits := s.run.kernel.waits.resume t }) inv proc
        rfl rfl (specific_loop_outcome _ t (fresh c call))
        (specific_loop_values exitval_inert _ t c)
    · obtain ⟨r,wait,outcome⟩ := @any_outcome Task Obj Dev
        { s.run.kernel with waits := s.run.kernel.waits.resume t } inv.proc.ok.wf t
      simp only [wait, Option.map_some, Option.some.injEq] at step
      subst step
      exact settle_status (k := { s.run.kernel with waits := s.run.kernel.waits.resume t }) inv proc
        rfl rfl outcome (any_values exitval_inert wait)
  | exit t exitval => exact exit_status inv ops enabled proc step
  | threadExit t =>
    simp only [procExec, Option.map_eq_some_iff] at step
    obtain ⟨k,exit,rfl⟩ := step
    have same : k.values PCB.exitval = s.run.kernel.values PCB.exitval := by
      rw [exit_values exitval_inert ops (fun _ _ same => same) exit]
      split
      · exact Function.update_eq_self ..
      · rfl
    exact status_kept inv proc rfl rfl same
      (exit_used ops inv.proc.ok enabled.1.1 enabled.2 exit)

theorem status_reach_inv (ops : FileOps Obj Dev)
    (reach : ((statusSystem Task ops).restrict FreshStatus).Reach s) : StatusInv s := by
  refine inductive_reach ⟨?_,fun s a s' inv move => status_step ops inv move⟩ reach
  rintro s ⟨⟨files,task,argl,args,booted⟩,none⟩
  refine ⟨booted ▸ booted_inv files task argl args,by simp [none],?_,
    by simp [booted, KernelProc.booted]⟩
  intro p v _ last
  rw [none] at last
  cases last

/-- The last thread of a process leaves by Exit, or some thread of it has called Exit before. -/
def ExitsFirst (s : StatusRun Task Obj Dev) : ProcAction Task → Prop
  | .threadExit t => (s.run.kernel.PT t.1).threadCount = 1 →
      valuesOf s.exits t.1 (s.run.incarnation t.1) ≠ []
  | _ => True

def Accounted (s : StatusRun Task Obj Dev) (a : ProcAction Task) : Prop :=
  FreshStatus s a ∧ ExitsFirst s a

instance (s : StatusRun Task Obj Dev) (a : ProcAction Task) : Decidable (Accounted s a) :=
  have : Decidable (FreshStatus s a) := inferInstanceAs (Decidable (FreshTest s.run a))
  have : Decidable (ExitsFirst s a) :=
    match a with
    | .threadExit t => inferInstanceAs (Decidable ((s.run.kernel.PT t.1).threadCount = 1 →
        valuesOf s.exits t.1 (s.run.incarnation t.1) ≠ []))
    | .exec .. | .createThread .. | .waitChild .. | .resume .. | .exit .. => isTrue trivial
  inferInstanceAs (Decidable (_ ∧ _))

instance (ops : FileOps Obj Dev) (s : StatusRun Task Obj Dev) (a : ProcAction Task) :
    Decidable (((statusSystem Task ops).restrict Accounted).enabled s a) :=
  inferInstanceAs (Decidable (ProcEnabled s.run a ∧ Accounted s a))

structure ExitedInv (s : StatusRun Task Obj Dev) : Prop where
  zombies : ∀ p, (s.run.kernel.PT p).pstate = .zombie →
    valuesOf s.exits p (s.run.incarnation p) ≠ []
  reaped : ∀ r ∈ s.run.reaps, valuesOf s.exits r.pid r.incarnation ≠ []

theorem accounted_fresh (ops : FileOps Obj Dev)
    (reach : ((statusSystem Task ops).restrict Accounted).Reach s) :
    ((statusSystem Task ops).restrict FreshStatus).Reach s := by
  induction reach with
  | start first => exact .start first
  | step before move ih => exact .step ih ⟨⟨move.1.1,move.1.2.1⟩,move.2⟩

theorem exited_kept (exited : ExitedInv s) {run : ProcRun Task Obj Dev} {more : List ExitCall}
    (incarnation : run.incarnation = s.run.incarnation) (reaps : run.reaps = s.run.reaps)
    (zombies : ∀ p, (run.kernel.PT p).pstate = .zombie → (s.run.kernel.PT p).pstate = .zombie ∨
      valuesOf (s.exits ++ more) p (s.run.incarnation p) ≠ []) :
    ExitedInv { run := run, exits := s.exits ++ more } := by
  refine ⟨fun p zombie => ?_,fun r member => values_more more (exited.reaped r (reaps ▸ member))⟩
  rw [incarnation]
  rcases zombies p zombie with before | now
  · exact values_more more (exited.zombies p before)
  · exact now

theorem settle_exited (exited : ExitedInv s) {t : Thread} {target : WaitTarget}
    {r : WaitResult × Kernel Task Obj Dev} (tree : k.tree = s.run.kernel.tree)
    (outcome : WaitOutcome k r) :
    ExitedInv { run := s.run.settle t target r, exits := s.exits ++ [] } := by
  rw [List.append_nil]
  have states (p : Pid) : (k.PT p).pstate = (s.run.kernel.PT p).pstate :=
    congrArg Links.pstate (congrFun tree p)
  refine ⟨fun p zombie => ?_,fun q member => ?_⟩
  · rw [settle_kernel] at zombie
    rw [settle_incarnation]
    refine exited.zombies p ?_
    cases outcome with
    | @kept _ k' _ tree' =>
      have same : (k'.PT p).pstate = (k.PT p).pstate := congrArg Links.pstate (congrFun tree' p)
      rwa [same, states] at zombie
    | @reaped c zombie' =>
      have entry := congrArg Links.pstate (congrFun (cleanup_spec k c).1 p)
      simp only [Kernel.tree, Tree.reaped] at entry
      rw [entry] at zombie
      split at zombie
      · cases zombie
      · rwa [← states]
  · rcases settle_reaps (s := s.run) outcome t target with same | ⟨c,zombie,more⟩
    · exact exited.reaped q (same ▸ member)
    · rw [more, List.mem_append, List.mem_singleton] at member
      rcases member with before | rfl
      · exact exited.reaped q before
      · exact exited.zombies c ((states c).symm.trans zombie)

/-- The exit of a thread makes a zombie only of its own process, and only when it is the last. -/
theorem exit_zombies {cur p : Pid} {tid : Tid} (ops : FileOps Obj Dev) (ok : KernelOk k)
    (member : tid ∈ (k.PT cur).threads) (notLast : cur = initpcb → (k.PT cur).threadCount ≠ 1)
    (run : sysThreadExit ops k cur tid = some k') (zombie : (k'.PT p).pstate = .zombie) :
    (k.PT p).pstate = .zombie ∨ p = cur ∧ (k.PT cur).threadCount = 1 := by
  obtain ⟨k₁,run₁,_,_,states⟩ := thread_exit_ok ops ok member notLast
  cases run.symm.trans run₁
  by_cases here : p = cur
  · subst here
    by_cases last : (k.PT p).threadCount = 1
    · exact Or.inr ⟨rfl,last⟩
    · obtain ⟨k₂,run₂,tree,_⟩ := other_thread_exit ops last tid
      cases run.symm.trans run₂
      have state : (k'.PT p).pstate = (k.PT p).pstate := congrArg Links.pstate (congrFun tree p)
      exact Or.inl (state.symm.trans zombie)
  · exact Or.inl ((states p here).symm.trans zombie)

theorem exited_step (ops : FileOps Obj Dev) (inv : StatusInv s) (exited : ExitedInv s)
    {a : ProcAction Task} (move : ((statusSystem Task ops).restrict Accounted).Step s a s') :
    ExitedInv s' := by
  obtain ⟨⟨enabled,fresh,first⟩,exec⟩ := move
  simp only [Machine.restrict, statusSystem, Option.map_eq_some_iff] at exec
  obtain ⟨run,step,rfl⟩ := exec
  cases a with
  | exec t call argl args =>
    cases head : s.run.kernel.pcbFreelist with
    | none =>
      simp only [procExec, exec_full head, Option.some.injEq] at step
      cases step
      exact exited_kept exited rfl rfl (fun p zombie => Or.inl zombie)
    | some new =>
      obtain ⟨k',exec,tree,_⟩ := exec_spec head t.1 call argl args
      simp only [procExec, exec, Option.some.injEq] at step
      subst step
      refine ⟨fun p zombie => values_more [] ?_,
        fun r member => values_more [] (exited.reaped r member)⟩
      have entry := congrArg Links.pstate (congrFun tree p)
      rw [execed_pstate] at entry
      have entry : (k'.PT p).pstate =
          if p = new then .alive else (s.run.kernel.PT p).pstate := entry
      by_cases here : p = new
      · rw [entry, if_pos here] at zombie
        cases zombie
      · rw [entry, if_neg here] at zombie
        simp only [Function.update_of_ne here]
        exact exited.zombies p zombie
  | createThread t tid =>
    cases step
    refine exited_kept exited rfl rfl (fun p zombie => Or.inl ?_)
    have state := congrArg Links.pstate (create_thread_tree s.run.kernel t.1 tid p)
    exact state.symm.trans zombie
  | waitChild t cpid =>
    simp only [procExec] at step
    split at step
    · cases step
      exact settle_exited exited rfl (specific_outcome _ t cpid)
    · obtain ⟨r,wait,outcome⟩ := any_outcome inv.proc.ok.wf t
      simp only [wait, Option.map_some, Option.some.injEq] at step
      subst step
      exact settle_exited exited rfl outcome
  | resume t =>
    simp only [procExec] at step
    split at step
    · cases step
    · rename_i c call
      cases step
      exact settle_exited (k := { s.run.kernel with waits := s.run.kernel.waits.resume t }) exited
        rfl (specific_loop_outcome _ t (fresh c call))
    · obtain ⟨r,wait,outcome⟩ := @any_outcome Task Obj Dev
        { s.run.kernel with waits := s.run.kernel.waits.resume t } inv.proc.ok.wf t
      simp only [wait, Option.map_some, Option.some.injEq] at step
      subst step
      exact settle_exited (k := { s.run.kernel with waits := s.run.kernel.waits.resume t }) exited
        rfl outcome
  | exit t exitval =>
    simp only [procExec, sysExit, Option.map_eq_some_iff] at step
    obtain ⟨k,exit,rfl⟩ := step
    have tree := set_exitval_tree s.run.kernel t.1 exitval
    have threads :
        t.2 ∈ ((s.run.kernel.modify t.1 ({ · with exitval := exitval })).tree t.1).threads := by
      rw [tree]
      exact enabled.1.1
    refine exited_kept exited rfl rfl (fun p zombie => ?_)
    rcases exit_zombies ops (kernel_ok_congr inv.proc.ok tree rfl rfl) threads
      (fun same => absurd same enabled.2) exit zombie with before | ⟨rfl,_⟩
    · refine Or.inl ?_
      have state := congrArg Links.pstate (congrFun tree p)
      exact state.symm.trans before
    · refine Or.inr ?_
      rw [exitCalls, values_new, if_pos ⟨rfl,rfl⟩]
      exact List.concat_ne_nil _ _
  | threadExit t =>
    simp only [procExec, Option.map_eq_some_iff] at step
    obtain ⟨k,exit,rfl⟩ := step
    refine exited_kept exited rfl rfl (fun p zombie => ?_)
    rcases exit_zombies ops inv.proc.ok enabled.1.1 enabled.2 exit zombie with before | ⟨rfl,last⟩
    · exact Or.inl before
    · exact Or.inr (values_more _ (first last))

theorem exited_reach_inv (ops : FileOps Obj Dev)
    (reach : ((statusSystem Task ops).restrict Accounted).Reach s) : ExitedInv s := by
  induction reach with
  | start first =>
    obtain ⟨⟨files,task,argl,args,booted⟩,_⟩ := first
    obtain ⟨tree,_,_⟩ := boot_spec files task argl args
    refine ⟨fun p zombie => ?_,by simp [booted, KernelProc.booted]⟩
    have state : ((boot files task argl args).PT p).pstate = if p.val ≤ 1 then .alive else .free :=
      congrArg Links.pstate (tree p)
    rw [booted] at zombie
    have zombie : ((boot files task argl args).PT p).pstate = .zombie := zombie
    rw [state] at zombie
    split at zombie <;> cases zombie
  | step before move ih =>
    exact exited_step ops (status_reach_inv ops (accounted_fresh ops before)) ih move

end Steps

/-- The status of a reaped process is what its last Exit gave if and only if one of its threads has
    called Exit, and two runs in which the Exit calls of a process gave the same values agree on
    its status, whatever other processes did. When each process calls Exit before it ends, all the
    statuses are so. -/
theorem status_from_exit (ops : FileOps Obj Dev) {s : StatusRun Task Obj Dev}
    (reach : ((statusSystem Task ops).restrict FreshStatus).Reach s) :
    (∀ r ∈ s.run.reaps, r.status = lastExit s.exits r.pid r.incarnation ↔
      valuesOf s.exits r.pid r.incarnation ≠ []) ∧
    (∀ s', ((statusSystem Task ops).restrict FreshStatus).Reach s' → ∀ r ∈ s.run.reaps,
      ∀ r' ∈ s'.run.reaps, valuesOf s.exits r.pid r.incarnation ≠ [] →
      valuesOf s'.exits r'.pid r'.incarnation = valuesOf s.exits r.pid r.incarnation →
      r'.status = r.status) ∧
    (((statusSystem Task ops).restrict Accounted).Reach s → ∀ r ∈ s.run.reaps,
      r.status = lastExit s.exits r.pid r.incarnation) := by
  have stored {s : StatusRun Task Obj Dev} (inv : StatusInv s) (r : Reap) (member : r ∈ s.run.reaps)
      (called : valuesOf s.exits r.pid r.incarnation ≠ []) :
      r.status = lastExit s.exits r.pid r.incarnation := by
    obtain ⟨v,status,last⟩ := inv.reaped r member
    obtain ⟨w,is⟩ := Option.ne_none_iff_exists'.mp (fun none => called (last_exit_none.mp none))
    rw [status, is, last w is]
  have inv := status_reach_inv ops reach
  refine ⟨fun r member => ⟨fun same none => ?_,stored inv r member⟩,?_,?_⟩
  · obtain ⟨v,status,_⟩ := inv.reaped r member
    rw [status, last_exit_none.mpr none] at same
    cases same
  · intro s' reach' r member r' member' called same
    rw [stored inv r member called, stored (status_reach_inv ops reach') r' member' (same ▸ called),
      lastExit, lastExit, same]
  · intro accounted r member
    exact stored inv r member ((exited_reach_inv ops accounted).reaped r member)

def bootedStatus : StatusRun Unit Unit Unit :=
  { run := booted (initializeFiles () ()) () 0 none, exits := [] }

/- Init waits for a process that has called Exit. -/
def exitedRun : List (ProcAction Unit) :=
  [.exec (1,0) (some ()) 0 none,.exit (2,0) 5,.waitChild (1,0) 2]

theorem status_from_exit_exited : ∃ s, ((statusSystem Unit bareOps).restrict Accounted).Reach s ∧
    ∃ r ∈ s.run.reaps, r.pid = 2 ∧ r.status = lastExit s.exits r.pid r.incarnation := by
  have reach := play_reach (m := (statusSystem Unit bareOps).restrict Accounted)
    (s := bootedStatus) ⟨⟨_,_,_,_,rfl⟩,rfl⟩ exitedRun rfl
  exact ⟨_,reach,_,List.mem_cons_self,rfl,
    (status_from_exit bareOps (accounted_fresh bareOps reach)).2.2 reach _ List.mem_cons_self⟩

/- Process 2 exits and is reaped; its PCB is used again by a process whose one thread leaves by
   ThreadExit. -/
def reusedRun (exitval : Int) : List (ProcAction Unit) :=
  [.exec (1,0) (some ()) 0 none,.exit (2,0) exitval,.waitChild (1,0) 2,
   .exec (1,0) (some ()) 0 none,.threadExit (2,0),.waitChild (1,0) 2]

/-- The second process never calls Exit, and its status is the exit value of the first one. -/
theorem status_of_earlier_process : ∃ s s', (statusSystem Unit bareOps).Reach s ∧
    (statusSystem Unit bareOps).Reach s' ∧ s.run.reaps.map Reap.status = [some 5,some 5] ∧
    s'.run.reaps.map Reap.status = [some 6,some 6] ∧
    s.run.reaps.map Reap.incarnation = [1,2] ∧ s'.run.reaps.map Reap.incarnation = [1,2] ∧
    valuesOf s.exits 2 2 = [] ∧ valuesOf s'.exits 2 2 = [] := by
  have first := play_reach (m := statusSystem Unit bareOps) (s := bootedStatus)
    ⟨⟨_,_,_,_,rfl⟩,rfl⟩ (reusedRun 5) rfl
  have second := play_reach (m := statusSystem Unit bareOps) (s := bootedStatus)
    ⟨⟨_,_,_,_,rfl⟩,rfl⟩ (reusedRun 6) rfl
  exact ⟨_,_,first,second,rfl,rfl,rfl,rfl,rfl,rfl⟩

end KernelProc
