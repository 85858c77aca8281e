import TinyOS.ExitStatus
import TinyOS.ThreadSteps

/- The end of processes, init included: Exit of init first waits for all its children, and
   ThreadExit of the last thread of a process asserts that it has none left. -/
namespace KernelProc
open KernelStreams Transition
variable {Task Obj Dev : Type} {k k' : Kernel Task Obj Dev} {cur p : Pid}

/- `exiting` holds the values of the threads of init that are inside sys_Exit. -/
structure EndRun (Task Obj Dev : Type) where
  run : ProcRun Task Obj Dev
  exiting : Thread → Option Int

/- while(sys_WaitChild(NOPROC,NULL)!=NOPROC), up to its end (true) or the next sleep; each turn
   but the last cleans up one child. -/
def waitForAll (thread : Thread) : Nat → Kernel Task Obj Dev → Option (Bool × Kernel Task Obj Dev)
  | 0, _ => none
  | turns + 1, k =>
    match waitForAnyChild k thread with
    | none => none
    | some (.asleep, k) => some (false, k)
    | some (.returned none _, k) => some (true, k)
    | some (.returned (some _) _, k) => waitForAll thread turns k

def EndRun.sleep (s : EndRun Task Obj Dev) (k : Kernel Task Obj Dev) (t : Thread) (exitval : Int) :
    EndRun Task Obj Dev :=
  { run := { s.run with kernel := k, calls := Function.update s.run.calls t (some .any) }
    exiting := Function.update s.exiting t (some exitval) }

def EndRun.leave (s : EndRun Task Obj Dev) (k : Kernel Task Obj Dev) (t : Thread) :
    EndRun Task Obj Dev :=
  { run := { s.run with kernel := k, calls := Function.update s.run.calls t none }
    exiting := Function.update s.exiting t none }

/- sys_Exit of init from the loop on. -/
def exitInit (ops : FileOps Obj Dev) (s : EndRun Task Obj Dev) (k : Kernel Task Obj Dev)
    (t : Thread) (exitval : Int) : Option (EndRun Task Obj Dev) :=
  match waitForAll t ((k.PT t.1).exitedList.length + 1) k with
  | none => none
  | some (false, k) => some (s.sleep k t exitval)
  | some (true, k) =>
    let k := k.modify t.1 ({ · with exitval := exitval })
    (sysThreadExit ops k t.1 t.2).map (s.leave · t)

/- Every exit is allowed, also the one of the last thread of init. -/
def EndEnabled (s : EndRun Task Obj Dev) : ProcAction Task → Prop
  | .exit t _ | .threadExit t => s.run.Idle t
  | a => ProcEnabled s.run a

def endExec (ops : FileOps Obj Dev) (s : EndRun Task Obj Dev) :
    ProcAction Task → Option (EndRun Task Obj Dev)
  | .exit t exitval =>
    if t.1 = initpcb then
      exitInit ops s (s.run.kernel.modify t.1 ({ · with exitval := exitval })) t exitval
    else (procExec ops s.run (.exit t exitval)).map ({ s with run := · })
  | .resume t =>
    match s.exiting t with
    | some exitval =>
      exitInit ops s { s.run.kernel with waits := s.run.kernel.waits.resume t } t exitval
    | none => (procExec ops s.run (.resume t)).map ({ s with run := · })
  | a => (procExec ops s.run a).map ({ s with run := · })

def endSystem (Task : Type) (ops : FileOps Obj Dev) :
    Machine (EndRun Task Obj Dev) (ProcAction Task) where
  start s := (procSystem Task ops).start s.run ∧ s.exiting = fun _ => none
  enabled := EndEnabled
  exec := endExec ops

instance (s : EndRun Task Obj Dev) (a : ProcAction Task) : Decidable (EndEnabled s a) :=
  match a with
  | .exit t _ | .threadExit t => inferInstanceAs (Decidable (s.run.Idle t))
  | .exec t call argl args =>
    inferInstanceAs (Decidable (ProcEnabled s.run (.exec t call argl args)))
  | .createThread t tid => inferInstanceAs (Decidable (ProcEnabled s.run (.createThread t tid)))
  | .waitChild t cpid => inferInstanceAs (Decidable (ProcEnabled s.run (.waitChild t cpid)))
  | .resume t => inferInstanceAs (Decidable (ProcEnabled s.run (.resume t)))

instance (ops : FileOps Obj Dev) (s : EndRun Task Obj Dev) (a : ProcAction Task) :
    Decidable ((endSystem Task ops).enabled s a) :=
  inferInstanceAs (Decidable (EndEnabled s a))

/-- What the sections keep while init has threads. -/
structure Running (k : Kernel Task Obj Dev) (calls : Thread → Option WaitTarget) : Prop where
  ok : KernelOk k
  rooted : ∃ birth, Rooted k.tree birth
  members : ∀ t, calls t ≠ none → t.2 ∈ (k.PT t.1).threads

section Sections
variable {calls : Thread → Option WaitTarget} {t : Thread}

theorem running_tree (running : Running k calls) (tree : k'.tree = k.tree)
    (freelist : k'.pcbFreelist = k.pcbFreelist) (count : k'.processCount = k.processCount) :
    Running k' calls := by
  refine ⟨kernel_ok_congr running.ok tree freelist count,tree ▸ running.rooted,fun t inside => ?_⟩
  have same : (k'.PT t.1).threads = (k.PT t.1).threads := congrArg Links.threads (congrFun tree t.1)
  exact same ▸ running.members t inside

theorem running_reaped (running : Running k calls) {c : Pid} (zombie : (k.PT c).pstate = .zombie) :
    Running (cleanupZombie k c).2 calls := by
  obtain ⟨tree,_⟩ := cleanup_spec k c
  obtain ⟨birth,rooted⟩ := running.rooted
  refine ⟨cleanup_ok running.ok zombie,⟨birth,tree ▸ rooted_reaped rooted c k.pcbFreelist⟩,
    fun t inside => ?_⟩
  have same : ((cleanupZombie k c).2.PT t.1).threads = (k.PT t.1).threads :=
    congrArg Links.threads (congrFun tree t.1)
  exact same ▸ running.members t inside

theorem running_outcome (running : Running k calls) {r : WaitResult × Kernel Task Obj Dev}
    (outcome : WaitOutcome k r) : Running r.2 calls := by
  cases outcome with
  | kept _ tree freelist count => exact running_tree running tree freelist count
  | reaped zombie => exact running_reaped running zombie

/-- A call of WaitChild begins or ends. -/
theorem running_calls (running : Running k calls) (t : Thread) (call : Option WaitTarget)
    (member : t.2 ∈ (k.PT t.1).threads) : Running k (Function.update calls t call) := by
  refine ⟨running.ok,running.rooted,fun u inside => ?_⟩
  by_cases same : u = t
  · exact same ▸ member
  · rw [Function.update_of_ne same] at inside
    exact running.members u inside

theorem outcome_threads {r : WaitResult × Kernel Task Obj Dev} (outcome : WaitOutcome k r)
    (p : Pid) : (r.2.PT p).threads = (k.PT p).threads := by
  cases outcome with
  | kept _ tree => exact congrArg Links.threads (congrFun tree p)
  | @reaped c zombie => exact congrArg Links.threads (congrFun (cleanup_spec k c).1 p)

/-- The loop ends with no child left, or asleep; there are turns enough for it. -/
theorem wait_for_all_spec (t : Thread) : ∀ (turns : Nat) (k : Kernel Task Obj Dev),
    Running k calls → (k.PT t.1).exitedList.length < turns →
    ∃ over' k', waitForAll t turns k = some (over',k') ∧
      Running k' calls ∧ (∀ p, (k'.PT p).threads = (k.PT p).threads) ∧
      (k'.PT t.1).threadCount = (k.PT t.1).threadCount ∧
      (over' = true → (k'.PT t.1).childrenList = []) := by
  intro turns
  induction turns with
  | zero => exact fun _ _ none => absurd none (Nat.not_lt_zero _)
  | succ turns ih =>
    intro k running enough
    by_cases childless : (k.PT t.1).childrenList = []
    · have wait : waitForAnyChild k t = some (.returned none none,k) := by
        simp only [waitForAnyChild, if_pos childless]
      simp only [waitForAll, wait]
      exact ⟨true,k,rfl,running,fun _ => rfl,rfl,fun _ => childless⟩
    · cases exited : (k.PT t.1).exitedList with
      | nil =>
        have wait : waitForAnyChild k t =
            some (.asleep,{ k with waits := k.waits.wait t.1 t }) := by
          simp only [waitForAnyChild, if_neg childless, exited]
        simp only [waitForAll, wait]
        exact ⟨false,_,rfl,running_tree running rfl rfl rfl,fun _ => rfl,rfl,fun no => by cases no⟩
      | cons c rest =>
        have member : c ∈ (k.PT t.1).exitedList := exited ▸ List.mem_cons_self
        have zombie : (k.PT c).pstate = .zombie := ((running.ok.wf.exited c t.1).mp member).2.1
        have wait : waitForAnyChild k t =
            some (.returned (some c) (some (cleanupZombie k c).1),(cleanupZombie k c).2) := by
          simp only [waitForAnyChild, if_neg childless, exited, if_pos zombie]
        have tree := (cleanup_spec k c).1
        have list : ((cleanupZombie k c).2.PT t.1).exitedList = rest := by
          refine (congrArg Links.exitedList (congrFun tree t.1)).trans ?_
          simp [Tree.reaped, Kernel.tree, exited]
        obtain ⟨over',k',run,running',threads,count,none⟩ :=
          ih (cleanupZombie k c).2 (running_reaped running zombie) (by
            rw [list]
            rw [exited, List.length_cons] at enough
            omega)
        simp only [waitForAll, wait]
        exact ⟨over',k',run,running',
          fun p => (threads p).trans (congrArg Links.threads (congrFun tree p)),
          count.trans (congrArg Links.threadCount (congrFun tree t.1)),none⟩

/-- ThreadExit, when init gives up no children. -/
theorem exit_running (ops : FileOps Obj Dev) (running : Running k calls)
    (member : t.2 ∈ (k.PT t.1).threads)
    (drained : t.1 = initpcb → (k.PT t.1).threadCount = 1 → (k.PT t.1).childrenList = []) :
    ∃ k', sysThreadExit ops k t.1 t.2 = some k' ∧
      (Running k' (Function.update calls t none) ∨
        Halted k' ∧ ∀ u, Function.update calls t none u = none) := by
  obtain ⟨birth,rooted⟩ := running.rooted
  have others {u : Thread} (inside : Function.update calls t none u ≠ none) :
      u ≠ t ∧ u.2 ∈ (k.PT u.1).threads := by
    have apart : u ≠ t := by
      rintro rfl
      exact inside (Function.update_self ..)
    rw [Function.update_of_ne apart] at inside
    exact ⟨apart,running.members u inside⟩
  have kept {u : Thread} (apart : u ≠ t) (before : u.2 ∈ (k.PT u.1).threads) :
      u.2 ∈ if u.1 = t.1 then (k.PT u.1).threads.erase t.2 else (k.PT u.1).threads := by
    by_cases here : u.1 = t.1
    · rw [if_pos here]
      exact (List.mem_erase_of_ne (fun same => apart (Prod.ext here same))).mpr before
    · rwa [if_neg here]
  by_cases final : t.1 = initpcb ∧ (k.PT t.1).threadCount = 1
  · obtain ⟨init,last⟩ := final
    have childless := drained init last
    have unexited := childless_unexited running.ok.wf childless
    have exit : sysThreadExit ops k t.1 t.2 =
        some (cleanupProcess ops (leaveProcess k initpcb t.2) initpcb) := by
      rw [init] at last childless unexited ⊢
      rw [init_exit_eq ops t.2 last, if_pos ⟨childless,unexited⟩]
    refine ⟨_,exit,Or.inr ?_⟩
    rw [init] at exit member last
    obtain ⟨_,tree,halted⟩ := init_halts ops running.ok rooted member last exit
    refine ⟨halted,fun u => ?_⟩
    by_contra inside
    obtain ⟨apart,before⟩ := others inside
    have still := kept apart before
    have threads := congrArg Links.threads (congrFun tree u.1)
    have none := halted.threads u.1
    rw [init] at still
    rw [show (if u.1 = initpcb then (k.PT u.1).threads.erase t.2 else (k.PT u.1).threads) = [] from
      threads.symm.trans none] at still
    cases still
  · have notLast : t.1 = initpcb → (k.PT t.1).threadCount ≠ 1 := fun init last => final ⟨init,last⟩
    obtain ⟨k',exit,ok,_⟩ := thread_exit_ok ops running.ok member notLast
    refine ⟨k',exit,Or.inl ⟨ok,⟨birth,rooted_exit ops running.ok rooted member notLast exit⟩,
      fun u inside => ?_⟩⟩
    obtain ⟨apart,before⟩ := others inside
    have still := kept apart before
    rcases exit_tree ops running.ok member notLast exit with ⟨_,_,parent,tree⟩ | ⟨_,tree⟩
    · rw [show (k'.PT u.1).threads = if u.1 = t.1 then (k.PT u.1).threads.erase t.2
        else (k.PT u.1).threads from congrArg Links.threads (congrFun tree u.1)]
      exact still
    · rw [show (k'.PT u.1).threads = if u.1 = t.1 then (k.PT u.1).threads.erase t.2
        else (k.PT u.1).threads from congrArg Links.threads (congrFun tree u.1)]
      exact still

/-- The assertion of ThreadExit fails when the last thread of init leaves children behind. -/
theorem exit_aborts (ops : FileOps Obj Dev) (init : t.1 = initpcb)
    (last : (k.PT t.1).threadCount = 1) (children : (k.PT t.1).childrenList ≠ []) :
    sysThreadExit ops k t.1 t.2 = none := by
  rw [init] at last children ⊢
  rw [init_exit_eq ops t.2 last, if_neg (fun empty => children empty.1)]

end Sections
/-- The last thread of init does not leave by ThreadExit when init has children. -/
def InitDrained (s : EndRun Task Obj Dev) : ProcAction Task → Prop
  | .threadExit t => t.1 = initpcb → (s.run.kernel.PT t.1).threadCount = 1 →
      (s.run.kernel.PT t.1).childrenList = []
  | _ => True

/-- No thread tests again a child whose PCB is FREE. -/
def FreshEnd (s : EndRun Task Obj Dev) (a : ProcAction Task) : Prop := FreshTest s.run a

structure EndInv (s : EndRun Task Obj Dev) : Prop where
  system : Running s.run.kernel s.run.calls ∨
    Halted s.run.kernel ∧ ∀ t, s.run.calls t = none
  exiting : ∀ t, s.exiting t ≠ none → t.1 = initpcb ∧ s.run.calls t = some .any

section Steps
variable {s s' : EndRun Task Obj Dev} {t : Thread}

theorem halted_idle (halted : Halted s.run.kernel) : ¬ s.run.Idle t := by
  rintro ⟨member,_⟩
  rw [halted.threads] at member
  cases member

theorem end_running (inv : EndInv s) {a : ProcAction Task} (enabled : EndEnabled s a) :
    Running s.run.kernel s.run.calls := by
  rcases inv.system with running | ⟨halted,none⟩
  · exact running
  · have never (t : Thread) : ¬ s.run.Idle t := halted_idle halted
    cases a with
    | exec t | exit t | threadExit t | waitChild t => exact absurd enabled (never t)
    | createThread t => exact absurd enabled.1 (never t)
    | resume t => exact absurd (none t) enabled.1

/-- A thread that is inside sys_Exit makes no other call. -/
theorem idle_not_exiting (inv : EndInv s) (idle : s.run.Idle t) : s.exiting t = none := by
  by_contra inside
  have call := (inv.exiting t inside).2
  rw [idle.2] at call
  cases call

/-- A section of another call of t. -/
theorem end_section (inv : EndInv s) (run : ProcRun Task Obj Dev)
    (system : Running run.kernel run.calls ∨ Halted run.kernel ∧ ∀ u, run.calls u = none)
    (none : s.exiting t = none) (others : ∀ u, u ≠ t → run.calls u = s.run.calls u) :
    EndInv { s with run := run } := by
  refine ⟨system,fun u inside => ?_⟩
  have apart : u ≠ t := fun same => inside (same ▸ none)
  rw [others u apart]
  exact inv.exiting u inside

theorem settle_calls (run : ProcRun Task Obj Dev) (t : Thread) (target : WaitTarget)
    (r : WaitResult × Kernel Task Obj Dev) : ∃ call,
      (run.settle t target r).calls = Function.update run.calls t call := by
  obtain ⟨result,k⟩ := r
  cases result with
  | asleep => exact ⟨_,rfl⟩
  | returned c status => cases c <;> exact ⟨_,rfl⟩

theorem settle_end (inv : EndInv s) (none : s.exiting t = none) (running : Running k s.run.calls)
    (member : t.2 ∈ (k.PT t.1).threads) (target : WaitTarget)
    {r : WaitResult × Kernel Task Obj Dev} (outcome : WaitOutcome k r) :
    EndInv { s with run := s.run.settle t target r } := by
  obtain ⟨call,calls⟩ := settle_calls s.run t target r
  refine end_section inv _ (Or.inl ?_) none (fun u apart => ?_)
  · rw [settle_kernel, calls]
    refine running_calls (running_outcome running outcome) t call ?_
    rw [outcome_threads outcome]
    exact member
  · rw [calls, Function.update_of_ne apart]

theorem exit_init_spec (ops : FileOps Obj Dev) (inv : EndInv s) (init : t.1 = initpcb)
    (running : Running k s.run.calls) (member : t.2 ∈ (k.PT t.1).threads) (exitval : Int) :
    ∃ s', exitInit ops s k t exitval = some s' ∧ EndInv s' := by
  obtain ⟨over',k',run,running',threads,count,none⟩ :=
    wait_for_all_spec t ((k.PT t.1).exitedList.length + 1) k running (Nat.lt_succ_self _)
  have member' : t.2 ∈ (k'.PT t.1).threads := threads t.1 ▸ member
  cases over' with
  | false =>
    refine ⟨s.sleep k' t exitval,by simp only [exitInit, run],
      Or.inl (running_calls running' t (some .any) member'),fun u inside => ?_⟩
    by_cases same : u = t
    · subst same
      exact ⟨init,Function.update_self ..⟩
    · simp only [EndRun.sleep, Function.update_of_ne same] at inside ⊢
      exact inv.exiting u inside
  | true =>
    have tree := set_exitval_tree k' t.1 exitval
    have entry := congrFun tree t.1
    obtain ⟨k₂,exit,system⟩ := exit_running ops (running_tree running' tree rfl rfl) (t := t)
      (show t.2 ∈ ((k'.modify t.1 ({ · with exitval := exitval })).tree t.1).threads from by
        rw [entry]
        exact member')
      (fun _ _ => (congrArg Links.childrenList entry).trans (none rfl))
    refine ⟨s.leave k₂ t,by simp only [exitInit, run, exit, Option.map_some],system,
      fun u inside => ?_⟩
    have apart : u ≠ t := by
      rintro rfl
      exact inside (Function.update_self ..)
    simp only [EndRun.leave, Function.update_of_ne apart] at inside ⊢
    exact inv.exiting u inside

theorem exec_end (inv : EndInv s) (ops : FileOps Obj Dev)
    (running : Running s.run.kernel s.run.calls) (idle : s.run.Idle t) (call : Option Task)
    (argl : Int) (args : Option (List UInt8)) :
    ∃ s', endExec ops s (.exec t call argl args) = some s' ∧ EndInv s' := by
  have free := idle_not_exiting inv idle
  cases head : s.run.kernel.pcbFreelist with
  | none =>
    refine ⟨{ s with run := s.run },?_,end_section inv _ (Or.inl running) free (fun _ _ => rfl)⟩
    simp only [endExec, procExec, exec_full head, Option.map_some]
  | some new =>
    obtain ⟨k',exec,tree,_⟩ := exec_spec head t.1 call argl args
    have alive := running_alive running.ok idle.1
    have ok := exec_ok running.ok alive call argl args
    rw [exec] at ok
    obtain ⟨birth,rooted⟩ := running.rooted
    have apart : t.1 ≠ 0 := by
      intro zero
      have none : (s.run.kernel.PT 0).threads = [] := running.ok.threads.idle.2
      have member := idle.1
      rw [zero, none] at member
      cases member
    refine ⟨{ s with run := { s.run with
      kernel := k'
      incarnation := Function.update s.run.incarnation new (s.run.incarnation new + 1) } },
      by simp only [endExec, procExec, exec, Option.map_some],
      end_section inv _ (Or.inl ⟨ok,?_,fun u inside => ?_⟩) free (fun _ _ => rfl)⟩
    · rw [tree]
      exact rooted_execed rooted running.ok.wf (head_unused running.ok head) apart alive _
    · have threads := congrArg Links.threads (congrFun tree u.1)
      rw [execed_threads] at threads
      have threads : (k'.PT u.1).threads = (s.run.kernel.PT u.1).threads ++ _ := threads
      rw [threads]
      exact List.mem_append_left _ (running.members u inside)

theorem create_end (inv : EndInv s) (ops : FileOps Obj Dev)
    (running : Running s.run.kernel s.run.calls) (idle : s.run.Idle t) (tid : Tid) :
    ∃ s', endExec ops s (.createThread t tid) = some s' ∧ EndInv s' := by
  have tree := create_thread_tree s.run.kernel t.1 tid
  obtain ⟨birth,rooted⟩ := running.rooted
  refine ⟨_,rfl,end_section inv _ (Or.inl ⟨create_thread_ok running.ok idle.1 tid,⟨birth,?_⟩,
    fun u inside => ?_⟩) (idle_not_exiting inv idle) (fun _ _ => rfl)⟩
  · exact rooted_congr rooted (fun p => by rw [tree p]) (fun p _ => by rw [tree p])
  · have threads := congrArg Links.threads (tree u.1)
    have threads : ((sysCreateThread s.run.kernel t.1 tid).PT u.1).threads =
        (s.run.kernel.PT u.1).threads ++ _ := threads
    rw [threads]
    exact List.mem_append_left _ (running.members u inside)

theorem end_step (ops : FileOps Obj Dev) (inv : EndInv s) {a : ProcAction Task}
    (enabled : EndEnabled s a) (fresh : FreshEnd s a) (drained : InitDrained s a) :
    ∃ s', endExec ops s a = some s' ∧ EndInv s' := by
  have running := end_running inv enabled
  cases a with
  | exec t call argl args => exact exec_end inv ops running enabled call argl args
  | createThread t tid => exact create_end inv ops running enabled.1 tid
  | waitChild t cpid =>
    have free := idle_not_exiting inv enabled
    by_cases any : cpid = -1
    · obtain ⟨r,wait,outcome⟩ := any_outcome running.ok.wf t
      refine ⟨_,?_,settle_end inv free running enabled.1 .any outcome⟩
      simp only [endExec, procExec, ne_eq, any, not_true_eq_false, if_false, wait, Option.map_some]
    · refine ⟨_,?_,settle_end inv free running enabled.1 (.child (Fin.ofNat maxProc cpid.toNat))
        (specific_outcome s.run.kernel t cpid)⟩
      simp only [endExec, procExec, ne_eq, any, not_false_eq_true, if_true, Option.map_some]
  | resume t =>
    have woken : Running { s.run.kernel with waits := s.run.kernel.waits.resume t } s.run.calls :=
      running_tree running rfl rfl rfl
    have member := running.members t enabled.1
    cases inside : s.exiting t with
    | some exitval =>
      obtain ⟨init,_⟩ := inv.exiting t (by rw [inside]; exact Option.some_ne_none exitval)
      obtain ⟨s',run,inv'⟩ := exit_init_spec ops inv init woken member exitval
      exact ⟨s',by simp only [endExec, inside, run],inv'⟩
    | none =>
      cases call : s.run.calls t with
      | none => exact absurd call enabled.1
      | some target =>
        cases target with
        | child c =>
          refine ⟨_,?_,settle_end inv inside woken member (.child c)
            (specific_loop_outcome _ t (fresh c call))⟩
          simp only [endExec, inside, procExec, call, Option.map_some]
        | any =>
          obtain ⟨r,wait,outcome⟩ := any_outcome woken.ok.wf t
          refine ⟨_,?_,settle_end inv inside woken member .any outcome⟩
          simp only [endExec, inside, procExec, call, wait, Option.map_some]
  | exit t exitval =>
    have tree := set_exitval_tree s.run.kernel t.1 exitval
    have stored : Running (s.run.kernel.modify t.1 ({ · with exitval := exitval })) s.run.calls :=
      running_tree running tree rfl rfl
    have member :
        t.2 ∈ ((s.run.kernel.modify t.1 ({ · with exitval := exitval })).tree t.1).threads := by
      rw [tree]
      exact enabled.1
    by_cases init : t.1 = initpcb
    · obtain ⟨s',run,inv'⟩ := exit_init_spec ops inv init stored member exitval
      exact ⟨s',by simp only [endExec, if_pos init, run],inv'⟩
    · obtain ⟨k',exit,system⟩ := exit_running ops stored member (fun same => absurd same init)
      have calls : Function.update s.run.calls t none = s.run.calls := by
        rw [← enabled.2, Function.update_eq_self]
      rw [calls] at system
      refine ⟨_,?_,end_section inv { s.run with kernel := k' } system
        (idle_not_exiting inv enabled) (fun _ _ => rfl)⟩
      simp only [endExec, if_neg init, procExec, sysExit, exit, Option.map_some]
  | threadExit t =>
    obtain ⟨k',exit,system⟩ := exit_running ops running enabled.1 drained
    have calls : Function.update s.run.calls t none = s.run.calls := by
      rw [← enabled.2, Function.update_eq_self]
    rw [calls] at system
    refine ⟨_,?_,end_section inv { s.run with kernel := k' } system
      (idle_not_exiting inv enabled) (fun _ _ => rfl)⟩
    simp only [endExec, procExec, exit, Option.map_some]

theorem end_aborts (ops : FileOps Obj Dev) {a : ProcAction Task} (undrained : ¬ InitDrained s a) :
    endExec ops s a = none := by
  cases a with
  | threadExit t =>
    simp only [InitDrained, not_forall] at undrained
    obtain ⟨init,last,children⟩ := undrained
    simp only [endExec, procExec, exit_aborts ops init last children, Option.map_none]
  | exec | createThread | waitChild | resume | exit => exact absurd trivial undrained

theorem end_reach_inv (ops : FileOps Obj Dev)
    (reach : ((endSystem Task ops).restrict FreshEnd).Reach s) : EndInv s := by
  refine inductive_reach ⟨?_,?_⟩ reach
  · rintro s ⟨⟨files,task,argl,args,booted⟩,none⟩
    refine ⟨Or.inl ?_,fun t inside => absurd (congrFun none t) inside⟩
    rw [booted]
    exact ⟨boot_ok files task argl args,⟨_,boot_rooted files task argl args⟩,
      fun _ no => absurd rfl no⟩
  · rintro s a s' inv ⟨⟨enabled,fresh⟩,run⟩
    have drained : InitDrained s a := by
      by_contra undrained
      cases (end_aborts ops undrained).symm.trans run
    obtain ⟨s₁,run₁,inv'⟩ := end_step ops inv enabled fresh drained
    cases run₁.symm.trans run
    exact inv'

end Steps

/-- In every run without a stale test a section aborts the kernel if and only if it is ThreadExit
    of the last thread of init while init has children, and every process but the first two has
    an ALIVE parent. -/
theorem exits_never_abort (ops : FileOps Obj Dev) {s : EndRun Task Obj Dev}
    (reach : ((endSystem Task ops).restrict FreshEnd).Reach s) :
    (∀ a, EndEnabled s a → FreshEnd s a → ((endExec ops s a).isSome ↔ InitDrained s a)) ∧
    ∀ p, 2 ≤ p.val → (s.run.kernel.PT p).pstate ≠ .free →
      ∃ q, (s.run.kernel.PT p).parent = some q ∧ (s.run.kernel.PT q).pstate = .alive := by
  have inv := end_reach_inv ops reach
  refine ⟨fun a enabled fresh => ⟨fun done => ?_,fun drained => ?_⟩,fun p child used => ?_⟩
  · by_contra undrained
    rw [end_aborts ops undrained] at done
    cases done
  · obtain ⟨s',run,_⟩ := end_step ops inv enabled fresh drained
    rw [run]
    rfl
  · rcases inv.system with running | ⟨halted,_⟩
    · exact running.ok.wf.parents p child used
    · exact absurd (halted.others p child) used

def bootedEnd : EndRun Unit Unit Unit :=
  { run := booted (initializeFiles () ()) () 0 none, exiting := fun _ => none }

/- Init starts a process. -/
def initWithChild : EndRun Unit Unit Unit :=
  ((endSystem Unit bareOps).play bootedEnd [.exec (1,0) (some ()) 0 none]).get rfl

theorem exits_never_abort_init : ((endSystem Unit bareOps).restrict FreshEnd).Reach initWithChild ∧
    (endExec bareOps initWithChild (.exit (1,0) 0)).isSome ∧
    ∃ q, (initWithChild.run.kernel.PT 2).parent = some q ∧
      (initWithChild.run.kernel.PT q).pstate = .alive := by
  have reach : ((endSystem Unit bareOps).restrict FreshEnd).Reach initWithChild :=
    .step (a := .exec (1,0) (some ()) 0 none) (s := bootedEnd) (.start ⟨⟨_,_,_,_,rfl⟩,rfl⟩)
      ⟨⟨show EndEnabled bootedEnd (.exec (1,0) (some ()) 0 none) from by decide,trivial⟩,rfl⟩
  obtain ⟨safe,parents⟩ := exits_never_abort bareOps reach
  exact ⟨reach,(safe (.exit (1,0) 0) (by decide) trivial).mpr trivial,
    parents 2 (by decide) (by decide)⟩

/-- Init leaves by ThreadExit while its child is alive. -/
theorem thread_exit_aborts : (endSystem Unit bareOps).Reach initWithChild ∧
    EndEnabled initWithChild (.threadExit (1,0)) ∧
    (initWithChild.run.kernel.PT initpcb).threadCount = 1 ∧
    (initWithChild.run.kernel.PT initpcb).childrenList = [2] ∧
    endExec bareOps initWithChild (.threadExit (1,0)) = none := by
  have reach := play_reach (m := endSystem Unit bareOps) (s := bootedEnd)
    ⟨⟨_,_,_,_,rfl⟩,rfl⟩ [.exec (1,0) (some ()) 0 none] (Option.some_get rfl).symm
  have undrained : ¬ InitDrained initWithChild (.threadExit (1,0)) := fun drained => by
    cases drained rfl rfl
  exact ⟨reach,by decide,rfl,rfl,end_aborts bareOps undrained⟩

end KernelProc
