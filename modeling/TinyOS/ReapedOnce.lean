import TinyOS.Reaping
import TinyOS.TableInvariant

/- Which runs reap every terminated process exactly once: those in which no thread that slept
   in wait_for_specific_child tests the child again when its PCB is FREE. In such runs the
   free list is a chain of the FREE PCBs and process_count counts the others. -/
namespace KernelProc
open KernelStreams Transition Tally
variable {Task Obj Dev : Type} {T : Tree} {head : Option Pid} {count : UInt32}
  {s s' : ProcRun Task Obj Dev} {p cur new : Pid}

/-- Every past incarnation of a pid has been reaped exactly once, the present one not yet. -/
def ReapedOnce (T : Tree) (incarnation : Pid → Nat) (reaps : List Reap) : Prop :=
  ∀ p n, reaps.countP (fun r => r.pid = p ∧ r.incarnation = n) =
    if 1 ≤ n ∧ (n < incarnation p ∨ n = incarnation p ∧ (T p).pstate = .free) then 1 else 0

section Log
variable {incarnation : Pid → Nat} {reaps : List Reap}

theorem reaped_once_execed (once : ReapedOnce T incarnation reaps)
    (unused : (T new).pstate = .free) (cur : Pid) (running : Bool) :
    ReapedOnce (T.execed new cur running)
      (Function.update incarnation new (incarnation new + 1)) reaps := by
  intro p n
  have := once p n
  rw [execed_pstate, Function.update_apply]
  grind

theorem reaped_once_cleanup (once : ReapedOnce T incarnation reaps)
    (zombie : (T p).pstate = .zombie) (born : 1 ≤ incarnation p) (link : Option Pid) {r : Reap}
    (pid : r.pid = p) (now : r.incarnation = incarnation p) :
    ReapedOnce (T.reaped p link) incarnation (reaps ++ [r]) := by
  intro q n
  have := once q n
  simp only [List.countP_append, List.countP_singleton, Tree.reaped, pid, now]
  grind

theorem reaped_once_congr {T' : Tree} (once : ReapedOnce T incarnation reaps)
    (states : ∀ p, (T' p).pstate = .free ↔ (T p).pstate = .free) :
    ReapedOnce T' incarnation reaps := by
  intro p n
  rw [once p n]
  simp only [states p]

end Log

structure ProcInv (s : ProcRun Task Obj Dev) : Prop where
  ok : KernelOk s.kernel
  born : ∀ p, (s.kernel.PT p).pstate ≠ .free → 1 ≤ s.incarnation p
  reaped : ReapedOnce s.kernel.tree s.incarnation s.reaps

/-- The outcomes of a section of WaitChild: nothing is touched, or one zombie is cleaned up and
    its pid returned. -/
inductive WaitOutcome (k : Kernel Task Obj Dev) : WaitResult × Kernel Task Obj Dev → Prop where
  | kept {r : WaitResult} {k' : Kernel Task Obj Dev} (silent : ∀ c status, r ≠ .returned (some c) status)
      (tree : k'.tree = k.tree) (freelist : k'.pcbFreelist = k.pcbFreelist)
      (count : k'.processCount = k.processCount) : WaitOutcome k (r, k')
  | reaped {c : Pid} (zombie : (k.PT c).pstate = .zombie) :
      WaitOutcome k (.returned (some c) (some (cleanupZombie k c).1), (cleanupZombie k c).2)

theorem specific_loop_outcome (k : Kernel Task Obj Dev) (t : Thread) {c : Pid}
    (inUse : (k.PT c).pstate ≠ .free) : WaitOutcome k (waitForSpecificLoop k t c) := by
  unfold waitForSpecificLoop
  split
  · exact .kept (by simp) rfl rfl rfl
  · rename_i dead
    refine .reaped ?_
    cases state : (k.PT c).pstate with
    | free => exact absurd state inUse
    | alive => exact absurd state dead
    | zombie => rfl

theorem specific_outcome (k : Kernel Task Obj Dev) (t : Thread) (cpid : Int) :
    WaitOutcome k (waitForSpecificChild k t cpid) := by
  unfold waitForSpecificChild
  split
  · simp only
    split
    · exact .kept (by simp) rfl rfl rfl
    · rename_i legal
      exact specific_loop_outcome k t (fun unused => legal (Or.inl unused))
  · exact .kept (by simp) rfl rfl rfl

theorem any_outcome {k : Kernel Task Obj Dev} (wf : k.tree.WellFormed) (t : Thread) :
    ∃ r, waitForAnyChild k t = some r ∧ WaitOutcome k r := by
  unfold waitForAnyChild
  split
  · exact ⟨_,rfl,.kept (by simp) rfl rfl rfl⟩
  · cases exited : (k.PT t.1).exitedList with
    | nil => exact ⟨_,rfl,.kept (by simp) rfl rfl rfl⟩
    | cons c rest =>
      have member : c ∈ (k.PT t.1).exitedList := exited ▸ List.mem_cons_self ..
      have zombie : (k.PT c).pstate = .zombie := ((wf.exited c t.1).mp member).2.1
      exact ⟨_,if_pos zombie,.reaped zombie⟩

theorem settle_inv (inv : ProcInv s) {k : Kernel Task Obj Dev} (tree : k.tree = s.kernel.tree)
    (freelist : k.pcbFreelist = s.kernel.pcbFreelist)
    (count : k.processCount = s.kernel.processCount) (t : Thread) (target : WaitTarget)
    {r : WaitResult × Kernel Task Obj Dev} (outcome : WaitOutcome k r) :
    ProcInv (s.settle t target r) := by
  obtain ⟨ok,born,reaped⟩ := inv
  have ok' := kernel_ok_congr ok tree freelist count
  have states (p : Pid) : (k.PT p).pstate = (s.kernel.PT p).pstate :=
    congrArg Links.pstate (congrFun tree p)
  cases outcome with
  | @kept r k' silent tree' freelist' count' =>
    have all : (s.settle t target (r,k')).kernel = k' ∧
        (s.settle t target (r,k')).incarnation = s.incarnation ∧
        (s.settle t target (r,k')).reaps = s.reaps := by
      cases r with
      | asleep => exact ⟨rfl,rfl,rfl⟩
      | returned c status =>
        cases c with
        | none => exact ⟨rfl,rfl,rfl⟩
        | some c => exact absurd rfl (silent c status)
    obtain ⟨kernel,incarnation,reaps⟩ := all
    have states' (p : Pid) : (k'.PT p).pstate = (k.PT p).pstate :=
      congrArg Links.pstate (congrFun tree' p)
    constructor
    · rw [kernel]
      exact kernel_ok_congr ok' tree' freelist' count'
    · intro p
      rw [kernel, incarnation, states' p, states p]
      exact born p
    · rwa [kernel, incarnation, reaps, tree', tree]
  | @reaped c zombie =>
    have zombie' : (s.kernel.tree c).pstate = .zombie := (states c).symm.trans zombie
    have tree' := (cleanup_spec k c).1
    constructor
    · exact cleanup_ok ok' zombie
    · intro p
      have entry := congrArg Links.pstate (congrFun tree' p)
      have := born p
      have := states p
      simp only [ProcRun.settle]
      simp only [Kernel.tree, Tree.reaped] at entry
      grind
    · rw [tree] at tree'
      simp only [ProcRun.settle, tree']
      refine reaped_once_cleanup reaped zombie' (born c ?_) _ rfl rfl
      simp [(states c).symm.trans zombie]

/-- A step that leaves the FREE PCBs, the log and the incarnations alone. -/
theorem keep_inv (inv : ProcInv s) {k : Kernel Task Obj Dev} (ok : KernelOk k)
    (states : ∀ p, (k.PT p).pstate = .free ↔ (s.kernel.PT p).pstate = .free) :
    ProcInv { s with kernel := k } := by
  refine ⟨ok,fun p used => ?_,reaped_once_congr inv.reaped states⟩
  exact inv.born p (fun unused => used ((states p).mpr unused))

theorem exec_inv (ops : FileOps Obj Dev) (inv : ProcInv s) {t : Thread} (idle : s.Idle t)
    (call : Option Task) (argl : Int) (args : Option (List UInt8))
    (run : procExec ops s (.exec t call argl args) = some s') : ProcInv s' := by
  have ok := exec_ok inv.ok (running_alive inv.ok idle.1) call argl args
  cases head : s.kernel.pcbFreelist with
  | none =>
    simp only [procExec, exec_full head, Option.some.injEq] at run
    exact run ▸ inv
  | some new =>
    obtain ⟨k',exec,tree,_⟩ := exec_spec head t.1 call argl args
    have unused := head_unused inv.ok head
    simp only [procExec, exec, Option.some.injEq] at run
    subst run
    constructor
    · rwa [exec] at ok
    · intro p
      have entry := congrArg Links.pstate (congrFun tree p)
      have := inv.born p
      rw [execed_pstate] at entry
      simp only [Kernel.tree] at entry
      simp only [Function.update_apply]
      grind
    · simp only [tree]
      exact reaped_once_execed inv.reaped unused _ _

/-- The step the condition excludes is the only one that can reap a process again: a thread that
    slept in wait_for_specific_child tests a child whose PCB is FREE. -/
def FreshTest (s : ProcRun Task Obj Dev) : ProcAction Task → Prop
  | .resume t => ∀ c, s.calls t = some (.child c) → (s.kernel.PT c).pstate ≠ .free
  | _ => True

instance (s : ProcRun Task Obj Dev) (a : ProcAction Task) : Decidable (FreshTest s a) :=
  match a with
  | .resume t =>
    match h : s.calls t with
    | some (.child c) => decidable_of_iff ((s.kernel.PT c).pstate ≠ .free)
        ⟨fun used d same => by cases h.symm.trans same; exact used,fun all => all c h⟩
    | some .any => isTrue (fun c same => by cases h.symm.trans same)
    | none => isTrue (fun c same => by cases h.symm.trans same)
  | .exec .. | .createThread .. | .waitChild .. | .exit .. | .threadExit .. => isTrue trivial

theorem proc_step (ops : FileOps Obj Dev) (inv : ProcInv s) {a : ProcAction Task}
    (enabled : ProcEnabled s a) (fresh : FreshTest s a) (run : procExec ops s a = some s') :
    ProcInv s' := by
  cases a with
  | exec t call argl args => exact exec_inv ops inv enabled call argl args run
  | createThread t tid =>
    cases run
    refine keep_inv inv (create_thread_ok inv.ok enabled.1.1 tid) (fun p => ?_)
    have state := congrArg Links.pstate (create_thread_tree s.kernel t.1 tid p)
    simp only [Kernel.tree] at state
    rw [state]
  | waitChild t cpid =>
    simp only [procExec] at run
    split at run
    · cases run
      exact settle_inv inv rfl rfl rfl t _ (specific_outcome _ t cpid)
    · obtain ⟨r,wait,outcome⟩ := any_outcome inv.ok.wf t
      simp only [wait, Option.map_some, Option.some.injEq] at run
      exact run ▸ settle_inv inv rfl rfl rfl t _ outcome
  | resume t =>
    simp only [procExec] at run
    split at run
    · cases run
    · rename_i c call
      cases run
      exact settle_inv inv (k := { s.kernel with waits := s.kernel.waits.resume t }) rfl rfl rfl t _
        (specific_loop_outcome _ t (fresh c call))
    · obtain ⟨r,wait,outcome⟩ :=
        @any_outcome Task Obj Dev { s.kernel with waits := s.kernel.waits.resume t } inv.ok.wf t
      simp only [wait, Option.map_some, Option.some.injEq] at run
      exact run ▸ settle_inv inv (k := { s.kernel with waits := s.kernel.waits.resume t })
        rfl rfl rfl t _ outcome
  | exit t exitval =>
    have tree := set_exitval_tree s.kernel t.1 exitval
    have member : t.2 ∈ ((s.kernel.modify t.1 ({ · with exitval := exitval })).tree t.1).threads := by
      rw [tree]
      exact enabled.1.1
    obtain ⟨k,exit,ok,used,states⟩ := thread_exit_ok ops (kernel_ok_congr inv.ok tree rfl rfl)
      member (fun same => absurd same enabled.2)
    simp only [procExec, sysExit, exit, Option.map_some, Option.some.injEq] at run
    refine run ▸ keep_inv inv ok (fun p => ?_)
    have before := congrArg Links.pstate (congrFun tree p)
    have alive := running_alive inv.ok enabled.1.1
    by_cases here : p = t.1
    · simp [here, used, alive]
    · rw [states p here]
      exact iff_of_eq (congrArg (fun state => state = PidState.free) before)
  | threadExit t =>
    obtain ⟨k,exit,ok,used,states⟩ := thread_exit_ok ops inv.ok enabled.1.1 enabled.2
    simp only [procExec, exit, Option.map_some, Option.some.injEq] at run
    refine run ▸ keep_inv inv ok (fun p => ?_)
    have alive := running_alive inv.ok enabled.1.1
    by_cases here : p = t.1
    · simp [here, used, alive]
    · rw [states p here]

theorem booted_inv (files : Files Obj Dev) (task : Task) (argl : Int) (args : Option (List UInt8)) :
    ProcInv (booted files task argl args) := by
  obtain ⟨tree,_,_⟩ := boot_spec files task argl args
  have free (p : Pid) : ((boot files task argl args).tree p).pstate = .free ↔ ¬ p.val ≤ 1 := by
    rw [tree p]
    simp
  refine ⟨boot_ok files task argl args,fun p used => ?_,fun p n => ?_⟩
  · have := (free p).not.mp used
    simp only [booted]
    grind
  · have := free p
    simp only [booted, List.countP_nil]
    grind

theorem fresh_reach_inv (ops : FileOps Obj Dev)
    (reach : ((procSystem Task ops).restrict FreshTest).Reach s) : ProcInv s := by
  refine inductive_reach ⟨?_,?_⟩ reach
  · rintro s ⟨files,task,argl,args,rfl⟩
    exact booted_inv files task argl args
  · intro s a s' inv move
    exact proc_step ops inv move.1.1 move.1.2 move.2

/-- The excluded step releases a PCB that is FREE already and miscounts the processes. -/
theorem stale_test_breaks (ops : FileOps Obj Dev)
    (table : TableExact s.kernel.tree s.kernel.pcbFreelist s.kernel.processCount) {t : Thread}
    {c : Pid} (call : s.calls t = some (.child c)) (unused : (s.kernel.PT c).pstate = .free)
    (run : procExec ops s (.resume t) = some s') :
    ¬ TableExact s'.kernel.tree s'.kernel.pcbFreelist s'.kernel.processCount := by
  obtain ⟨tree,_,count,_⟩ := cleanup_spec { s.kernel with waits := s.kernel.waits.resume t } c
  have result : s'.kernel = (cleanupZombie { s.kernel with waits := s.kernel.waits.resume t } c).2 := by
    simp only [procExec, call, waitForSpecificLoop, unused, reduceCtorEq, if_false,
      Option.some.injEq] at run
    rw [← run]
    rfl
  intro table'
  have before := table.used
  have after := table'.used
  have same : tally (fun p => (s'.kernel.tree p).pstate ≠ .free) =
      tally (fun p => (s.kernel.tree p).pstate ≠ .free) := by
    refine tally_congr (fun p => ?_)
    have free : (s.kernel.tree c).pstate = .free := unused
    rw [result, tree]
    by_cases here : p = c
    · simp [Tree.reaped, here, free]
    · simp [Tree.reaped, here, Kernel.tree]
  have counts : s.kernel.processCount - 1 = s.kernel.processCount := by
    apply UInt32.toNat_inj.mp
    rw [before, ← same, ← after, result, count]
  simp at counts

/-- In every run without a stale test each terminated process is reaped once, the free list holds
    exactly the FREE PCBs, process_count the others, and Exec hands out only FREE pids; a stale
    test always breaks this. -/
theorem children_reaped_once (ops : FileOps Obj Dev)
    (reach : ((procSystem Task ops).restrict FreshTest).Reach s) :
    ReapedOnce s.kernel.tree s.incarnation s.reaps ∧
    TableExact s.kernel.tree s.kernel.pcbFreelist s.kernel.processCount ∧
    (∀ cur call argl args new k', sysExec s.kernel cur call argl args = (some new,k') →
      (s.kernel.PT new).pstate = .free) ∧
    ∀ a s', ProcEnabled s a → ¬ FreshTest s a → procExec ops s a = some s' →
      ¬ TableExact s'.kernel.tree s'.kernel.pcbFreelist s'.kernel.processCount := by
  have inv := fresh_reach_inv ops reach
  refine ⟨inv.reaped,inv.ok.table,?_,?_⟩
  · intro cur call argl args new k' exec
    cases head : s.kernel.pcbFreelist with
    | none => simp [exec_full head] at exec
    | some h =>
      obtain ⟨_,exec',_⟩ := exec_spec head cur call argl args
      obtain rfl : h = new := by simpa using congrArg Prod.fst (exec'.symm.trans exec)
      exact head_unused inv.ok head
  · intro a s' _ stale run
    cases a with
    | resume t =>
      simp only [FreshTest, not_forall, not_not] at stale
      obtain ⟨c,call,unused⟩ := stale
      exact stale_test_breaks ops inv.ok.table call unused run
    | exec | createThread | waitChild | exit | threadExit => exact absurd trivial stale

/- A thread of init waits for process 2, which exits. -/
def oneWaiterRun : List (ProcAction Unit) :=
  [.exec (1,0) (some ()) 0 none,.waitChild (1,0) 2,.exit (2,0) 5,.resume (1,0)]

theorem children_reaped_once_one_waiter :
    ∃ s, ((procSystem Unit bareOps).restrict FreshTest).Reach s ∧ s.reaps.length = 1 ∧
      ReapedOnce s.kernel.tree s.incarnation s.reaps := by
  have reach := runs_reach
    (.cons ⟨⟨by decide,by decide⟩,rfl⟩ (.cons ⟨⟨by decide,by decide⟩,rfl⟩
      (.cons ⟨⟨by decide,by decide⟩,rfl⟩ (.cons ⟨⟨by decide,by decide⟩,rfl⟩ (.nil _)))) :
        ((procSystem Unit bareOps).restrict FreshTest).Runs
          (booted (initializeFiles () ()) () 0 none) oneWaiterRun _)
    (.start ⟨_,_,_,_,rfl⟩)
  exact ⟨_,reach,rfl,(children_reaped_once bareOps reach).1⟩

/- Two threads of init wait for process 2. -/
def twoWaitersRun : List (ProcAction Unit) :=
  [.exec (1,0) (some ()) 0 none,.createThread (1,0) 1,.waitChild (1,0) 2,.waitChild (1,1) 2,
   .exit (2,0) 5,.resume (1,0),.resume (1,1)]

/-- Both waiters clean up the one child, whose PCB then is linked to itself. -/
theorem child_reaped_twice :
    ∃ s, (procSystem Unit bareOps).Reach s ∧
      s.reaps.countP (fun r => r.pid = 2 ∧ r.incarnation = 1) = 2 ∧
      ¬ ReapedOnce s.kernel.tree s.incarnation s.reaps ∧
      ∀ xs, ¬ FreeList.Chain (fun p => (s.kernel.tree p).parent) s.kernel.pcbFreelist xs := by
  have reach := play_reach (m := procSystem Unit bareOps)
    ⟨initializeFiles () (),(),0,none,rfl⟩ twoWaitersRun rfl
  refine ⟨_,reach,rfl,fun once => ?_,fun xs => ?_⟩
  · exact absurd (once 2 1) (by decide)
  · exact FreeList.self_link_no_chain (a := 2) rfl

end KernelProc
