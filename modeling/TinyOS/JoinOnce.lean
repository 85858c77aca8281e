import TinyOS.ThreadJoins

/- How often a thread can be joined. A PTCB leaves ptcb_list when its last reference is given up;
   until then ThreadJoin succeeds on it again. -/
namespace KernelThreads
open KernelStreams KernelProc Monitor Transition
variable {Task Obj Dev : Type} {s s' : ThreadRun Task Obj Dev} {p : Pid} {t : Thread}

/- The ThreadJoin that a step begins or goes on with: the process, the tid and what it comes to. -/
def joinResult (s : ThreadRun Task Obj Dev) :
    ThreadAction Task Obj → Option (Pid × PtcbRef × JoinResult)
  | .join t (some r) out => some (t.1, r, (sysThreadJoin (s.procs t.1) t.2 (some r) out).1)
  | .resume t => do
    let (r, _) ← (s.procs t.1).calls t.2
    let (result, _) ← resumeJoin (s.procs t.1) t.2
    some (t.1, r, result)
  | _ => none

/- The pid is given to a new process. -/
def GivesPid (s : ThreadRun Task Obj Dev) (p : Pid) : ThreadAction Task Obj → Prop
  | .exec t call argl args => (sysExec s.kernel t.1 call argl args).1 = some p
  | _ => False

section Sections
variable {threads after : Threads Task} {u r : PtcbRef} {out : Bool}

/-- What a section of ThreadJoin on r leaves of ptcb_list. -/
structure Drops (threads after : Threads Task) (r : PtcbRef) : Prop where
  others : ∀ v, v ≠ r → (v ∈ after.ptcbList ↔ v ∈ threads.ptcbList) ∧
    (after.ptcbs v).refcount = (threads.ptcbs v).refcount
  needed : (threads.ptcbs r).exited = true → (threads.ptcbs r).detached = false →
    r ∈ after.ptcbList → (after.ptcbs r).refcount ≠ 0
  main : 0 ∈ threads.ptcbList → 0 ∈ after.ptcbList

theorem join_loop_drops (ok : PtcbOk threads (some u)) (inside : threads.calls u = some (r,out)) :
    Drops threads (joinLoop threads u r out).2 r := by
  obtain ⟨below,unfreed⟩ := listed_unfreed ok (ok.calls u r out inside).2
  have left := loop_leaves_ok ok inside
  set rest : Threads Task :=
    { threads.addRef r (-1) with calls := Function.update threads.calls u none } with made
  have apart (v : PtcbRef) (other : v ≠ r) : rest.ptcbs v = threads.ptcbs v := by
    simp [made, Threads.addRef, Threads.setPTCB, other]
  have list : rest.ptcbList = threads.ptcbList := rfl
  by_cases asleep : (threads.ptcbs r).exited = false ∧ (threads.ptcbs r).detached = false
  · have run : (joinLoop threads u r out).2.ptcbList = threads.ptcbList ∧
        (joinLoop threads u r out).2.ptcbs = threads.ptcbs := by
      simp only [joinLoop, use_eq unfreed, if_pos asleep, and_self]
    refine ⟨fun v _ => ?_,fun exited => ?_,fun main => run.1.symm ▸ main⟩
    · rw [run.1, run.2]
      exact ⟨Iff.rfl,rfl⟩
    · rw [asleep.1] at exited
      cases exited
  · by_cases detached : (threads.ptcbs r).detached = true
    · have run : (joinLoop threads u r out).2 = rest := by
        simp only [joinLoop, use_eq unfreed, if_neg asleep, if_pos detached]
        rfl
      rw [run]
      refine ⟨fun v other => ⟨Iff.rfl,by rw [apart v other]⟩,fun _ joinable => ?_,fun main => main⟩
      rw [detached] at joinable
      cases joinable
    · by_cases unused : (rest.ptcbs r).refcount = 0
      · have run : (joinLoop threads u r out).2 =
            { rest with ptcbList := rest.ptcbList.erase r }.free r := by
          simp only [joinLoop, use_eq unfreed, if_neg asleep, if_neg detached]
          rw [if_pos unused]
        have erased (v : PtcbRef) : v ∈ rest.ptcbList.erase r ↔ v ≠ r ∧ v ∈ threads.ptcbList :=
          ok.nodup.mem_erase_iff
        rw [run]
        refine ⟨fun v other => ⟨(erased v).trans (and_iff_right other),by
          change (rest.ptcbs v).refcount = _
          rw [apart v other]⟩,fun _ _ here => absurd rfl ((erased r).mp here).1,fun main => ?_⟩
        refine (erased 0).mpr ⟨?_,main⟩
        -- the reference of the main thread that nobody gives up
        rintro rfl
        have count := left.refcount 0 main
        rw [unused, if_pos rfl] at count
        split at count <;> omega
      · have run : (joinLoop threads u r out).2 = rest := by
          simp only [joinLoop, use_eq unfreed, if_neg asleep, if_neg detached]
          rw [if_neg unused]
        rw [run]
        exact ⟨fun v other => ⟨Iff.rfl,by rw [apart v other]⟩,fun _ _ _ => unused,fun main => main⟩

theorem drops_same (none : (threads.ptcbs r).detached = true ∨ r ∉ threads.ptcbList) :
    Drops threads threads r := by
  refine ⟨fun _ _ => ⟨Iff.rfl,rfl⟩,fun _ joinable here => ?_,fun main => main⟩
  rcases none with detached | outside
  · rw [detached] at joinable
    cases joinable
  · exact absurd here outside

theorem join_drops (ok : PtcbOk threads none) (member : u ∈ live threads)
    (idle : threads.calls u = none) (apart : r ≠ u) (out : Bool) :
    Drops threads (sysThreadJoin threads u (some r) out).2 r := by
  by_cases refused : r ∉ threads.ptcbList ∨ (threads.ptcbs r).detached = true
  · have refused' : Refused threads u (some r) := by
      rintro v same
      cases same
      exact refused.imp id Or.inr
    rw [join_refused ok refused']
    exact drops_same refused.symm
  · simp only [not_or, not_not, Bool.not_eq_true] at refused
    obtain ⟨listed,joinable⟩ := refused
    have run : sysThreadJoin threads u (some r) out = joinLoop (threads.addRef r 1) u r out := by
      simp only [sysThreadJoin, if_neg (not_not_intro listed), if_neg apart,
        use_eq (listed_unfreed ok listed).2, joinable]
      rfl
    have entered := join_enter_ok ok member idle listed out
    have drops := join_loop_drops entered (Function.update_self ..)
    have free := join_loop_calls (threads.addRef r 1) u r out (some (r,out))
    rw [run, ← free]
    have flags := add_ref_flags threads r 1 r
    refine ⟨fun v other => ⟨(drops.others v other).1,(drops.others v other).2.trans ?_⟩,
      fun exited joinable => drops.needed (flags.1.trans exited) (flags.2.1.trans joinable),
      drops.main⟩
    simp [Threads.addRef, Threads.setPTCB, other]

theorem resume_drops (ok : PtcbOk threads none) {result : JoinResult}
    (run : resumeJoin threads u = some (result,after)) (woken : (threads.waits.woken u).isSome) :
    ∃ r out, threads.calls u = some (r,out) ∧ Drops threads after r := by
  obtain ⟨⟨r,out⟩,inside⟩ := Option.isSome_iff_exists.mp (ok.woken u woken)
  have drops := join_loop_drops (resume_ok ok woken) inside
  simp only [resumeJoin, inside, Option.some.injEq] at run
  rw [run] at drops
  exact ⟨r,out,inside,drops.others,drops.needed,drops.main⟩

/-- The exit of u leaves the other PTCBs alone, or empties ptcb_list. -/
theorem exit_list (ok : PtcbOk threads none) (member : u ∈ live threads) (exitval : Int)
    (last : Bool) :
    ((exitPTCB threads u exitval last).ptcbList = if last then [] else threads.ptcbList) ∧
    ∀ v, v ≠ u → (exitPTCB threads u exitval last).ptcbs v = threads.ptcbs v := by
  rw [exit_eq (listed_unfreed ok (ok.kept u member)).2]
  cases last with
  | false => exact ⟨rfl,fun v apart => by simp [afterExit, apart]⟩
  | true =>
    simp only [if_true, free_all_eq, true_and]
    exact fun v apart => by simp [afterExit, apart]

/-- Some ThreadJoin on r has returned 0. -/
structure Collected (threads : Threads Task) (r : PtcbRef) : Prop where
  below : r < threads.nextPtcb
  exited : (threads.ptcbs r).exited = true
  joinable : (threads.ptcbs r).detached = false
  needed : r ∈ threads.ptcbList → (threads.ptcbs r).refcount ≠ 0

theorem Collected.keep (collected : Collected threads r) (keeps : Keeps threads after u)
    (needed : r ∈ after.ptcbList → (after.ptcbs r).refcount ≠ 0) : Collected after r := by
  obtain ⟨exited,flag,_⟩ := keeps.exited r collected.below collected.exited
  exact ⟨Nat.lt_of_lt_of_le collected.below keeps.next,exited,flag.trans collected.joinable,needed⟩

theorem Collected.drop (collected : Collected threads r) (keeps : Keeps threads after u)
    {v : PtcbRef} (drops : Drops threads after v) : Collected after r := by
  refine collected.keep keeps (fun here => ?_)
  by_cases same : r = v
  · subst same
    exact drops.needed collected.exited collected.joinable here
  · obtain ⟨member,count⟩ := drops.others r same
    rw [count]
    exact collected.needed (member.mp here)

/-- The PTCB of the main thread stays in ptcb_list while a thread of the process runs. -/
def MainListed (threads : Threads Task) : Prop := live threads ≠ ∅ → 0 ∈ threads.ptcbList

def ListsKept (threads after : Threads Task) : Prop :=
  (∀ r, Collected threads r → Collected after r) ∧ (MainListed threads → MainListed after)

theorem lists_drop (keeps : Keeps threads after u) {v : PtcbRef} (drops : Drops threads after v)
    (alive : live after = live threads) : ListsKept threads after :=
  ⟨fun _ collected => collected.drop keeps drops,
    fun main some' => drops.main (main (alive ▸ some'))⟩

/-- A section that gives up no reference to an exited PTCB. -/
theorem lists_keep (keeps : Keeps threads after u)
    (counts : ∀ v < threads.nextPtcb, (threads.ptcbs v).exited = true →
      (v ∈ after.ptcbList → v ∈ threads.ptcbList) ∧
      (after.ptcbs v).refcount = (threads.ptcbs v).refcount)
    (main : MainListed threads → MainListed after) : ListsKept threads after := by
  refine ⟨fun r collected => collected.keep keeps (fun here => ?_),main⟩
  obtain ⟨member,count⟩ := counts r collected.below collected.exited
  rw [count]
  exact collected.needed (member here)

theorem lists_create (ok : PtcbOk threads none) (member : u ∈ live threads) (task : Task)
    (argl : Int) (args : Option (List UInt8)) :
    ListsKept threads (createPTCB threads task argl args).2 := by
  obtain ⟨_,keeps,_⟩ := create_spec ok member task argl args
  rw [create_eq] at keeps ⊢
  refine lists_keep keeps (fun v below _ => ⟨fun here => ?_,?_⟩)
    (fun main _ => List.mem_append_left _ (main (Finset.ne_empty_of_mem member)))
  · exact (List.mem_append.mp here).resolve_right
      (fun new => Nat.ne_of_lt below (List.mem_singleton.mp new))
  · simp [Nat.ne_of_lt below]

theorem lists_exit (ok : PtcbOk threads none) (member : u ∈ live threads)
    (idle : threads.calls u = none) (exitval : Int) (last : Bool)
    (agrees : last = true ↔ (live threads).erase u = ∅) :
    ListsKept threads (exitPTCB threads u exitval last) := by
  obtain ⟨_,keeps,alive,_⟩ := exit_spec ok member idle exitval last agrees
  obtain ⟨list,others⟩ := exit_list ok member exitval last
  refine lists_keep keeps (fun v _ exited => ⟨fun here => ?_,?_⟩) (fun main more => ?_)
  · rw [list] at here
    split at here
    · cases here
    · exact here
  · have apart : v ≠ u := by
      rintro rfl
      rw [(mem_live.mp member).2] at exited
      cases exited
    rw [others v apart]
  · rw [alive] at more
    rw [list, if_neg (fun final => more (agrees.mp final))]
    exact main (Finset.ne_empty_of_mem member)

theorem lists_detach (ok : PtcbOk threads none) (tid : Option PtcbRef) :
    ListsKept threads (sysThreadDetach threads tid).2 := by
  by_cases refused : ∀ r, tid = some r → r ∉ threads.ptcbList ∨ (threads.ptcbs r).exited = true
  · rw [detach_refused ok refused]
    exact ⟨fun _ => id,id⟩
  · simp only [not_forall, not_or, Bool.not_eq_true, not_not] at refused
    obtain ⟨r,rfl,listed,running⟩ := refused
    obtain ⟨after,run,_,joined⟩ := detach_spec ok listed running 0
    have same : after.ptcbList = threads.ptcbList ∧
        ∀ v, v ≠ r → after.ptcbs v = threads.ptcbs v := by
      simp only [sysThreadDetach, if_neg (not_not_intro listed),
        use_eq (listed_unfreed ok listed).2, running, Bool.false_eq_true, if_false,
        Prod.mk.injEq, true_and] at run
      rw [← run]
      exact ⟨rfl,fun v apart => by simp [Threads.setPTCB, apart]⟩
    rw [run]
    refine lists_keep joined.keeps (fun v _ exited => ⟨fun here => same.1 ▸ here,?_⟩)
      (fun main some' => same.1.symm ▸ main (joined.live ▸ some'))
    have apart : v ≠ r := by
      rintro rfl
      rw [running] at exited
      cases exited
    rw [same.2 v apart]

end Sections

theorem lists_update {procs : Pid → Threads Task} {q : Pid} {threads : Threads Task}
    (kept : q = p → ListsKept (procs p) threads) :
    ListsKept (procs p) (Function.update procs q threads p) := by
  by_cases same : p = q
  · subst same
    rw [Function.update_self]
    exact kept rfl
  · rw [Function.update_of_ne same]
    exact ⟨fun _ => id,id⟩

/-- Nothing but a new process with the same pid brings back the PTCB of a joined thread. -/
theorem step_lists (ops : FileOps Obj Dev) (inv : ThreadInv s) {a : ThreadAction Task Obj}
    (enabled : ThreadEnabled s a) (run : threadExec ops s a = some s') (old : ¬ GivesPid s p a) :
    ListsKept (s.procs p) (s'.procs p) := by
  have same : ListsKept (s.procs p) (s.procs p) := ⟨fun _ => id,id⟩
  cases a with
  | start t =>
    cases run
    refine lists_update (fun here => ?_)
    subst here
    have ok := inv.linked.ptcbs t.1
    have member := ok.kept t.2 ((inv.linked.threads t.1 t.2).mp enabled.1)
    simp only [threadExe, use_eq (listed_unfreed ok member).2]
    exact ⟨fun _ joined => ⟨joined.below,joined.exited,joined.joinable,joined.needed⟩,id⟩
  | exec t call argl args =>
    cases exec : sysExec s.kernel t.1 call argl args with
    | mk pid k =>
      cases pid with
      | none =>
        simp only [threadExec, exec, Option.some.injEq] at run
        cases run
        exact same
      | some new =>
        simp only [GivesPid, exec, Option.some.injEq] at old
        simp only [threadExec, exec, Option.some.injEq] at run
        cases run
        exact lists_update (fun here => absurd here old)
  | createThread t task argl args =>
    cases run
    refine lists_update (fun here => ?_)
    subst here
    have member := (inv.linked.threads t.1 t.2).mp enabled.1.1
    exact lists_create (inv.linked.ptcbs t.1) member task argl args
  | join t tid out =>
    cases run
    refine lists_update (fun here => ?_)
    subst here
    obtain ⟨member,free⟩ := idle_live inv enabled
    have ok := inv.linked.ptcbs t.1
    have joined := join_ok inv enabled tid out
    cases tid with
    | none => exact same
    | some r =>
      by_cases self : r = t.2
      · have refused : Refused (s.procs t.1) t.2 (some r) := by
          rintro v is
          cases is
          exact Or.inr (Or.inl self)
        rw [join_refused ok refused]
        exact same
      · exact lists_drop joined.keeps (join_drops ok member free self out) joined.live
  | resume t =>
    obtain ⟨r,out,threads,_,_,run',joined⟩ := resume_spec (inv.linked.ptcbs t.1) enabled
    simp only [threadExec, run', Option.map_some, Option.some.injEq] at run
    cases run
    refine lists_update (fun here => ?_)
    subst here
    obtain ⟨_,_,_,drops⟩ := resume_drops (inv.linked.ptcbs t.1) run' enabled
    exact lists_drop joined.keeps drops joined.live
  | detach t tid =>
    cases run
    exact lists_update (fun here => here ▸ lists_detach (inv.linked.ptcbs t.1) tid)
  | threadExit t exitval =>
    obtain ⟨last,agrees,procs⟩ := exit_procs ops inv (Or.inl rfl) enabled run
    obtain ⟨member,free⟩ := idle_live inv enabled
    rw [procs]
    exact lists_update (fun here => here ▸
      lists_exit (inv.linked.ptcbs t.1) member free exitval last agrees)
  | exit t exitval =>
    obtain ⟨last,agrees,procs⟩ := exit_procs ops inv (Or.inr rfl) enabled run
    obtain ⟨member,free⟩ := idle_live inv enabled.1
    rw [procs]
    exact lists_update (fun here => here ▸
      lists_exit (inv.linked.ptcbs t.1) member free exitval last agrees)
  | files a =>
    simp only [threadExec, Option.map_eq_some_iff] at run
    obtain ⟨f',_,rfl⟩ := run
    exact same

theorem main_made (threads : Threads Task) (list : threads.ptcbList = []) (call : Option Task)
    (argl : Int) (args : Option (List UInt8)) :
    MainListed (execThreads threads call argl args) := by
  obtain ⟨ok,first⟩ := exec_threads_spec threads list call argl args
  intro some'
  obtain ⟨t,member⟩ := Finset.nonempty_iff_ne_empty.mpr some'
  have zero := ((first t).mp member).2
  exact zero ▸ ok.kept t member

theorem main_listed (ops : FileOps Obj Dev) (reach : (threadSystem Task ops).Reach s) (p : Pid) :
    MainListed (s.procs p) := by
  induction reach with
  | start first =>
    obtain ⟨blank,device,memory,task,argl,args,rfl⟩ := first
    change MainListed (Function.update (fun _ => noThreads memory) initpcb
      (execThreads (noThreads memory) (some task) argl args) p)
    by_cases init : p = initpcb
    · rw [init, Function.update_self]
      exact main_made (noThreads memory) rfl (some task) argl args
    · rw [Function.update_of_ne init]
      exact fun some' => absurd (renew_live (noThreads memory)) some'
  | @step s s' a before move ih =>
    have inv := thread_reach_inv ops before
    by_cases new : GivesPid s p a
    · cases a with
      | exec t call argl args =>
        have ok := (files_halted inv (.exec t call argl args) move.1).1.ok
        cases head : s.kernel.pcbFreelist with
        | none => simp [GivesPid, exec_full head] at new
        | some h =>
          obtain ⟨k,exec,_⟩ := exec_spec head t.1 call argl args
          simp only [GivesPid, exec, Option.some.injEq] at new
          subst new
          have run := move.2
          simp only [threadSystem, threadExec, exec, Option.some.injEq] at run
          have unused : (s.kernel.PT h).pstate = .free := head_unused ok head
          have list := (dead_list (p := h) inv.linked ok (by rw [unused]; decide)).2
          rw [← run, set_threads_procs, if_pos rfl]
          exact main_made (s.procs h) list call argl args
      | start | createThread | join | resume | detach | threadExit | exit | files => exact new.elim
    · exact (step_lists ops inv move.1 move.2 new).2 ih

theorem run_collected (ops : FileOps Obj Dev) {as : List (ThreadAction Task Obj)} {r : PtcbRef}
    (runs : ((threadSystem Task ops).restrict fun s a => ¬ GivesPid s p a).Runs s as s')
    (reach : (threadSystem Task ops).Reach s) (collected : Collected (s.procs p) r) :
    (threadSystem Task ops).Reach s' ∧ Collected (s'.procs p) r := by
  induction runs with
  | nil s => exact ⟨reach,collected⟩
  | cons move rest ih =>
    obtain ⟨step,old⟩ := restrict_step move
    have kept := (step_lists ops (thread_reach_inv ops reach) step.1 step.2 old).1 _ collected
    exact ih (.step reach step) kept

theorem verdict_joined {b : PTCB Task} {out : Bool} {exitval : Option Int}
    (zero : verdict b out = .returns 0 exitval) : b.exited = true ∧ b.detached = false := by
  refine ⟨verdict_zero zero,?_⟩
  by_contra detached
  rw [Bool.not_eq_false] at detached
  simp [verdict, detached] at zero

/-- A ThreadJoin that returns 0 has joined the thread. -/
theorem joined_collected (ops : FileOps Obj Dev) (inv : ThreadInv s) {a : ThreadAction Task Obj}
    (move : (threadSystem Task ops).Step s a s') {r : PtcbRef} {exitval : Option Int}
    (joined : joinResult s a = some (p,r,.returns 0 exitval)) : Collected (s'.procs p) r := by
  have collect {u : PtcbRef} {threads : Threads Task} (section' : Joined (s.procs p) threads u)
      (drops : Drops (s.procs p) threads r) (listed : r ∈ (s.procs p).ptcbList) {out : Bool}
      (zero : verdict ((s.procs p).ptcbs r) out = .returns 0 exitval) : Collected threads r := by
    obtain ⟨exited,joinable⟩ := verdict_joined zero
    have below := (listed_unfreed (inv.linked.ptcbs p) listed).1
    obtain ⟨exited',flag,_⟩ := section'.keeps.exited r below exited
    exact ⟨Nat.lt_of_lt_of_le below section'.keeps.next,exited',flag.trans joinable,
      drops.needed exited joinable⟩
  have run := move.2
  cases a with
  | join t tid out =>
    cases tid with
    | none => cases joined
    | some v =>
      simp only [joinResult, Option.some.injEq, Prod.mk.injEq] at joined
      obtain ⟨rfl,rfl,zero⟩ := joined
      cases run
      have ok := inv.linked.ptcbs t.1
      obtain ⟨member,free⟩ := idle_live inv move.1
      by_cases refused : Refused (s.procs t.1) t.2 (some v)
      · rw [join_refused ok refused] at zero
        cases zero
      · simp only [Refused, not_forall, not_or, Bool.not_eq_true, not_not] at refused
        obtain ⟨r,same,listed,apart,joinable⟩ := refused
        cases same
        obtain ⟨result,section'⟩ := join_spec ok member free listed apart joinable out
        rw [set_threads_procs, if_pos rfl]
        exact collect section' (join_drops ok member free apart out) listed (result.symm.trans zero)
  | resume t =>
    obtain ⟨v,out,threads,inside,_,run',section'⟩ := resume_spec (inv.linked.ptcbs t.1) move.1
    simp only [joinResult, inside, run', Option.bind_eq_bind, Option.bind_some, Option.some.injEq,
      Prod.mk.injEq] at joined
    obtain ⟨rfl,rfl,zero⟩ := joined
    simp only [threadSystem, threadExec, run', Option.map_some, Option.some.injEq] at run
    obtain ⟨_,_,inside',drops⟩ := resume_drops (inv.linked.ptcbs t.1) run' move.1
    cases inside.symm.trans inside'
    rw [← run, set_threads_procs, if_pos rfl]
    exact collect section' drops ((inv.linked.ptcbs t.1).calls t.2 _ out inside).2 zero
  | start | exec | createThread | detach | threadExit | exit | files => cases joined

/-- After a ThreadJoin has returned 0, a further one on the same tid is refused if and only if the
    thread is not the main thread and nobody is inside ThreadJoin on it any more. -/
theorem join_only_once (ops : FileOps Obj Dev) (reach : (threadSystem Task ops).Reach s)
    {a : ThreadAction Task Obj} {s₁ s₂ : ThreadRun Task Obj Dev} {r : PtcbRef}
    {exitval : Option Int} (move : (threadSystem Task ops).Step s a s₁)
    (joined : joinResult s a = some (p,r,.returns 0 exitval)) {as : List (ThreadAction Task Obj)}
    (runs : ((threadSystem Task ops).restrict fun s a => ¬ GivesPid s p a).Runs s₁ as s₂)
    {u : PtcbRef} (idle : s₂.Idle (p,u)) (out : Bool) :
    (sysThreadJoin (s₂.procs p) u (some r) out).1 = .returns (-1) none ↔
      r ≠ 0 ∧ joiners (s₂.procs p) r = ∅ := by
  have inv := thread_reach_inv ops reach
  obtain ⟨reach₂,collected⟩ := run_collected ops runs (.step reach move)
    (joined_collected ops inv move joined)
  have inv₂ := thread_reach_inv ops reach₂
  have ok := inv₂.linked.ptcbs p
  obtain ⟨member,free⟩ := idle_live inv₂ idle
  have apart : r ≠ u := by
    rintro rfl
    have running := (mem_live.mp member).2
    rw [collected.exited] at running
    cases running
  have unlisted : (sysThreadJoin (s₂.procs p) u (some r) out).1 = .returns (-1) none ↔
      r ∉ (s₂.procs p).ptcbList := by
    constructor
    · intro refused listed
      rw [(join_spec ok member free listed apart collected.joinable out).1] at refused
      simp [verdict, collected.exited, collected.joinable] at refused
    · intro outside
      simp only [sysThreadJoin, if_pos outside]
  rw [unlisted]
  constructor
  · intro outside
    refine ⟨?_,Finset.eq_empty_of_forall_notMem (fun v inside => ?_)⟩
    · rintro rfl
      exact outside (main_listed ops reach₂ p (Finset.ne_empty_of_mem member))
    · obtain ⟨_,out',call⟩ := mem_joiners.mp inside
      exact outside (ok.calls v r out' call).2
  · rintro ⟨notMain,nobody⟩ listed
    have count := ok.refcount r listed
    rw [collected.exited, if_neg notMain, nobody] at count
    exact collected.needed listed count

/- The joiner of joinedRun before it goes on. -/
def joinerWoken : ThreadRun Unit Unit Unit :=
  ((threadSystem Unit bareOps).play (bootedThreads () () idleMemory () 0 none)
    joinedRun.dropLast).get rfl

theorem join_only_once_joined : ∃ s₁, (threadSystem Unit bareOps).Step joinerWoken
    (.resume (initpcb,0)) s₁ ∧
    joinResult joinerWoken (.resume (initpcb,0)) = some (initpcb,1,.returns 0 (some 7)) ∧
    (sysThreadJoin (s₁.procs initpcb) 0 (some 1) true).1 = .returns (-1) none := by
  have reach : (threadSystem Unit bareOps).Reach joinerWoken :=
    play_reach ⟨(),(),idleMemory,(),0,none,rfl⟩ joinedRun.dropLast rfl
  have enabled : ThreadEnabled joinerWoken (.resume (initpcb,0)) := by decide
  obtain ⟨s₁,run⟩ : ∃ s₁, threadExec bareOps joinerWoken (.resume (initpcb,0)) = some s₁ :=
    ⟨_,rfl⟩
  have idle : s₁.Idle (initpcb,0) := by
    cases run
    decide
  have nobody : joiners (s₁.procs initpcb) 1 = ∅ := by
    cases run
    decide
  have move : (threadSystem Unit bareOps).Step joinerWoken (.resume (initpcb,0)) s₁ :=
    ⟨enabled,run⟩
  exact ⟨s₁,move,rfl,(join_only_once bareOps reach move rfl (.nil s₁) idle true).mpr
    ⟨by decide,nobody⟩⟩

/- The main thread of init exits before the thread that it has made. -/
def mainExitedRun : List (ThreadAction Unit Unit) :=
  [.createThread (initpcb,0) () 0 none, .start (initpcb,1), .threadExit (initpcb,0) 5]

def mainExited : ThreadRun Unit Unit Unit :=
  ((threadSystem Unit bareOps).play (bootedThreads () () idleMemory () 0 none)
    mainExitedRun).get rfl

/-- The main thread can be joined again and again. -/
theorem main_joined_twice : ∃ s₁, (threadSystem Unit bareOps).Reach mainExited ∧
    (threadSystem Unit bareOps).Step mainExited (.join (initpcb,1) (some 0) true) s₁ ∧
    joinResult mainExited (.join (initpcb,1) (some 0) true) =
      some (initpcb,0,.returns 0 (some 5)) ∧ s₁.Idle (initpcb,1) ∧
    (sysThreadJoin (s₁.procs initpcb) 1 (some 0) true).1 = .returns 0 (some 5) := by
  have reach : (threadSystem Unit bareOps).Reach mainExited :=
    play_reach ⟨(),(),idleMemory,(),0,none,rfl⟩ mainExitedRun rfl
  have enabled : ThreadEnabled mainExited (.join (initpcb,1) (some 0) true) := by decide
  obtain ⟨s₁,run⟩ :
      ∃ s₁, threadExec bareOps mainExited (.join (initpcb,1) (some 0) true) = some s₁ := ⟨_,rfl⟩
  refine ⟨s₁,reach,⟨enabled,run⟩,rfl,?_,?_⟩
  · cases run
    decide
  · cases run
    rfl

end KernelThreads
