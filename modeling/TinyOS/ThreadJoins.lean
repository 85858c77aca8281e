import TinyOS.ThreadLife

/- What ThreadJoin returns: a joiner that was blocked when the thread exited or was detached is
   woken, and whatever happens until it runs on, it returns what was decided then. -/
namespace KernelThreads
open KernelStreams KernelProc Monitor Transition
variable {Task Obj Dev : Type} {s s' : ThreadRun Task Obj Dev} {p : Pid} {t : Thread}
  {r u : PtcbRef} {out : Bool}

theorem keeps_same (threads : Threads Task) (u : PtcbRef) :
    ∃ t, t ≠ u ∧ Keeps threads threads t := ⟨u + 1,Nat.succ_ne_self u,.refl _ _⟩

/-- A change to the threads of one process, as the others see it. -/
theorem keeps_update {procs : Pid → Threads Task} {q : Pid} {threads : Threads Task}
    (keeps : q = p → ∃ t, t ≠ u ∧ Keeps (procs p) threads t) :
    ∃ t, t ≠ u ∧ Keeps (procs p) (Function.update procs q threads p) t := by
  by_cases same : p = q
  · subst same
    rw [Function.update_self]
    exact keeps rfl
  · rw [Function.update_of_ne same]
    exact keeps_same _ _

theorem exit_threads (inv : ThreadInv s) (idle : s.Idle t) (last : Bool)
    (agrees : last = true ↔ (live (s.procs t.1)).erase t.2 = ∅) (exitval : Int) :
    Keeps (s.procs t.1) (exitPTCB (s.procs t.1) t.2 exitval last) t.2 := by
  obtain ⟨member,call⟩ := idle_live inv idle
  exact (exit_spec (inv.linked.ptcbs t.1) member call exitval last agrees).2.1

/-- What the exit of t does to the PTCBs of its process. -/
theorem exit_procs (ops : FileOps Obj Dev) (inv : ThreadInv s) {a : ThreadAction Task Obj}
    {exitval : Int} (is : a = .threadExit t exitval ∨ a = .exit t exitval)
    (enabled : ThreadEnabled s a) (run : threadExec ops s a = some s') :
    ∃ last, (last = true ↔ (live (s.procs t.1)).erase t.2 = ∅) ∧
      s'.procs = Function.update s.procs t.1 (exitPTCB (s.procs t.1) t.2 exitval last) := by
  rcases is with rfl | rfl
  · simp only [threadExec, exitThread, Option.map_eq_some_iff] at run
    obtain ⟨k',_,rfl⟩ := run
    exact ⟨_,last_agrees inv.linked enabled.1.1,rfl⟩
  · have system := files_halted inv _ enabled
    have inv' := (set_exitval_inv inv system t.1 exitval).1
    have idle := set_exitval_idle enabled.1 t.1 exitval
    simp only [threadExec, exitThread, Option.map_eq_some_iff] at run
    obtain ⟨k',_,rfl⟩ := run
    exact ⟨_,last_agrees inv'.linked idle.1.1,rfl⟩

/-- The calls of other threads leave a joiner where it is, and keep what it is to return. -/
theorem step_keeps (ops : FileOps Obj Dev) (inv : ThreadInv s) {a : ThreadAction Task Obj}
    (enabled : ThreadEnabled s a) (run : threadExec ops s a = some s')
    (inside : (s.procs p).calls u = some (r,out)) (other : a ≠ .resume (p,u)) :
    ∃ t, t ≠ u ∧ Keeps (s.procs p) (s'.procs p) t := by
  have system := files_halted inv a enabled
  have files := system.1
  have idle {v : Thread} (idle : s.Idle v) (same : v.1 = p) : v.2 ≠ u := by
    rintro rfl
    subst same
    rw [idle.2.2] at inside
    cases inside
  cases a with
  | start t =>
    cases run
    refine keeps_update (fun same => ?_)
    subst same
    have ok := inv.linked.ptcbs t.1
    have member := ok.kept t.2 ((inv.linked.threads t.1 t.2).mp enabled.1)
    simp only [threadExe, use_eq (listed_unfreed ok member).2]
    exact ⟨u + 1,Nat.succ_ne_self u,keeps_flags (fun _ _ => rfl) rfl rfl (fun _ => ⟨rfl,rfl⟩)⟩
  | exec t call argl args =>
    cases head : s.kernel.pcbFreelist with
    | none =>
      simp only [threadExec, exec_full head, Option.some.injEq] at run
      cases run
      exact keeps_same _ _
    | some new =>
      obtain ⟨k',exec,_⟩ := exec_spec head t.1 call argl args
      simp only [threadExec, exec, Option.some.injEq] at run
      cases run
      refine keeps_update (fun same => ?_)
      subst same
      have unused : (s.kernel.PT new).pstate = .free := head_unused files.ok head
      have member := (inv.linked.threads new u).mpr ((inv.linked.ptcbs new).calls u r out inside).1
      have alive : (s.kernel.PT new).pstate = .alive := running_alive files.ok member
      rw [alive] at unused
      cases unused
  | createThread t task argl args =>
    have made := create_spec (inv.linked.ptcbs t.1)
      ((inv.linked.threads t.1 t.2).mp enabled.1.1) task argl args
    cases run
    exact keeps_update (fun same => ⟨t.2,idle enabled same,same ▸ made.2.1⟩)
  | join t tid out =>
    cases run
    have joined := join_ok inv enabled tid out
    exact keeps_update (fun same => ⟨t.2,idle enabled same,same ▸ joined.keeps⟩)
  | resume t =>
    obtain ⟨r',out',threads,_,_,run',joined⟩ := resume_spec (inv.linked.ptcbs t.1) enabled
    simp only [threadExec, run', Option.map_some, Option.some.injEq] at run
    cases run
    refine keeps_update (fun same => ⟨t.2,?_,same ▸ joined.keeps⟩)
    rintro rfl
    exact other (by rw [← same])
  | detach t tid =>
    cases run
    have joined := detach_ok (inv.linked.ptcbs t.1) tid t.2
    exact keeps_update (fun same => ⟨t.2,idle enabled same,same ▸ joined.keeps⟩)
  | threadExit t exitval =>
    obtain ⟨last,agrees,procs⟩ := exit_procs ops inv (Or.inl rfl) enabled run
    rw [procs]
    exact keeps_update (fun same => ⟨t.2,idle enabled same,
      same ▸ exit_threads inv enabled last agrees exitval⟩)
  | exit t exitval =>
    obtain ⟨last,agrees,procs⟩ := exit_procs ops inv (Or.inr rfl) enabled run
    rw [procs]
    exact keeps_update (fun same => ⟨t.2,idle enabled.1 same,
      same ▸ exit_threads inv enabled.1 last agrees exitval⟩)
  | files a =>
    simp only [threadExec, Option.map_eq_some_iff] at run
    obtain ⟨f',_,rfl⟩ := run
    exact keeps_same _ _

/-- What a joiner that is to return finds in the PTCB of the thread. -/
structure Settled (s : Threads Task) (u r : PtcbRef) (out : Bool) (detached : Bool)
    (passed : Option Int) : Prop where
  inside : s.calls u = some (r,out)
  decided : (s.ptcbs r).exited = true ∨ detached = true
  flag : (s.ptcbs r).detached = detached
  value : detached = false → s.passed r = passed

/-- The whole run until the joiner goes on. -/
theorem run_settled (ops : FileOps Obj Dev) {detached : Bool} {passed : Option Int}
    {as : List (ThreadAction Task Obj)} (runs : (threadSystem Task ops).Runs s as s')
    (reach : (threadSystem Task ops).Reach s) (settled : Settled (s.procs p) u r out detached passed)
    (other : .resume (p,u) ∉ as) : Settled (s'.procs p) u r out detached passed := by
  induction runs with
  | nil s => exact settled
  | @cons s s₁ s₂ a as move rest ih =>
    have inv := thread_reach_inv ops reach
    rw [List.mem_cons, not_or] at other
    obtain ⟨t,apart,keeps⟩ := step_keeps ops inv move.1 move.2 settled.inside (Ne.symm other.1)
    have below := (listed_unfreed (inv.linked.ptcbs p)
      ((inv.linked.ptcbs p).calls u r out settled.inside).2).1
    refine ih (.step reach move) ⟨?_,?_,?_,?_⟩ other.2
    · rw [keeps.calls u (Ne.symm apart)]
      exact settled.inside
    · exact settled.decided.imp (fun exited => (keeps.exited r below exited).1) id
    · cases detached with
      | false =>
        have exited := settled.decided.resolve_right Bool.false_ne_true
        exact (keeps.exited r below exited).2.1.trans settled.flag
      | true => exact keeps.detached r below settled.flag
    · intro undetached
      have exited := settled.decided.resolve_right (by simp [undetached])
      exact (keeps.exited r below exited).2.2.trans (settled.value undetached)

/-- A joiner that is to return has been woken, and returns what was decided. -/
theorem settled_result (inv : ThreadInv s) {detached : Bool} {passed : Option Int}
    (settled : Settled (s.procs p) u r out detached passed) :
    ThreadEnabled s (.resume (p,u)) ∧ (resumeJoin (s.procs p) u).map Prod.fst =
      some (if detached then .returns (-1) none else .returns 0 (if out then passed else none)) := by
  have ok := inv.linked.ptcbs p
  have woken : ((s.procs p).waits.woken u).isSome := by
    rcases ok.inside u r out (by simp) settled.inside with asleep | woken
    · obtain ⟨_,running,joinable⟩ := ok.asleep r u asleep
      rcases settled.decided with exited | detached'
      · rw [running] at exited
        cases exited
      · rw [← settled.flag, joinable] at detached'
        cases detached'
    · exact woken.1
  obtain ⟨r',out',threads,inside,over',run,_⟩ := resume_spec ok woken
  cases inside.symm.trans settled.inside
  refine ⟨woken,?_⟩
  rw [run]
  have below := (listed_unfreed ok (ok.calls u r out inside).2).1
  simp only [Option.map_some, verdict, Option.some.injEq, settled.flag]
  cases detached with
  | true => simp
  | false =>
    have exited := settled.decided.resolve_right Bool.false_ne_true
    have value := (ok.passed r below exited).symm.trans (settled.value rfl)
    cases out with
    | false => simp [exited]
    | true => simp [exited, value]

/-- The exit of a thread decides what those that are joining it return. -/
theorem exit_settles (ops : FileOps Obj Dev) (inv : ThreadInv s) {a : ThreadAction Task Obj}
    {exitval : Int} (is : a = .threadExit (p,r) exitval ∨ a = .exit (p,r) exitval)
    (enabled : ThreadEnabled s a) (run : threadExec ops s a = some s')
    (inside : (s.procs p).calls u = some (r,out)) :
    Settled (s'.procs p) u r out ((s.procs p).ptcbs r).detached (some exitval) := by
  have idle : s.Idle (p,r) := by
    rcases is with rfl | rfl
    · exact enabled
    · exact enabled.1
  obtain ⟨member,call⟩ := idle_live inv idle
  obtain ⟨last,agrees,procs⟩ := exit_procs ops inv is enabled run
  obtain ⟨_,keeps,_,exited,flag,value⟩ :=
    exit_spec (inv.linked.ptcbs p) member call exitval last agrees
  have apart : u ≠ r := by
    rintro rfl
    rw [call] at inside
    cases inside
  have mine : s'.procs p = exitPTCB (s.procs p) r exitval last := by
    rw [procs, Function.update_self]
  rw [mine]
  exact ⟨(keeps.calls u apart).trans inside,Or.inl exited,flag,fun _ => value⟩

theorem verdict_zero {b : PTCB Task} {exitval : Option Int}
    (zero : verdict b out = .returns 0 exitval) : b.exited = true := by
  unfold verdict at zero
  split at zero
  · cases zero
  · split at zero
    · cases zero
    · simp_all

/-- ThreadJoin. A joiner that was blocked when the thread exited returns 0 and the value that the
    thread passed, and -1 if the thread was detached, however it is interleaved with other calls;
    nobody is blocked on an exited or detached thread, 0 is not returned before the exit, and a
    call on the caller itself, on a detached thread or on no thread of the process is refused. -/
theorem join_delivers (ops : FileOps Obj Dev) (reach : (threadSystem Task ops).Reach s) (p : Pid) :
    (∀ r exitval a s₁, (a = .threadExit (p,r) exitval ∨ a = .exit (p,r) exitval) →
      (threadSystem Task ops).Step s a s₁ → ∀ u out, (s.procs p).calls u = some (r,out) →
      ∀ as s₂, (threadSystem Task ops).Runs s₁ as s₂ → .resume (p,u) ∉ as →
        ThreadEnabled s₂ (.resume (p,u)) ∧ (resumeJoin (s₂.procs p) u).map Prod.fst =
          some (if ((s.procs p).ptcbs r).detached then .returns (-1) none
            else .returns 0 (if out then some exitval else none))) ∧
    (∀ u r out, (s.procs p).calls u = some (r,out) → ((s.procs p).ptcbs r).detached = true →
      ∀ as s₂, (threadSystem Task ops).Runs s as s₂ → .resume (p,u) ∉ as →
        ThreadEnabled s₂ (.resume (p,u)) ∧
          (resumeJoin (s₂.procs p) u).map Prod.fst = some (.returns (-1) none)) ∧
    (∀ u r, u ∈ (s.procs p).waits.asleep r →
      ((s.procs p).ptcbs r).exited = false ∧ ((s.procs p).ptcbs r).detached = false) ∧
    (∀ u tid out exitval, s.Idle (p,u) →
      (sysThreadJoin (s.procs p) u tid out).1 = .returns 0 exitval →
      ∃ r, tid = some r ∧ ((s.procs p).ptcbs r).exited = true) ∧
    (∀ u exitval threads, ThreadEnabled s (.resume (p,u)) →
      resumeJoin (s.procs p) u = some (.returns 0 exitval,threads) →
      ∃ r out, (s.procs p).calls u = some (r,out) ∧ ((s.procs p).ptcbs r).exited = true) ∧
    ∀ u tid out, Refused (s.procs p) u tid →
      sysThreadJoin (s.procs p) u tid out = (.returns (-1) none,s.procs p) := by
  have inv := thread_reach_inv ops reach
  have ok := inv.linked.ptcbs p
  refine ⟨?_,?_,fun u r asleep => (ok.asleep r u asleep).2,?_,?_,fun u tid out refused =>
    join_refused ok refused out⟩
  · intro r exitval a s₁ is move u out inside as s₂ runs other
    have settled := exit_settles ops inv is move.1 move.2 inside
    have after := run_settled ops runs (.step reach move) settled other
    exact settled_result (thread_reach_inv ops (runs_reach runs (.step reach move))) after
  · intro u r out inside detached as s₂ runs other
    have settled : Settled (s.procs p) u r out true none :=
      ⟨inside,Or.inr rfl,detached,fun no => by cases no⟩
    have after := run_settled ops runs reach settled other
    exact settled_result (thread_reach_inv ops (runs_reach runs reach)) after
  · intro u tid out exitval idle zero
    by_cases refused : Refused (s.procs p) u tid
    · rw [join_refused ok refused] at zero
      cases zero
    · simp only [Refused, not_forall, not_or, Bool.not_eq_true, not_not] at refused
      obtain ⟨r,rfl,listed,apart,joinable⟩ := refused
      obtain ⟨member,free⟩ := idle_live inv idle
      rw [(join_spec ok member free listed apart joinable out).1] at zero
      exact ⟨r,rfl,verdict_zero zero⟩
  · intro u exitval threads enabled zero
    obtain ⟨r,out,_,inside,_,run,_⟩ := resume_spec ok enabled
    rw [run, Option.some.injEq, Prod.mk.injEq] at zero
    exact ⟨r,out,inside,verdict_zero zero.1⟩

/- Two threads join a third one. -/
def twoJoinersRun : List (ThreadAction Unit Unit) :=
  [.createThread (initpcb,0) () 0 none, .createThread (initpcb,0) () 0 none, .start (initpcb,1),
    .start (initpcb,2), .join (initpcb,0) (some 2) true, .join (initpcb,1) (some 2) true]

def twoJoiners : ThreadRun Unit Unit Unit :=
  ((threadSystem Unit bareOps).play (bootedThreads () () idleMemory () 0 none) twoJoinersRun).get rfl

theorem join_delivers_two_joiners : ∃ s₁, (threadSystem Unit bareOps).Reach twoJoiners ∧
    (threadSystem Unit bareOps).Step twoJoiners (.threadExit (initpcb,2) 7) s₁ ∧
    (resumeJoin (s₁.procs initpcb) 0).map Prod.fst = some (.returns 0 (some 7)) ∧
    (resumeJoin (s₁.procs initpcb) 1).map Prod.fst = some (.returns 0 (some 7)) := by
  have reach : (threadSystem Unit bareOps).Reach twoJoiners :=
    play_reach ⟨(),(),idleMemory,(),0,none,rfl⟩ twoJoinersRun rfl
  have enabled : ThreadEnabled twoJoiners (.threadExit (initpcb,2) 7) := by decide
  obtain ⟨s₁,run⟩ : ∃ s₁, threadExec bareOps twoJoiners (.threadExit (initpcb,2) 7) = some s₁ :=
    ⟨_,rfl⟩
  have delivers := (join_delivers bareOps reach initpcb).1 2 7 _ s₁ (Or.inl rfl) ⟨enabled,run⟩
  exact ⟨s₁,reach,⟨enabled,run⟩,(delivers 0 true rfl [] _ (.nil _) List.not_mem_nil).2,
    (delivers 1 true rfl [] _ (.nil _) List.not_mem_nil).2⟩

end KernelThreads
