import TinyOS.ProcessLife

/- ThreadExit, of any thread and of the last one of init: when init has no children left there is no
   other process, and then nothing is left to run. -/
namespace KernelProc
open KernelStreams
variable {Task Obj Dev : Type} {k k' : Kernel Task Obj Dev} {p cur : Pid}

/-- The last thread of init has left, and nothing is left to run. -/
structure Halted (k : Kernel Task Obj Dev) : Prop where
  threads : ∀ p, (k.PT p).threads = []
  idle : (k.PT 0).pstate = .alive
  init : (k.PT initpcb).pstate = .zombie
  others : ∀ p, 2 ≤ p.val → (k.PT p).pstate = .free

/-- What the exit of a thread makes of the tree, unless it is the last one of init. -/
theorem exit_tree (ops : FileOps Obj Dev) (ok : KernelOk k) {tid : Tid}
    (member : tid ∈ (k.PT cur).threads) (notLast : cur = initpcb → (k.PT cur).threadCount ≠ 1)
    (run : sysThreadExit ops k cur tid = some k') :
    ((k.PT cur).threadCount = 1 ∧ (k.PT cur).pstate = .alive ∧
      ∃ parent, k'.tree = (k.tree.threadLeft cur tid).exited cur parent) ∨
    ((k.PT cur).threadCount ≠ 1 ∧ k'.tree = k.tree.threadLeft cur tid) := by
  by_cases last : (k.PT cur).threadCount = 1
  · have alive := running_alive ok member
    have child : 2 ≤ cur.val := by
      have first : cur ≠ initpcb := fun same => notLast same last
      have zero : cur ≠ 0 := by
        rintro rfl
        have none : (k.PT 0).threads = [] := ok.threads.idle.2
        rw [none] at member
        cases member
      have first' : cur.val ≠ 1 := fun same => first (Fin.ext same)
      have zero' : cur.val ≠ 0 := fun same => zero (Fin.ext same)
      omega
    obtain ⟨k₂,parent,run₂,_,_,_,tree,_⟩ := last_thread_exit ops ok.wf child alive last tid
    cases run₂.symm.trans run
    exact Or.inl ⟨last,alive,parent,tree⟩
  · obtain ⟨k₂,run₂,tree,_⟩ := other_thread_exit ops last tid
    cases run₂.symm.trans run
    exact Or.inr ⟨last,tree⟩

theorem rooted_exit (ops : FileOps Obj Dev) (ok : KernelOk k) {birth : Pid → Nat}
    (rooted : Rooted k.tree birth) {tid : Tid} (member : tid ∈ (k.PT cur).threads)
    (notLast : cur = initpcb → (k.PT cur).threadCount ≠ 1)
    (run : sysThreadExit ops k cur tid = some k') : Rooted k'.tree birth := by
  have left : Rooted (k.tree.threadLeft cur tid) birth :=
    rooted_congr rooted (fun _ => Iff.rfl) (fun _ _ => rfl)
  rcases exit_tree ops ok member notLast run with ⟨_,alive,parent,tree⟩ | ⟨_,tree⟩
  · exact tree ▸ rooted_exited left alive
  · exact tree ▸ left

/-- A zombie child is a child. -/
theorem childless_unexited (wf : k.tree.WellFormed) (childless : (k.PT p).childrenList = []) :
    (k.PT p).exitedList = [] := by
  apply List.eq_nil_iff_forall_not_mem.mpr
  intro c member
  obtain ⟨child,zombie,parent⟩ := (wf.exited c p).mp member
  have inside : c ∈ (k.PT p).childrenList :=
    (wf.children c p).mpr ⟨child,by rw [zombie]; decide,parent⟩
  rw [childless] at inside
  cases inside

/-- ThreadExit of the last thread of init, with the assertions that it makes. -/
theorem init_exit_eq (ops : FileOps Obj Dev) (tid : Tid) (last : (k.PT initpcb).threadCount = 1) :
    sysThreadExit ops k initpcb tid =
      if (k.PT initpcb).childrenList = [] ∧ (k.PT initpcb).exitedList = [] then
        some (cleanupProcess ops (leaveProcess k initpcb tid) initpcb) else none := by
  have count : ((leaveProcess k initpcb tid).PT initpcb).threadCount = 0 := by
    simp [leaveProcess, last]
  have lists := congrFun (thread_left_tree k initpcb tid) initpcb
  have children : ((leaveProcess k initpcb tid).PT initpcb).childrenList =
      (k.PT initpcb).childrenList := congrArg Links.childrenList lists
  have exited : ((leaveProcess k initpcb tid).PT initpcb).exitedList =
      (k.PT initpcb).exitedList := congrArg Links.exitedList lists
  rw [sysThreadExit, if_pos count]
  simp only [exitProcess, leaveTree, ne_eq, not_true_eq_false, if_false, Option.bind_eq_bind,
    Option.bind_some, children, exited]

/-- When the last thread of init exits, no other process is left. -/
theorem init_halts (ops : FileOps Obj Dev) (ok : KernelOk k) {birth : Pid → Nat}
    (rooted : Rooted k.tree birth) {tid : Tid} (member : tid ∈ (k.PT initpcb).threads)
    (last : (k.PT initpcb).threadCount = 1) (run : sysThreadExit ops k initpcb tid = some k') :
    k' = cleanupProcess ops (leaveProcess k initpcb tid) initpcb ∧
    k'.tree = (k.tree.threadLeft initpcb tid).ended initpcb ∧ Halted k' := by
  have count : ((leaveProcess k initpcb tid).PT initpcb).threadCount = 0 := by
    simp [leaveProcess, last]
  have exit : exitProcess ops (leaveProcess k initpcb tid) initpcb = some k' := by
    simpa [sysThreadExit, count] using run
  simp only [exitProcess, leaveTree, ne_eq, not_true_eq_false, if_false, Option.bind_eq_bind,
    Option.bind_some] at exit
  split at exit
  · rename_i empty
    cases exit
    have tree := (cleanup_process_spec ops (leaveProcess k initpcb tid) initpcb).1
    rw [thread_left_tree] at tree
    have childless : (k.tree initpcb).childrenList = [] := by
      have entry := congrFun (thread_left_tree k initpcb tid) initpcb
      exact (congrArg Links.childrenList entry).symm.trans empty.1
    have threads (p : Pid) := congrArg Links.threads (congrFun tree p)
    have states (p : Pid) := congrArg Links.pstate (congrFun tree p)
    simp only [Kernel.tree, Tree.ended, Tree.threadLeft] at threads states
    have free (p : Pid) (child : 2 ≤ p.val) : (k.PT p).pstate = .free :=
      rooted_alone rooted ok.wf childless p child
    have apart : (0 : Pid) ≠ initpcb := by decide
    have idle : (k.PT 0).pstate = .alive ∧ (k.PT 0).threads = [] := ok.threads.idle
    have single : (k.PT initpcb).threads.erase tid = [] := by
      have counted : (k.PT initpcb).threadCount = (k.PT initpcb).threads.length :=
        ok.threads.counted initpcb
      have short := List.length_erase_of_mem member
      exact List.length_eq_zero_iff.mp (by omega)
    have none (p : Pid) (other : p ≠ initpcb) : (k.PT p).threads = [] := by
      by_cases zero : p = 0
      · rw [zero]
        exact idle.2
      · by_contra some
        have child : 2 ≤ p.val := by
          have zero' : p.val ≠ 0 := fun same => zero (Fin.ext same)
          have one' : p.val ≠ 1 := fun same => other (Fin.ext same)
          omega
        have alive : (k.PT p).pstate = .alive := ok.threads.alive p some
        rw [free p child] at alive
        cases alive
    refine ⟨rfl,tree,fun p => ?_,?_,?_,fun p child => ?_⟩
    · rw [threads]
      by_cases here : p = initpcb
      · rw [if_pos here, here]
        exact single
      · rw [if_neg here]
        exact none p here
    · rw [states, if_neg apart]
      exact idle.1
    · rw [states, if_pos rfl]
    · rw [states, if_neg (child_not_init child)]
      exact free p child
  · cases exit

/- The process table is in order, or nothing is left to run. -/
def Settled (k : Kernel Task Obj Dev) : Prop :=
  (KernelOk k ∧ ∃ birth, Rooted k.tree birth) ∨ Halted k

theorem settled_running (settled : Settled k) {tid : Tid} (member : tid ∈ (k.PT p).threads) :
    KernelOk k ∧ ∃ birth, Rooted k.tree birth := by
  refine settled.resolve_right fun halted => ?_
  rw [halted.threads] at member
  cases member

theorem settled_congr (settled : Settled k) (tree : k'.tree = k.tree)
    (freelist : k'.pcbFreelist = k.pcbFreelist) (count : k'.processCount = k.processCount) :
    Settled k' := by
  rcases settled with ⟨ok,rooted⟩ | halted
  · exact Or.inl ⟨kernel_ok_congr ok tree freelist count,tree ▸ rooted⟩
  · have entry (p : Pid) : k'.tree p = k.tree p := congrFun tree p
    exact Or.inr ⟨fun p => (congrArg Links.threads (entry p)).trans (halted.threads p),
      (congrArg Links.pstate (entry 0)).trans halted.idle,
      (congrArg Links.pstate (entry initpcb)).trans halted.init,
      fun p child => (congrArg Links.pstate (entry p)).trans (halted.others p child)⟩

/-- ThreadExit, unless it is the last thread of init and leaves children behind. -/
theorem exit_settled (ops : FileOps Obj Dev) (ok : KernelOk k) {birth : Pid → Nat}
    (rooted : Rooted k.tree birth) {tid : Tid} (member : tid ∈ (k.PT cur).threads)
    (drained : cur = initpcb → (k.PT cur).threadCount ≠ 1 ∨ (k.PT cur).childrenList = []) :
    ∃ k', sysThreadExit ops k cur tid = some k' ∧ Settled k' ∧
      ∀ p, p ≠ cur → (k'.PT p).pstate = (k.PT p).pstate := by
  by_cases final : cur = initpcb ∧ (k.PT cur).threadCount = 1
  · obtain ⟨rfl,last⟩ := final
    have childless := (drained rfl).resolve_left (fun other => other last)
    have exit := init_exit_eq ops tid last
    rw [if_pos ⟨childless,childless_unexited ok.wf childless⟩] at exit
    obtain ⟨_,tree,halted⟩ := init_halts ops ok rooted member last exit
    refine ⟨_,exit,Or.inr halted,fun p apart => ?_⟩
    refine (congrArg Links.pstate (congrFun tree p)).trans ?_
    simp [Tree.ended, Tree.threadLeft, Kernel.tree, apart]
  · have notLast : cur = initpcb → (k.PT cur).threadCount ≠ 1 := fun init last => final ⟨init,last⟩
    obtain ⟨k',exit,ok',_,states⟩ := thread_exit_ok ops ok member notLast
    exact ⟨k',exit,Or.inl ⟨ok',birth,rooted_exit ops ok rooted member notLast exit⟩,states⟩

end KernelProc
