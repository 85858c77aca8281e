import TinyOS.ProcessTree

/- The process tree is well formed when every process in use hangs below an ALIVE parent and
   the two lists of each PCB hold exactly its children and its zombies. Exec, the reaping of a
   zombie and the end of a process keep it so. -/
namespace KernelProc
open KernelStreams
variable {Task Obj Dev : Type} {k k' : Kernel Task Obj Dev} {T : Tree} {p q cur new : Pid}

structure Tree.WellFormed (T : Tree) : Prop where
  initAlive : (T initpcb).pstate = .alive
  parents : ∀ p, 2 ≤ p.val → (T p).pstate ≠ .free →
    ∃ q, (T p).parent = some q ∧ (T q).pstate = .alive
  children : ∀ p q, p ∈ (T q).childrenList ↔
    2 ≤ p.val ∧ (T p).pstate ≠ .free ∧ (T p).parent = some q
  exited : ∀ p q, p ∈ (T q).exitedList ↔
    2 ≤ p.val ∧ (T p).pstate = .zombie ∧ (T p).parent = some q
  childrenNodup : ∀ q, (T q).childrenList.Nodup
  exitedNodup : ∀ q, (T q).exitedList.Nodup

theorem started_wf (wf : T.WellFormed) (new : Pid) : (T.started new).WellFormed :=
  ⟨wf.initAlive,wf.parents,wf.children,wf.exited,wf.childrenNodup,wf.exitedNodup⟩

theorem thread_left_wf (wf : T.WellFormed) (cur : Pid) (tid : Tid) :
    (T.threadLeft cur tid).WellFormed :=
  ⟨wf.initAlive,wf.parents,wf.children,wf.exited,wf.childrenNodup,wf.exitedNodup⟩

theorem execed_wf (wf : T.WellFormed) (unused : (T new).pstate = .free)
    (caller : (T cur).pstate = .alive) (running : Bool) :
    (T.execed new cur running).WellFormed := by
  have grown : ((T.acquired new).attached cur new).WellFormed := by
    obtain ⟨initAlive,parents,children,exited,childrenNodup,exitedNodup⟩ := wf
    constructor
    · simp only [Tree.attached, Tree.acquired]
      grind
    · intro p
      simp only [Tree.attached, Tree.acquired]
      have := parents p
      grind
    · intro p q
      simp only [Tree.attached, Tree.acquired]
      have := children p q
      grind
    · intro p q
      simp only [Tree.attached, Tree.acquired]
      have := exited p q
      grind
    · intro q
      simp only [Tree.attached, Tree.acquired]
      have := children new q
      have := childrenNodup q
      grind
    · intro q
      exact exitedNodup q
  unfold Tree.execed
  cases running
  · exact grown
  · exact started_wf grown new

/-- Only a process that is not ALIVE is ever cleaned up, and it has no children left. -/
theorem reaped_wf (wf : T.WellFormed) (dead : (T p).pstate ≠ .alive) (freelist : Option Pid) :
    (T.reaped p freelist).WellFormed := by
  obtain ⟨initAlive,parents,children,exited,childrenNodup,exitedNodup⟩ := wf
  constructor
  · simp only [Tree.reaped]
    grind
  · intro r
    simp only [Tree.reaped]
    have := parents r
    grind
  · intro r q
    simp only [Tree.reaped, (childrenNodup q).mem_erase_iff]
    have := children r q
    grind
  · intro r q
    simp only [Tree.reaped, (exitedNodup q).mem_erase_iff]
    have := exited r q
    grind
  · intro q
    exact (childrenNodup q).erase p
  · intro q
    exact (exitedNodup q).erase p

theorem child_not_init (child : 2 ≤ cur.val) : cur ≠ initpcb := by
  rintro rfl
  exact absurd child (by decide)

/-- Where the zombie of cur goes: to its parent, which is init once cur has given away its
    children if cur was one of them. -/
theorem heir_exists (wf : T.WellFormed) (child : 2 ≤ cur.val) (running : (T cur).pstate = .alive) :
    ∃ parent, (T.reparented cur (T cur).childrenList cur).parent = some parent ∧ parent ≠ cur ∧
      (T parent).pstate = .alive := by
  obtain ⟨q,is,alive⟩ := wf.parents cur child (by simp [running])
  have apart := child_not_init child
  simp only [Tree.reparented]
  by_cases own : cur ∈ (T cur).childrenList
  · exact ⟨initpcb,by simp [own],apart.symm,wf.initAlive⟩
  · refine ⟨q,by simp [own, is],?_,alive⟩
    rintro rfl
    exact own ((wf.children q q).mpr ⟨child,by simp [running],is⟩)

theorem exited_wf {parent : Pid} (wf : T.WellFormed) (child : 2 ≤ cur.val)
    (running : (T cur).pstate = .alive)
    (is : (T.reparented cur (T cur).childrenList cur).parent = some parent) (other : parent ≠ cur)
    (alive : (T parent).pstate = .alive) : (T.exited cur parent).WellFormed := by
  have apart := child_not_init child
  have first : 2 ≤ cur.val := child
  obtain ⟨initAlive,parents,children,exited,childrenNodup,exitedNodup⟩ := wf
  have members := fun p => children p cur
  have zombies := fun p => exited p cur
  simp only [Tree.reparented] at is
  constructor
  · simp only [Tree.exited, Tree.ended, Tree.joined, Tree.appended, Tree.reparented]
    grind
  · intro p
    simp only [Tree.exited, Tree.ended, Tree.joined, Tree.appended, Tree.reparented]
    have := parents p
    have := members p
    grind
  · intro p q
    simp only [Tree.exited, Tree.ended, Tree.joined, Tree.appended, Tree.reparented]
    have := children p q
    have := members p
    grind
  · intro p q
    simp only [Tree.exited, Tree.ended, Tree.joined, Tree.appended, Tree.reparented]
    have := exited p q
    have := zombies p
    have := members p
    grind
  · intro q
    simp only [Tree.exited, Tree.ended, Tree.joined, Tree.appended, Tree.reparented]
    have apartLists : ((T cur).childrenList.reverse ++ (T initpcb).childrenList).Nodup := by
      refine (List.nodup_reverse.mpr (childrenNodup cur)).append (childrenNodup initpcb) ?_
      intro p mine his
      have := children p initpcb
      have := members p
      grind
    grind
  · intro q
    simp only [Tree.exited, Tree.ended, Tree.joined, Tree.appended, Tree.reparented]
    have apartLists : ((T initpcb).exitedList ++ (T cur).exitedList).Nodup := by
      refine (exitedNodup initpcb).append (exitedNodup cur) ?_
      intro p his mine
      have := exited p initpcb
      have := zombies p
      grind
    have := exited cur initpcb
    have := exited cur q
    grind

theorem thread_left_tree (k : Kernel Task Obj Dev) (cur : Pid) (tid : Tid) :
    (leaveProcess k cur tid).tree = k.tree.threadLeft cur tid := by
  funext p
  by_cases here : p = cur <;> simp [leaveProcess, Kernel.tree, Tree.threadLeft, here]

theorem other_thread_exit (ops : FileOps Obj Dev) (more : (k.PT cur).threadCount ≠ 1)
    (tid : Tid) :
    ∃ k', sysThreadExit ops k cur tid = some k' ∧ k'.tree = k.tree.threadLeft cur tid ∧
      k'.pcbFreelist = k.pcbFreelist ∧ k'.processCount = k.processCount := by
  refine ⟨leaveProcess k cur tid,?_,thread_left_tree k cur tid,rfl,rfl⟩
  have left : (k.PT cur).threadCount - 1 ≠ 0 := by omega
  simp [sysThreadExit, leaveProcess, left]

theorem last_thread_exit (ops : FileOps Obj Dev) (wf : k.tree.WellFormed) (child : 2 ≤ cur.val)
    (running : (k.PT cur).pstate = .alive) (last : (k.PT cur).threadCount = 1) (tid : Tid) :
    ∃ k' parent, sysThreadExit ops k cur tid = some k' ∧
      (k.tree.reparented cur (k.PT cur).childrenList cur).parent = some parent ∧ parent ≠ cur ∧
      (k.PT parent).pstate = .alive ∧ k'.tree = (k.tree.threadLeft cur tid).exited cur parent ∧
      k'.pcbFreelist = k.pcbFreelist ∧ k'.processCount = k.processCount := by
  obtain ⟨parent,is,other,alive⟩ := heir_exists wf child running
  have left := thread_left_tree k cur tid
  have entry : ((leaveProcess k cur tid).tree.reparented cur
      ((leaveProcess k cur tid).tree cur).childrenList cur).parent = some parent := left ▸ is
  obtain ⟨k',run,tree,freelist,count⟩ := exit_spec ops (child_not_init child) entry other
  refine ⟨k',parent,?_,is,other,alive,tree.trans (by rw [left]),freelist,count⟩
  have none : (k.PT cur).threadCount - 1 = 0 := by omega
  simpa [sysThreadExit, leaveProcess, none] using run

theorem boot_spec (files : Files Obj Dev) (task : Task) (argl : Int) (args : Option (List UInt8)) :
    (∀ p, (boot files task argl args).tree p =
      { pstate := if p.val ≤ 1 then .alive else .free
        parent := if p.val ≤ 1 then none else if h : p.val + 1 < maxProc then some ⟨p.val + 1,h⟩ else none
        childrenList := [], exitedList := []
        threadCount := if p = initpcb then 1 else 0
        threads := if p = initpcb then [0] else [] }) ∧
    (boot files task argl args).pcbFreelist = some 2 ∧
    (boot files task argl args).processCount = 2 := by
  obtain ⟨k₁,run₁,tree₁,freelist₁,count₁,_⟩ :=
    @exec_spec Task Obj Dev (initializeProcesses Task files) 0 rfl 0 none 0 none
  have head : k₁.pcbFreelist = some 1 := freelist₁
  obtain ⟨k₂,run₂,tree₂,freelist₂,count₂,_⟩ := exec_spec head 0 (some task) argl args
  have booted : boot files task argl args = k₂ := by
    simp only [boot, run₁, run₂]
  rw [booted]
  refine ⟨fun p => ?_,?_,?_⟩
  · rw [tree₂, tree₁]
    by_cases zero : p = 0
    · subst zero
      rfl
    by_cases one : p = 1
    · subst one
      rfl
    have later : ¬ p.val ≤ 1 := by
      have zero' : p.val ≠ 0 := fun h => zero (Fin.ext h)
      have one' : p.val ≠ 1 := fun h => one (Fin.ext h)
      omega
    simp [Tree.execed, Tree.started, Tree.attached, Tree.acquired, Kernel.tree, initializeProcesses,
      initialPCB, initpcb, zero, one, later]
  · have link := congrArg Links.parent (congrFun tree₁ 1)
    exact freelist₂.trans link
  · rw [count₂, count₁]
    rfl

theorem boot_wf (files : Files Obj Dev) (task : Task) (argl : Int) (args : Option (List UInt8)) :
    (boot files task argl args).tree.WellFormed := by
  obtain ⟨tree,_⟩ := boot_spec files task argl args
  have free (p : Pid) (child : 2 ≤ p.val) : ((boot files task argl args).tree p).pstate = .free := by
    rw [tree p]
    exact if_neg (by omega)
  constructor
  · rw [tree initpcb]
    rfl
  · intro p child used
    exact absurd (free p child) used
  · intro p q
    rw [tree q]
    constructor
    · simp
    · rintro ⟨child,used,_⟩
      exact absurd (free p child) used
  · intro p q
    rw [tree q]
    constructor
    · simp
    · rintro ⟨child,zombie,_⟩
      simp [free p child] at zombie
  · intro q
    simp [tree q]
  · intro q
    simp [tree q]

/-- Exec, one reaping and the exit of a last thread keep the tree well formed; after the exit the
    children of the dead process belong to init and nothing else has moved. -/
theorem process_tree_preserved (ops : FileOps Obj Dev) (wf : k.tree.WellFormed) :
    (∀ cur task argl args, (k.PT cur).pstate = .alive →
      (∀ new, k.pcbFreelist = some new → (k.PT new).pstate = .free) →
      (sysExec k cur (some task) argl args).2.tree.WellFormed) ∧
    (∀ cur child, (k.PT child).pstate = .zombie → (k.PT child).parent = some cur →
      (cleanupZombie k child).2.tree.WellFormed) ∧
    (∀ cur tid, 2 ≤ cur.val → (k.PT cur).pstate = .alive → (k.PT cur).threadCount = 1 →
      ∃ k', sysThreadExit ops k cur tid = some k' ∧ k'.tree.WellFormed ∧
        (∀ p, 2 ≤ p.val → (k.PT p).pstate ≠ .free → (k.PT p).parent = some cur →
          (k'.PT p).parent = some initpcb) ∧
        (k'.PT initpcb).childrenList.Perm
          ((k.PT cur).childrenList ++ (k.PT initpcb).childrenList) ∧
        (k'.PT initpcb).exitedList.Perm
          ((if (k'.PT cur).parent = some initpcb then [cur] else []) ++
            ((k.PT cur).exitedList ++ (k.PT initpcb).exitedList)) ∧
        (∀ p ∉ (k.PT cur).childrenList, (k'.PT p).parent = (k.PT p).parent) ∧
        (k'.PT cur).pstate = .zombie ∧ ∀ p ≠ cur, (k'.PT p).pstate = (k.PT p).pstate) := by
  refine ⟨?_,?_,?_⟩
  · intro cur task argl args caller unused
    cases head : k.pcbFreelist with
    | none => rw [exec_full head]; exact wf
    | some new =>
      obtain ⟨k',run,tree,_⟩ := exec_spec head cur (some task) argl args
      rw [run]
      exact tree ▸ execed_wf wf (unused new head) caller _
  · intro cur child zombie _
    rw [(cleanup_spec k child).1]
    exact reaped_wf wf (by simp [Kernel.tree, zombie]) _
  · intro cur tid child running last
    obtain ⟨k',parent,run,is,other,alive,tree,_⟩ := last_thread_exit ops wf child running last tid
    refine ⟨k',run,tree ▸ exited_wf (thread_left_wf wf cur tid) child running is other alive,?_⟩
    have apart := child_not_init child
    have fields (p : Pid) := congrFun tree p
    simp only [Tree.exited, Tree.ended, Tree.joined, Tree.appended, Tree.reparented,
      Tree.threadLeft, Kernel.tree, Links.mk.injEq] at fields is
    have heir : (k'.PT cur).parent = some parent := (fields cur).2.1.trans is
    refine ⟨?_,?_,?_,?_,?_,?_⟩
    · intro p inTree used mine
      have member : p ∈ (k.PT cur).childrenList := (wf.children p cur).mpr ⟨inTree,used,mine⟩
      simpa [member] using (fields p).2.1
    · rw [(fields initpcb).2.2.1]
      simpa [apart.symm] using (List.reverse_perm _).append_right _
    · rw [(fields initpcb).2.2.2.1, heir]
      by_cases first : parent = initpcb
      · simpa [first, apart.symm] using List.perm_append_comm
      · simpa [first, Ne.symm first, apart.symm] using List.perm_append_comm
    · intro p others
      simpa [others] using (fields p).2.1
    · simpa using (fields cur).1
    · intro p others
      simpa [others] using (fields p).1

/- A kernel without devices. -/
def bareOps : FileOps Unit Unit := { close := fun _ dev => (0, dev) }

def bareBoot : Kernel Unit Unit Unit := boot (initializeFiles () ()) () 0 none

/- init starts process 2. -/
def oneChild : Kernel Unit Unit Unit := (sysExec bareBoot initpcb (some ()) 0 none).2

theorem one_child_wf : oneChild.tree.WellFormed := by
  obtain ⟨k',run,tree,_⟩ := @exec_spec Unit Unit Unit bareBoot 2 rfl initpcb (some ()) 0 none
  have same : oneChild = k' := congrArg Prod.snd run
  rw [same, tree]
  exact execed_wf (boot_wf _ _ _ _) rfl rfl _

theorem process_tree_preserved_one_child :
    (oneChild.PT initpcb).childrenList = [2] ∧
      ∃ k', sysThreadExit bareOps oneChild 2 0 = some k' ∧ k'.tree.WellFormed := by
  obtain ⟨k',run,wf,_⟩ := (process_tree_preserved bareOps one_child_wf).2.2 2 0 (by decide) rfl rfl
  exact ⟨rfl,k',run,wf⟩

def afterExit (k : Kernel Unit Unit Unit) (p : Pid) : Kernel Unit Unit Unit :=
  (sysThreadExit bareOps k p 0).getD k

theorem after_exit_wf {k : Kernel Unit Unit Unit} (wf : k.tree.WellFormed) (child : 2 ≤ p.val)
    (running : (k.PT p).pstate = .alive) (last : (k.PT p).threadCount = 1) :
    (afterExit k p).tree.WellFormed := by
  obtain ⟨k',parent,run,is,other,alive,tree,_⟩ := last_thread_exit bareOps wf child running last 0
  have same : afterExit k p = k' := by rw [afterExit, run]; rfl
  rw [same, tree]
  exact exited_wf (thread_left_wf wf p 0) child running is other alive

/- Process 2 exits and two waiters of init clean it up one after the other. -/
def reapedTwice : Kernel Unit Unit Unit :=
  (cleanupZombie (cleanupZombie (afterExit oneChild 2) 2).2 2).2

theorem reaped_twice_wf : reapedTwice.tree.WellFormed := by
  have first := after_exit_wf one_child_wf (by decide : 2 ≤ (2 : Pid).val) rfl rfl
  have second : (cleanupZombie (afterExit oneChild 2) 2).2.tree.WellFormed := by
    rw [(cleanup_spec _ 2).1]
    exact reaped_wf first (by decide) _
  unfold reapedTwice
  rw [(cleanup_spec _ 2).1]
  exact reaped_wf second (by decide) _

/- The free list now leads back to process 2, which is used again and exits again. -/
def zombieOnFreelist : Kernel Unit Unit Unit :=
  afterExit (sysExec reapedTwice initpcb (some ()) 0 none).2 2

theorem zombie_on_freelist_wf : zombieOnFreelist.tree.WellFormed := by
  obtain ⟨k',run,tree,_⟩ := @exec_spec Unit Unit Unit reapedTwice 2 rfl initpcb (some ()) 0 none
  have again : (sysExec reapedTwice initpcb (some ()) 0 none).2.tree.WellFormed := by
    rw [run]
    exact tree ▸ execed_wf reaped_twice_wf rfl rfl _
  exact after_exit_wf again (by decide) rfl rfl

/-- A well-formed tree whose free list leads to a zombie: Exec takes the zombie's PCB. -/
theorem exec_breaks_tree : zombieOnFreelist.tree.WellFormed ∧
    (zombieOnFreelist.PT initpcb).pstate = .alive ∧
    ¬ (sysExec zombieOnFreelist initpcb (some ()) 0 none).2.tree.WellFormed := by
  refine ⟨zombie_on_freelist_wf,rfl,fun wf => ?_⟩
  obtain ⟨k',run,tree,_⟩ :=
    @exec_spec Unit Unit Unit zombieOnFreelist 2 rfl initpcb (some ()) 0 none
  rw [run, tree] at wf
  have listed : (zombieOnFreelist.PT initpcb).exitedList = [2] := rfl
  have member : (2 : Pid) ∈ (zombieOnFreelist.PT initpcb).exitedList := by simp [listed]
  have zombie := ((wf.exited 2 initpcb).mp member).2.1
  simp [Tree.execed, Tree.started, Tree.attached, Tree.acquired] at zombie

end KernelProc
