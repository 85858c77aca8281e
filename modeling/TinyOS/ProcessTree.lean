import TinyOS.Proc

/- The process tree: what Exec, the reaping of a zombie and the end of a process do to the
   parents, states and lists of all processes, and that the tree stays well formed. -/
namespace KernelProc
open KernelStreams
variable {Task Obj Dev : Type} {k k' : Kernel Task Obj Dev} {p q cur : Pid}

/-- Everything but the file tables and the FCBs. -/
def Kernel.procs (k : Kernel Task Obj Dev) :
    (Pid → PCB Task) × Option Pid × UInt32 × Monitor.Waits Thread Pid :=
  (fun p => { k.PT p with FIDT := fun _ => none },k.pcbFreelist,k.processCount,k.waits)

@[simp] theorem modify_PT (k : Kernel Task Obj Dev) (p : Pid) (f : PCB Task → PCB Task) (q : Pid) :
    (k.modify p f).PT q = if q = p then f (k.PT p) else k.PT q := by
  simp only [Kernel.modify, Function.update_apply]

@[simp] theorem modify_freelist (k : Kernel Task Obj Dev) (p : Pid) (f : PCB Task → PCB Task) :
    (k.modify p f).pcbFreelist = k.pcbFreelist := rfl

@[simp] theorem modify_count (k : Kernel Task Obj Dev) (p : Pid) (f : PCB Task → PCB Task) :
    (k.modify p f).processCount = k.processCount := rfl

@[simp] theorem modify_waits (k : Kernel Task Obj Dev) (p : Pid) (f : PCB Task → PCB Task) :
    (k.modify p f).waits = k.waits := rfl

@[simp] theorem modify_files (k : Kernel Task Obj Dev) (p : Pid) (f : PCB Task → PCB Task) :
    (k.modify p f).files = k.files := rfl

theorem foldl_procs {f : Kernel Task Obj Dev → Fid → Kernel Task Obj Dev}
    (each : ∀ k i, (f k i).procs = k.procs) (is : List Fid) (k : Kernel Task Obj Dev) :
    (is.foldl f k).procs = k.procs := by
  induction is generalizing k with
  | nil => rfl
  | cons i is ih => exact (ih (f k i)).trans (each k i)

theorem modify_FIDT_procs (k : Kernel Task Obj Dev) (p : Pid) (g : PCB Task → Fid → Option FcbRef) :
    (k.modify p fun b => { b with FIDT := g b }).procs = k.procs := by
  simp only [Kernel.procs, modify_PT, modify_freelist, modify_count, modify_waits]
  congr 1
  funext q
  by_cases same : q = p
  · simp [same]
  · simp [same]

theorem inherit_procs (k : Kernel Task Obj Dev) (cur new : Pid) :
    (inheritFIDT k cur new).procs = k.procs := by
  refine foldl_procs (fun k i => ?_) _ k
  have same (fcb : Option FcbRef) :=
    modify_FIDT_procs k new (fun b => Function.update b.FIDT i fcb)
  unfold inheritFid
  cases (k.PT cur).FIDT i with
  | none => exact same none
  | some f => exact same (some f)

theorem clear_procs (ops : FileOps Obj Dev) (k : Kernel Task Obj Dev) (cur : Pid) :
    (clearFIDT ops k cur).procs = k.procs := by
  refine foldl_procs (fun k i => ?_) _ k
  unfold clearFid
  cases (k.PT cur).FIDT i with
  | none => rfl
  | some f => exact modify_FIDT_procs { k with files := _ } cur _

theorem procs_table (same : k'.procs = k.procs) (p : Pid) :
    k'.PT p = { k.PT p with FIDT := (k'.PT p).FIDT } := by
  have entry : ({ k'.PT p with FIDT := fun _ => none } : PCB Task) =
      { k.PT p with FIDT := fun _ => none } := congrFun (congrArg Prod.fst same) p
  cases h' : k'.PT p
  cases h : k.PT p
  simp_all

theorem procs_rest (same : k'.procs = k.procs) : k'.pcbFreelist = k.pcbFreelist ∧
    k'.processCount = k.processCount ∧ k'.waits = k.waits := by
  simp only [Kernel.procs, Prod.mk.injEq] at same
  exact same.2

/-- The entries of the process tree: what is left of the PCBs when the programs, the exit values
    and the files are left out. -/
structure Links where
  pstate : PidState
  parent : Option Pid
  childrenList : List Pid
  exitedList : List Pid
  threadCount : Int
  threads : List Tid

abbrev Tree := Pid → Links

def Kernel.tree (k : Kernel Task Obj Dev) : Tree := fun p =>
  { pstate := (k.PT p).pstate, parent := (k.PT p).parent
    childrenList := (k.PT p).childrenList, exitedList := (k.PT p).exitedList
    threadCount := (k.PT p).threadCount, threads := (k.PT p).threads }

theorem procs_tree (same : k'.procs = k.procs) : k'.tree = k.tree := by
  funext p
  simp only [Kernel.tree]
  rw [procs_table same p]

def Tree.attached (T : Tree) (cur new : Pid) : Tree := fun p =>
  { T p with
    parent := if p = new then (if new.val ≤ 1 then none else some cur) else (T p).parent
    childrenList := if p = cur ∧ ¬ new.val ≤ 1 then new :: (T p).childrenList
      else (T p).childrenList }

def Tree.acquired (T : Tree) (new : Pid) : Tree := fun p =>
  { T p with pstate := if p = new then .alive else (T p).pstate }

def Tree.started (T : Tree) (new : Pid) : Tree := fun p =>
  { T p with
    threadCount := if p = new then (T p).threadCount + 1 else (T p).threadCount
    threads := if p = new then (T p).threads ++ [0] else (T p).threads }

theorem attach_spec (k : Kernel Task Obj Dev) (cur new : Pid) :
    (attachChild k cur new).tree = k.tree.attached cur new ∧
    (attachChild k cur new).pcbFreelist = k.pcbFreelist ∧
    (attachChild k cur new).processCount = k.processCount ∧
    (attachChild k cur new).waits = k.waits := by
  unfold attachChild
  split
  · refine ⟨?_,rfl,rfl,rfl⟩
    funext p
    by_cases here : p = new <;> simp [Kernel.tree, Tree.attached, *]
  · rename_i child
    have same := inherit_procs ((k.modify new ({ · with parent := some cur })).modify cur
      fun b => { b with childrenList := new :: b.childrenList }) cur new
    obtain ⟨freelist,count,waits⟩ := procs_rest same
    refine ⟨(procs_tree same).trans ?_,freelist,count,waits⟩
    funext p
    by_cases here : p = new <;> by_cases there : p = cur <;>
      simp [Kernel.tree, Tree.attached, here, there, child] <;> grind

theorem acquire_spec {new : Pid} (head : k.pcbFreelist = some new) :
    ∃ k', acquirePCB k = some (new,k') ∧ k'.tree = k.tree.acquired new ∧
      k'.pcbFreelist = (k.PT new).parent ∧ k'.processCount = k.processCount + 1 ∧
      k'.waits = k.waits := by
  have run : acquirePCB k = some (new, { k.modify new ({ · with pstate := .alive }) with
      pcbFreelist := ((k.modify new ({ · with pstate := .alive })).PT new).parent
      processCount := k.processCount + 1 }) := by
    simp only [acquirePCB, head, modify_count]
  refine ⟨_,run,?_,by simp,rfl,rfl⟩
  funext p
  by_cases here : p = new <;> simp [Kernel.tree, Tree.acquired, here]

theorem start_spec (k : Kernel Task Obj Dev) (new : Pid) (call : Option Task) :
    (startMainThread k new call).tree = (if call.isSome then k.tree.started new else k.tree) ∧
    (startMainThread k new call).pcbFreelist = k.pcbFreelist ∧
    (startMainThread k new call).processCount = k.processCount ∧
    (startMainThread k new call).waits = k.waits := by
  cases call with
  | none => exact ⟨rfl,rfl,rfl,rfl⟩
  | some task =>
    refine ⟨?_,rfl,rfl,rfl⟩
    funext p
    by_cases here : p = new <;> simp [startMainThread, Kernel.tree, Tree.started, here]

theorem set_program_tree (k : Kernel Task Obj Dev) (new : Pid) (call : Option Task) (argl : Int)
    (args : Option (List UInt8)) : (setProgram k new call argl args).tree = k.tree := by
  funext p
  by_cases here : p = new <;> simp [setProgram, Kernel.tree, here]

/-- The tree after Exec has acquired new for a child of cur. -/
def Tree.execed (T : Tree) (new cur : Pid) (running : Bool) : Tree :=
  let T := (T.acquired new).attached cur new
  if running then T.started new else T

@[simp] theorem execed_pstate (T : Tree) (new cur : Pid) (running : Bool) (p : Pid) :
    (T.execed new cur running p).pstate = if p = new then .alive else (T p).pstate := by
  cases running <;> rfl

@[simp] theorem execed_parent (T : Tree) (new cur : Pid) (running : Bool) (p : Pid) :
    (T.execed new cur running p).parent =
      if p = new then (if new.val ≤ 1 then none else some cur) else (T p).parent := by
  cases running <;> rfl

@[simp] theorem execed_threads (T : Tree) (new cur : Pid) (running : Bool) (p : Pid) :
    (T.execed new cur running p).threads =
      (T p).threads ++ if p = new ∧ running then [0] else [] := by
  by_cases here : p = new <;>
    cases running <;> simp [Tree.execed, Tree.started, Tree.attached, Tree.acquired, here]

@[simp] theorem execed_thread_count (T : Tree) (new cur : Pid) (running : Bool) (p : Pid) :
    (T.execed new cur running p).threadCount =
      (T p).threadCount + if p = new ∧ running then 1 else 0 := by
  by_cases here : p = new <;>
    cases running <;> simp [Tree.execed, Tree.started, Tree.attached, Tree.acquired, here]

theorem exec_full (full : k.pcbFreelist = none) (cur : Pid) (call : Option Task) (argl : Int)
    (args : Option (List UInt8)) : sysExec k cur call argl args = (none,k) := by
  simp [sysExec, acquirePCB, full]

theorem exec_spec {new : Pid} (head : k.pcbFreelist = some new) (cur : Pid) (call : Option Task)
    (argl : Int) (args : Option (List UInt8)) :
    ∃ k', sysExec k cur call argl args = (some new,k') ∧
      k'.tree = k.tree.execed new cur call.isSome ∧ k'.pcbFreelist = (k.PT new).parent ∧
      k'.processCount = k.processCount + 1 ∧ k'.waits = k.waits := by
  obtain ⟨k₁,acquired,tree₁,freelist₁,count₁,waits₁⟩ := acquire_spec head
  obtain ⟨tree₂,freelist₂,count₂,waits₂⟩ := attach_spec k₁ cur new
  obtain ⟨tree₃,freelist₃,count₃,waits₃⟩ :=
    start_spec (setProgram (attachChild k₁ cur new) new call argl args) new call
  refine ⟨startMainThread (setProgram (attachChild k₁ cur new) new call argl args) new call,
    by simp only [sysExec, acquired],?_,?_,?_,?_⟩
  · rw [tree₃, set_program_tree, tree₂, tree₁]
    rfl
  · exact freelist₃.trans (freelist₂.trans freelist₁)
  · exact count₃.trans (count₂.trans count₁)
  · exact waits₃.trans (waits₂.trans waits₁)

/-- The tree after the reaping of p, whose parent field joins the free list. -/
def Tree.reaped (T : Tree) (p : Pid) (freelist : Option Pid) : Tree := fun q =>
  { T q with
    pstate := if q = p then .free else (T q).pstate
    parent := if q = p then freelist else (T q).parent
    childrenList := (T q).childrenList.erase p
    exitedList := (T q).exitedList.erase p }

theorem cleanup_spec (k : Kernel Task Obj Dev) (p : Pid) :
    (cleanupZombie k p).2.tree = k.tree.reaped p k.pcbFreelist ∧
    (cleanupZombie k p).2.pcbFreelist = some p ∧
    (cleanupZombie k p).2.processCount = k.processCount - 1 ∧
    (cleanupZombie k p).2.waits = k.waits := by
  refine ⟨?_,rfl,rfl,rfl⟩
  funext q
  by_cases here : q = p <;>
    simp [cleanupZombie, releasePCB, unlinkChild, Kernel.tree, Tree.reaped, here]

/-- The children xs of cur now belong to init. -/
def Tree.reparented (T : Tree) (cur : Pid) (xs : List Pid) : Tree := fun p =>
  { T p with
    parent := if p ∈ xs then some initpcb else (T p).parent
    childrenList := if p = cur then [] else
      if p = initpcb then xs.reverse ++ (T p).childrenList else (T p).childrenList }

def Tree.appended (T : Tree) (cur : Pid) : Tree := fun p =>
  { T p with
    exitedList := if p = cur then [] else
      if p = initpcb then (T p).exitedList ++ (T cur).exitedList else (T p).exitedList }

def Tree.joined (T : Tree) (cur parent : Pid) : Tree := fun p =>
  { T p with
    exitedList := if p = parent then cur :: (T p).exitedList else (T p).exitedList }

def Tree.ended (T : Tree) (cur : Pid) : Tree := fun p =>
  { T p with pstate := if p = cur then .zombie else (T p).pstate }

theorem reparent_loop_spec (apart : cur ≠ initpcb) (xs : List Pid) (k : Kernel Task Obj Dev)
    (children : (k.PT cur).childrenList = xs) :
    (reparentLoop cur xs k).tree = k.tree.reparented cur xs ∧
    (reparentLoop cur xs k).pcbFreelist = k.pcbFreelist ∧
    (reparentLoop cur xs k).processCount = k.processCount := by
  induction xs generalizing k with
  | nil =>
    refine ⟨?_,rfl,rfl⟩
    funext p
    by_cases here : p = cur <;> simp [reparentLoop, Kernel.tree, Tree.reparented, here, children]
  | cons child rest ih =>
    obtain ⟨tree,freelist,count⟩ := ih
      (((k.modify cur ({ · with childrenList := rest })).modify child
        ({ · with parent := some initpcb })).modify initpcb
          fun b => { b with childrenList := child :: b.childrenList })
      (by simp only [modify_PT]; grind)
    refine ⟨tree.trans ?_,freelist,count⟩
    funext p
    simp only [Tree.reparented, Kernel.tree, modify_PT]
    by_cases here : p = cur
    · grind
    · by_cases there : p = child <;> by_cases first : p = initpcb <;> grind

theorem append_exited_spec (k : Kernel Task Obj Dev) (apart : cur ≠ initpcb) :
    (appendExited k cur).tree = k.tree.appended cur ∧
    (appendExited k cur).pcbFreelist = k.pcbFreelist ∧
    (appendExited k cur).processCount = k.processCount := by
  unfold appendExited
  split
  · rename_i empty
    refine ⟨?_,rfl,rfl⟩
    funext p
    by_cases here : p = cur <;> simp [Kernel.tree, Tree.appended, here, empty]
  · refine ⟨?_,rfl,rfl⟩
    funext p
    simp only [broadcast, Kernel.tree, Tree.appended, modify_PT]
    grind

theorem join_exited_spec {parent : Pid} (is : (k.PT cur).parent = some parent) :
    ∃ k', joinExited k cur = some k' ∧ k'.tree = k.tree.joined cur parent ∧
      k'.pcbFreelist = k.pcbFreelist ∧ k'.processCount = k.processCount := by
  refine ⟨broadcast (k.modify parent fun b => { b with exitedList := cur :: b.exitedList }) parent,
    by simp only [joinExited, is, Option.bind_eq_bind, Option.bind_some],?_,rfl,rfl⟩
  funext p
  simp only [broadcast, Kernel.tree, Tree.joined, modify_PT]
  grind

theorem leave_spec {parent : Pid} (apart : cur ≠ initpcb)
    (is : (k.tree.reparented cur (k.PT cur).childrenList cur).parent = some parent) :
    ∃ k', leaveTree k cur = some k' ∧
      k'.tree = ((k.tree.reparented cur (k.PT cur).childrenList).appended cur).joined cur parent ∧
      k'.pcbFreelist = k.pcbFreelist ∧ k'.processCount = k.processCount := by
  obtain ⟨tree₁,freelist₁,count₁⟩ := reparent_loop_spec apart _ k rfl
  obtain ⟨tree₂,freelist₂,count₂⟩ :=
    append_exited_spec (reparentLoop cur (k.PT cur).childrenList k) apart
  have heir : ((appendExited (reparentLoop cur (k.PT cur).childrenList k) cur).PT cur).parent =
      some parent := by
    have appended := tree₂.trans (congrArg (Tree.appended · cur) tree₁)
    have entry := congrArg Links.parent (congrFun appended cur)
    exact entry.trans is
  obtain ⟨k₃,run,tree₃,freelist₃,count₃⟩ := join_exited_spec heir
  refine ⟨k₃,by simp only [leaveTree, apart, ne_eq, not_false_iff, if_true, run],?_,?_,?_⟩
  · rw [tree₃, tree₂, tree₁]
  · exact freelist₃.trans (freelist₂.trans freelist₁)
  · exact count₃.trans (count₂.trans count₁)

theorem cleanup_process_spec (ops : FileOps Obj Dev) (k : Kernel Task Obj Dev) (cur : Pid) :
    (cleanupProcess ops k cur).tree = k.tree.ended cur ∧
    (cleanupProcess ops k cur).pcbFreelist = k.pcbFreelist ∧
    (cleanupProcess ops k cur).processCount = k.processCount := by
  have files := clear_procs ops (k.modify cur ({ · with args := none })) cur
  obtain ⟨freelist,count,_⟩ := procs_rest files
  refine ⟨?_,freelist,count⟩
  funext p
  have entry := congrFun (procs_tree files) p
  by_cases here : p = cur
  · subst here
    simp [Kernel.tree] at entry
    simp [cleanupProcess, Kernel.tree, Tree.ended, entry]
  · simp [Kernel.tree, here] at entry
    simp [cleanupProcess, Kernel.tree, Tree.ended, entry, here]

/-- The tree after the end of cur, whose children go to init and whose zombie goes to parent. -/
def Tree.exited (T : Tree) (cur parent : Pid) : Tree :=
  (((T.reparented cur (T cur).childrenList).appended cur).joined cur parent).ended cur

theorem exit_spec (ops : FileOps Obj Dev) {parent : Pid} (apart : cur ≠ initpcb)
    (is : (k.tree.reparented cur (k.PT cur).childrenList cur).parent = some parent)
    (other : parent ≠ cur) :
    ∃ k', exitProcess ops k cur = some k' ∧ k'.tree = k.tree.exited cur parent ∧
      k'.pcbFreelist = k.pcbFreelist ∧ k'.processCount = k.processCount := by
  obtain ⟨k₁,run,tree₁,freelist₁,count₁⟩ := leave_spec apart is
  obtain ⟨tree₂,freelist₂,count₂⟩ := cleanup_process_spec ops k₁ cur
  have entry := congrFun tree₁ cur
  have childless : (k₁.PT cur).childrenList = [] := by
    refine (congrArg Links.childrenList entry).trans ?_
    simp [Tree.joined, Tree.appended, Tree.reparented]
  have unexited : (k₁.PT cur).exitedList = [] := by
    refine (congrArg Links.exitedList entry).trans ?_
    simp [Tree.joined, Tree.appended, other.symm]
  refine ⟨cleanupProcess ops k₁ cur,?_,?_,freelist₂.trans freelist₁,count₂.trans count₁⟩
  · simp only [exitProcess, run, childless, unexited, and_self, if_true, Option.bind_eq_bind,
      Option.bind_some]
  · rw [tree₂, tree₁]
    rfl

def Tree.threadLeft (T : Tree) (cur : Pid) (tid : Tid) : Tree := fun p =>
  { T p with
    threadCount := if p = cur then (T p).threadCount - 1 else (T p).threadCount
    threads := if p = cur then (T p).threads.erase tid else (T p).threads }

end KernelProc
