import TinyOS.Tally
import TinyOS.TreeInvariant

/- The rest of what holds of the process table: the free list is a chain of the FREE PCBs,
   process_count counts the others, and the threads of each process are counted and keep it
   ALIVE. Every operation keeps all of it. -/
namespace KernelProc
open KernelStreams Tally
variable {Task Obj Dev : Type} {k k' : Kernel Task Obj Dev} {T : Tree} {head : Option Pid}
  {count : UInt32} {p cur new : Pid}

/-- The free list and process_count agree with the states of the PCBs. -/
structure TableExact (T : Tree) (head : Option Pid) (count : UInt32) : Prop where
  free : ∃ xs, FreeList.Chain (fun p => (T p).parent) head xs ∧ xs.Nodup ∧
    ∀ p, p ∈ xs ↔ (T p).pstate = .free
  used : count.toNat = tally (fun p => (T p).pstate ≠ .free)

theorem used_le (T : Tree) : tally (fun p => (T p).pstate ≠ .free) ≤ 65536 := by
  simpa using tally_le (fun p => (T p).pstate ≠ .free)

theorem exact_head (table : TableExact T (some new) count) : (T new).pstate = .free := by
  obtain ⟨xs,chain,_,members⟩ := table.free
  obtain ⟨rest,rfl,_⟩ := FreeList.chain_pop chain none
  exact (members new).mp (List.mem_cons_self ..)

theorem exact_execed (table : TableExact T (some new) count) (cur : Pid) (running : Bool) :
    TableExact (T.execed new cur running) (T new).parent (count + 1) := by
  have unused := exact_head table
  obtain ⟨⟨xs,chain,nodup,members⟩,used⟩ := table
  constructor
  · obtain ⟨rest,rfl,outside,popped⟩ :=
      FreeList.chain_pop chain (if new.val ≤ 1 then none else some cur)
    refine ⟨rest,FreeList.chain_congr (fun p _ => ?_) popped,(List.nodup_cons.mp nodup).2,?_⟩
    · rw [execed_parent, Function.update_apply]
    · intro p
      have := members p
      rw [execed_pstate]
      grind
  · have more := tally_gain (p := fun p => (T p).pstate ≠ .free) new
      (q := fun p => (T.execed new cur running p).pstate ≠ .free)
      (fun p apart => by rw [execed_pstate, if_neg apart]) (by simp [unused]) (by simp)
    have bound := used_le T
    rw [UInt32.toNat_add, more, used]
    exact Nat.mod_eq_of_lt (by simp only [UInt32.toNat_one]; omega)

theorem exact_reaped (table : TableExact T head count) (zombie : (T p).pstate ≠ .free) :
    TableExact (T.reaped p head) (some p) (count - 1) := by
  obtain ⟨⟨xs,chain,nodup,members⟩,used⟩ := table
  have outside : p ∉ xs := fun member => zombie ((members p).mp member)
  constructor
  · refine ⟨p :: xs,FreeList.chain_congr (fun q _ => ?_) (FreeList.chain_push outside chain),
      List.nodup_cons.mpr ⟨outside,nodup⟩,?_⟩
    · simp only [Tree.reaped, Function.update_apply]
    · intro q
      have := members q
      simp only [Tree.reaped]
      grind
  · have fewer := tally_gain (p := fun q => (T.reaped p head q).pstate ≠ .free) p
      (q := fun q => (T q).pstate ≠ .free)
      (fun q apart => by simp [Tree.reaped, apart]) (by simp [Tree.reaped]) zombie
    have positive : (1 : UInt32) ≤ count := by
      rw [UInt32.le_iff_toNat_le, UInt32.toNat_one]
      omega
    rw [UInt32.toNat_sub_of_le _ _ positive, UInt32.toNat_one]
    omega

/-- A change that keeps the states and the links of the FREE PCBs. -/
theorem exact_congr {T' : Tree} (table : TableExact T head count)
    (states : ∀ p, (T' p).pstate = .free ↔ (T p).pstate = .free)
    (links : ∀ p, (T p).pstate = .free → (T' p).parent = (T p).parent) :
    TableExact T' head count := by
  obtain ⟨⟨xs,chain,nodup,members⟩,used⟩ := table
  refine ⟨⟨xs,FreeList.chain_congr ?_ chain,nodup,?_⟩,?_⟩
  · intro p member
    exact links p ((members p).mp member)
  · intro p
    rw [members p, states p]
  · rw [used]
    exact tally_congr (fun p => by rw [Ne, Ne, states p])

theorem exact_exited {parent : Pid} (wf : T.WellFormed) (running : (T cur).pstate = .alive)
    (table : TableExact T head count) : TableExact (T.exited cur parent) head count := by
  refine exact_congr table (fun p => ?_) (fun p unused => ?_)
  · simp only [Tree.exited, Tree.ended, Tree.joined, Tree.appended, Tree.reparented]
    grind
  · have := wf.children p cur
    simp only [Tree.exited, Tree.ended, Tree.joined, Tree.appended, Tree.reparented]
    grind

/-- The threads of each process are counted and belong to an ALIVE process. -/
structure ThreadsOk (T : Tree) : Prop where
  counted : ∀ p, (T p).threadCount = (T p).threads.length
  alive : ∀ p, (T p).threads ≠ [] → (T p).pstate = .alive
  idle : (T 0).pstate = .alive ∧ (T 0).threads = []

theorem threads_execed (ok : ThreadsOk T) (unused : (T new).pstate = .free) (cur : Pid)
    (running : Bool) : ThreadsOk (T.execed new cur running) := by
  obtain ⟨counted,alive,idle⟩ := ok
  have apart : (0 : Pid) ≠ new := by
    rintro rfl
    simp [unused] at idle
  refine ⟨fun p => ?_,fun p => ?_,?_⟩
  · have := counted p
    rw [execed_threads, execed_thread_count]
    grind
  · have := alive p
    rw [execed_threads, execed_pstate]
    grind
  · simpa [apart] using idle

theorem threads_reaped (ok : ThreadsOk T) (dead : (T p).pstate ≠ .alive) (link : Option Pid) :
    ThreadsOk (T.reaped p link) := by
  obtain ⟨counted,alive,idle⟩ := ok
  refine ⟨counted,fun q some => ?_,?_⟩
  · have := alive q some
    simp only [Tree.reaped]
    grind
  · simp only [Tree.reaped]
    grind

theorem threads_left (ok : ThreadsOk T) {tid : Tid} (member : tid ∈ (T cur).threads) :
    ThreadsOk (T.threadLeft cur tid) := by
  obtain ⟨counted,alive,idle⟩ := ok
  refine ⟨fun p => ?_,fun p => ?_,?_⟩
  · have := counted p
    have short := List.length_erase_of_mem member
    have long := List.length_pos_of_mem member
    simp only [Tree.threadLeft]
    grind
  · have := alive p
    simp only [Tree.threadLeft]
    grind
  · simp only [Tree.threadLeft]
    grind

theorem threads_exited {parent : Pid} (ok : ThreadsOk T) (child : 2 ≤ cur.val)
    (none : (T cur).threads = []) : ThreadsOk (T.exited cur parent) := by
  obtain ⟨counted,alive,idle⟩ := ok
  have apart : (0 : Pid) ≠ cur := by
    rintro rfl
    exact absurd child (by decide)
  refine ⟨counted,fun p some => ?_,?_⟩
  · have := alive p some
    simp only [Tree.exited, Tree.ended, Tree.joined, Tree.appended, Tree.reparented] at some ⊢
    grind
  · simpa [Tree.exited, Tree.ended, Tree.joined, Tree.appended, Tree.reparented, apart] using idle

structure KernelOk (k : Kernel Task Obj Dev) : Prop where
  wf : k.tree.WellFormed
  table : TableExact k.tree k.pcbFreelist k.processCount
  threads : ThreadsOk k.tree

theorem kernel_ok_congr (ok : KernelOk k) (tree : k'.tree = k.tree)
    (freelist : k'.pcbFreelist = k.pcbFreelist) (count : k'.processCount = k.processCount) :
    KernelOk k' := by
  obtain ⟨wf,table,threads⟩ := ok
  exact ⟨tree ▸ wf,by rwa [tree, freelist, count],tree ▸ threads⟩

theorem running_alive (ok : KernelOk k) {tid : Tid} (member : tid ∈ (k.PT cur).threads) :
    (k.PT cur).pstate = .alive := ok.threads.alive cur (List.ne_nil_of_mem member)

theorem head_unused (ok : KernelOk k) (head : k.pcbFreelist = some new) :
    (k.PT new).pstate = .free := by
  have table := ok.table
  rw [head] at table
  exact exact_head table

theorem exec_ok (ok : KernelOk k) (alive : (k.PT cur).pstate = .alive) (call : Option Task)
    (argl : Int) (args : Option (List UInt8)) : KernelOk (sysExec k cur call argl args).2 := by
  cases head : k.pcbFreelist with
  | none => rwa [exec_full head]
  | some new =>
    obtain ⟨k',run,tree,freelist,count,_⟩ := exec_spec head cur call argl args
    have unused := head_unused ok head
    obtain ⟨wf,table,threads⟩ := ok
    rw [head] at table
    rw [run]
    constructor
    · exact tree ▸ execed_wf wf unused alive _
    · simp only [tree, freelist, count]
      exact exact_execed table _ _
    · exact tree ▸ threads_execed threads unused _ _

theorem cleanup_ok (ok : KernelOk k) (zombie : (k.PT p).pstate = .zombie) :
    KernelOk (cleanupZombie k p).2 := by
  obtain ⟨tree,freelist,count,_⟩ := cleanup_spec k p
  obtain ⟨wf,table,threads⟩ := ok
  have state : (k.tree p).pstate = .zombie := zombie
  constructor
  · rw [tree]
    exact reaped_wf wf (by simp [state]) _
  · rw [tree, freelist, count]
    exact exact_reaped table (by simp [state])
  · rw [tree]
    exact threads_reaped threads (by simp [state]) _

theorem create_thread_tree (k : Kernel Task Obj Dev) (cur : Pid) (tid : Tid) (p : Pid) :
    (sysCreateThread k cur tid).tree p =
      { k.tree p with
        threadCount := (k.tree p).threadCount + (if p = cur then 1 else 0)
        threads := (k.tree p).threads ++ (if p = cur then [tid] else []) } := by
  by_cases here : p = cur <;> simp [sysCreateThread, Kernel.tree, here]

theorem create_thread_ok (ok : KernelOk k) {caller : Tid} (member : caller ∈ (k.PT cur).threads)
    (tid : Tid) : KernelOk (sysCreateThread k cur tid) := by
  have alive : (k.tree cur).pstate = .alive := running_alive ok member
  have running : (k.tree cur).threads ≠ [] := List.ne_nil_of_mem member
  have fields := create_thread_tree k cur tid
  obtain ⟨wf,table,⟨counted,live,zero⟩⟩ := ok
  constructor
  · obtain ⟨h1,h2,h3,h4,h5,h6⟩ := wf
    exact ⟨by simpa [fields] using h1,by simpa [fields] using h2,by simpa [fields] using h3,
      by simpa [fields] using h4,by simpa [fields] using h5,by simpa [fields] using h6⟩
  · exact exact_congr table (fun p => by rw [fields p]) (fun p _ => by rw [fields p])
  · refine ⟨fun p => ?_,fun p => ?_,?_⟩
    · have := counted p
      rw [fields p]
      grind
    · have := live p
      rw [fields p]
      grind
    · have apart : 0 ≠ cur := fun same => running (same ▸ zero.2)
      simpa [fields 0, apart] using zero

theorem thread_exit_ok (ops : FileOps Obj Dev) (ok : KernelOk k) {tid : Tid}
    (member : tid ∈ (k.PT cur).threads)
    (notLast : cur = initpcb → (k.PT cur).threadCount ≠ 1) :
    ∃ k', sysThreadExit ops k cur tid = some k' ∧ KernelOk k' ∧ (k'.PT cur).pstate ≠ .free ∧
      ∀ p, p ≠ cur → (k'.PT p).pstate = (k.PT p).pstate := by
  have alive : (k.tree cur).pstate = .alive := running_alive ok member
  have running : (k.tree cur).threads ≠ [] := List.ne_nil_of_mem member
  obtain ⟨wf,table,threads⟩ := ok
  have left := threads_left threads member
  have keptTable : TableExact (k.tree.threadLeft cur tid) k.pcbFreelist k.processCount :=
    exact_congr table (fun _ => Iff.rfl) (fun _ _ => rfl)
  by_cases last : (k.PT cur).threadCount = 1
  · have child : 2 ≤ cur.val := by
      have first : cur ≠ initpcb := fun same => notLast same last
      have zero : cur ≠ 0 := fun same => running (same ▸ threads.idle.2)
      have first' : cur.val ≠ 1 := fun same => first (Fin.ext same)
      have zero' : cur.val ≠ 0 := fun same => zero (Fin.ext same)
      omega
    obtain ⟨k',parent,run,is,other,heir,tree,freelist,count⟩ :=
      last_thread_exit ops wf child alive last tid
    have none : (k.tree.threadLeft cur tid cur).threads = [] := by
      have counted := left.counted cur
      have zero : (k.tree.threadLeft cur tid cur).threadCount = 0 := by
        simpa [Tree.threadLeft, Kernel.tree] using sub_eq_zero.mpr last
      exact List.length_eq_zero_iff.mp (by omega)
    have states (p : Pid) : (k'.PT p).pstate = if p = cur then .zombie else (k.PT p).pstate :=
      congrArg Links.pstate (congrFun tree p)
    refine ⟨k',run,⟨?_,?_,?_⟩,by simp [states],fun p apart => by simp [states, apart]⟩
    · exact tree ▸ exited_wf (thread_left_wf wf cur tid) child alive is other heir
    · rw [tree, freelist, count]
      exact exact_exited (thread_left_wf wf cur tid) alive keptTable
    · exact tree ▸ threads_exited left child none
  · obtain ⟨k',run,tree,freelist,count⟩ := other_thread_exit ops last tid
    have states (p : Pid) : (k'.PT p).pstate = (k.PT p).pstate :=
      congrArg Links.pstate (congrFun tree p)
    have alive' : (k.PT cur).pstate = .alive := alive
    refine ⟨k',run,⟨?_,?_,?_⟩,by simp [states, alive'],fun p _ => states p⟩
    · exact tree ▸ thread_left_wf wf cur tid
    · rw [tree, freelist, count]
      exact keptTable
    · exact tree ▸ left

theorem set_exitval_tree (k : Kernel Task Obj Dev) (p : Pid) (exitval : Int) :
    (k.modify p ({ · with exitval := exitval })).tree = k.tree := by
  funext q
  by_cases here : q = p <;> simp [Kernel.tree, here]

theorem booted_exact (files : Files Obj Dev) (task : Task) (argl : Int)
    (args : Option (List UInt8)) : TableExact (boot files task argl args).tree
      (boot files task argl args).pcbFreelist (boot files task argl args).processCount := by
  obtain ⟨tree,freelist,count⟩ := boot_spec files task argl args
  constructor
  · obtain ⟨xs,chain,members⟩ := @FreeList.chain_successors maxProc 2
      (fun p => ((boot files task argl args).tree p).parent)
      (fun p low => by rw [tree p]; exact if_neg (by omega)) 65534 2 rfl (le_refl _)
    refine ⟨xs,freelist ▸ chain,FreeList.chain_nodup chain,fun p => ?_⟩
    rw [members p, tree p]
    by_cases low : p.val ≤ 1
    · simp only [low, if_true, reduceCtorEq, iff_false]
      omega
    · simp only [low, if_false, iff_true]
      omega
  · have two : Finset.univ.filter (fun p => ((boot files task argl args).tree p).pstate ≠ .free) =
        ({0,1} : Finset Pid) := by
      ext p
      have state : ((boot files task argl args).tree p).pstate =
        if p.val ≤ 1 then .alive else .free := congrArg Links.pstate (tree p)
      have zero : p = 0 ↔ p.val = 0 := Fin.ext_iff
      have one : p = 1 ↔ p.val = 1 := Fin.ext_iff
      rw [Finset.mem_filter, state, Finset.mem_insert, Finset.mem_singleton]
      grind
    rw [count, tally, two, Finset.card_pair (by decide)]
    rfl

theorem boot_ok (files : Files Obj Dev) (task : Task) (argl : Int) (args : Option (List UInt8)) :
    KernelOk (boot files task argl args) := by
  obtain ⟨tree,_,_⟩ := boot_spec files task argl args
  refine ⟨boot_wf files task argl args,booted_exact files task argl args,?_⟩
  refine ⟨fun p => ?_,fun p => ?_,?_⟩
  · simp only [tree p]
    split <;> rfl
  · simp only [tree p]
    by_cases first : p = initpcb
    · simp [first, initpcb]
    · simp [first]
  · simp [tree, initpcb]

end KernelProc
