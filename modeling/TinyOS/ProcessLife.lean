import TinyOS.TableInvariant

/- What the process tree says about the end of the system, and what becomes of the programs of
   the processes: every process descends from init, so init is the last one to have a thread. -/
namespace KernelProc
open KernelStreams
variable {Task Obj Dev : Type} {k k' : Kernel Task Obj Dev} {T T' : Tree} {p q cur new : Pid}
  {birth : Pid → Nat}

/-- The processes in use are younger than their parents, and init is older than all others. -/
structure Rooted (T : Tree) (birth : Pid → Nat) : Prop where
  younger : ∀ p q, 2 ≤ p.val → (T p).pstate ≠ .free → (T p).parent = some q →
    birth q < birth p ∧ q ≠ 0
  oldest : ∀ p, 2 ≤ p.val → (T p).pstate ≠ .free → birth initpcb < birth p

theorem rooted_congr (rooted : Rooted T birth)
    (states : ∀ p, (T' p).pstate = .free ↔ (T p).pstate = .free)
    (parents : ∀ p, (T p).pstate ≠ .free → (T' p).parent = (T p).parent) : Rooted T' birth := by
  refine ⟨fun p q child used is => ?_,fun p child used => ?_⟩
  · have used' : (T p).pstate ≠ .free := fun free => used ((states p).mpr free)
    exact rooted.younger p q child used' ((parents p used').symm.trans is)
  · exact rooted.oldest p child (fun free => used ((states p).mpr free))

theorem rooted_execed (rooted : Rooted T birth) (wf : T.WellFormed)
    (unused : (T new).pstate = .free) (apart : cur ≠ 0) (caller : (T cur).pstate = .alive)
    (running : Bool) : ∃ birth', Rooted (T.execed new cur running) birth' := by
  have other : cur ≠ new := by
    rintro rfl
    simp [unused] at caller
  have init : initpcb ≠ new := by
    rintro rfl
    exact absurd wf.initAlive (by simp [unused])
  refine ⟨Function.update birth new (birth cur + birth initpcb + 1),fun p q child used is => ?_,
    fun p child used => ?_⟩
  · rw [execed_pstate] at used
    rw [execed_parent] at is
    by_cases same : p = new
    · subst same
      rw [if_pos rfl, if_neg (by omega)] at is
      cases is
      rw [Function.update_self, Function.update_of_ne other]
      exact ⟨by omega,apart⟩
    · rw [if_neg same] at used is
      obtain ⟨parent,is',alive⟩ := wf.parents p child used
      have apart' : q ≠ new := by
        rintro rfl
        cases is.symm.trans is'
        simp [unused] at alive
      rw [Function.update_of_ne same, Function.update_of_ne apart']
      exact rooted.younger p q child used is
  · rw [execed_pstate] at used
    rw [Function.update_of_ne init]
    by_cases same : p = new
    · rw [same, Function.update_self]
      omega
    · rw [if_neg same] at used
      rw [Function.update_of_ne same]
      exact rooted.oldest p child used

theorem rooted_reaped (rooted : Rooted T birth) (p : Pid) (link : Option Pid) :
    Rooted (T.reaped p link) birth := by
  have kept (q : Pid) (used : (T.reaped p link q).pstate ≠ .free) : q ≠ p := by
    rintro rfl
    simp [Tree.reaped] at used
  refine ⟨fun q r child used is => ?_,fun q child used => ?_⟩
  · have apart := kept q used
    simp only [Tree.reaped, apart, if_false] at used is
    exact rooted.younger q r child used is
  · have apart := kept q used
    simp only [Tree.reaped, apart, if_false] at used
    exact rooted.oldest q child used

theorem rooted_exited {parent : Pid} (rooted : Rooted T birth) (running : (T cur).pstate = .alive) :
    Rooted (T.exited cur parent) birth := by
  have state (p : Pid) : (T.exited cur parent p).pstate = if p = cur then .zombie else (T p).pstate :=
    rfl
  have link (p : Pid) : (T.exited cur parent p).parent =
      if p ∈ (T cur).childrenList then some initpcb else (T p).parent := rfl
  have used' {p : Pid} (used : (T.exited cur parent p).pstate ≠ .free) : (T p).pstate ≠ .free := by
    rw [state] at used
    by_cases same : p = cur
    · rw [same, running]
      decide
    · rwa [if_neg same] at used
  refine ⟨fun p q child used is => ?_,fun p child used => rooted.oldest p child (used' used)⟩
  rw [link] at is
  split at is
  · cases is
    exact ⟨rooted.oldest p child (used' used),by decide⟩
  · exact rooted.younger p q child (used' used) is

/-- When init has no children left there is no other process below it. -/
theorem rooted_alone (rooted : Rooted T birth) (wf : T.WellFormed)
    (childless : (T initpcb).childrenList = []) (p : Pid) (child : 2 ≤ p.val) :
    (T p).pstate = .free := by
  induction h : birth p using Nat.strong_induction_on generalizing p with
  | _ n ih =>
    by_contra used
    obtain ⟨q,is,alive⟩ := wf.parents p child used
    obtain ⟨younger,apart⟩ := rooted.younger p q child used is
    by_cases init : q = initpcb
    · have member := (wf.children p q).mpr ⟨child,used,is⟩
      rw [init, childless] at member
      cases member
    · have child' : 2 ≤ q.val := by
        have zero : q.val ≠ 0 := fun same => apart (Fin.ext same)
        have one : q.val ≠ 1 := fun same => init (Fin.ext same)
        omega
      have free := ih (birth q) (h ▸ younger) q child' rfl
      rw [alive] at free
      cases free

theorem boot_rooted (files : Files Obj Dev) (task : Task) (argl : Int)
    (args : Option (List UInt8)) : Rooted (boot files task argl args).tree (fun _ => 0) := by
  have free (p : Pid) (child : 2 ≤ p.val) : ((boot files task argl args).tree p).pstate = .free := by
    rw [(boot_spec files task argl args).1 p]
    exact if_neg (by omega)
  exact ⟨fun p q child used => absurd (free p child) used,
    fun p child used => absurd (free p child) used⟩

/-- The task of each process and the arguments kept for it. -/
def Kernel.programs (k : Kernel Task Obj Dev) (p : Pid) : Option Task × Option (List UInt8) :=
  ((k.PT p).mainTask,(k.PT p).args)

/- All that Exec keeps of its arguments. -/
def Kernel.images (k : Kernel Task Obj Dev) (p : Pid) : Option Task × Int × Option (List UInt8) :=
  ((k.PT p).mainTask,(k.PT p).argl,(k.PT p).args)

theorem images_programs (k : Kernel Task Obj Dev) :
    k.programs = fun p => ((k.images p).1,(k.images p).2.2) := rfl

theorem programs_same (same : k'.images = k.images) : k'.programs = k.programs := by
  rw [images_programs, images_programs, same]

/-- A part of the PCBs that the links, the states, the streams and the threads do not touch. -/
structure Inert {α : Type} (field : PCB Task → α) : Prop where
  pstate : ∀ b v, field { b with pstate := v } = field b
  parent : ∀ b v, field { b with parent := v } = field b
  childrenList : ∀ b v, field { b with childrenList := v } = field b
  exitedList : ∀ b v, field { b with exitedList := v } = field b
  FIDT : ∀ b v, field { b with FIDT := v } = field b
  threads : ∀ b n ts, field { b with threadCount := n, threads := ts } = field b

def Kernel.values {α : Type} (k : Kernel Task Obj Dev) (field : PCB Task → α) (p : Pid) : α :=
  field (k.PT p)

section Values
variable {α : Type} {field : PCB Task → α}

theorem procs_values (inert : Inert field) (same : k'.procs = k.procs) :
    k'.values field = k.values field := by
  funext p
  simp only [Kernel.values]
  rw [procs_table same p, inert.FIDT]

theorem modify_values (k : Kernel Task Obj Dev) (p : Pid) {f : PCB Task → PCB Task}
    (keeps : ∀ b, field (f b) = field b) : (k.modify p f).values field = k.values field := by
  funext q
  by_cases here : q = p
  · simp [Kernel.values, here, keeps]
  · simp [Kernel.values, here]

theorem exec_values (inert : Inert field) (head : k.pcbFreelist = some new) (cur : Pid)
    (call : Option Task) (argl : Int) (args : Option (List UInt8))
    (reads : ∀ b c : PCB Task, field b = field c →
      field { b with mainTask := call, argl := argl, args := args.map (List.take argl.toNat) } =
        field { c with mainTask := call, argl := argl, args := args.map (List.take argl.toNat) }) :
    (sysExec k cur call argl args).2.values field = Function.update (k.values field) new
      (field { k.PT new with
        mainTask := call, argl := argl, args := args.map (List.take argl.toNat) }) := by
  set k₁ : Kernel Task Obj Dev := { k.modify new ({ · with pstate := .alive }) with
    pcbFreelist := ((k.modify new ({ · with pstate := .alive })).PT new).parent
    processCount := k.processCount + 1 } with acquired
  have run : (sysExec k cur call argl args).2 =
      startMainThread (setProgram (attachChild k₁ cur new) new call argl args) new call := by
    simp only [sysExec, acquirePCB, head]
    rfl
  have first : k₁.values field = k.values field :=
    modify_values k new (f := ({ · with pstate := .alive })) (fun b => inert.pstate b _)
  have attached : (attachChild k₁ cur new).values field = k₁.values field := by
    unfold attachChild
    split
    · exact modify_values k₁ new (fun b => inert.parent b _)
    · exact (procs_values inert (inherit_procs _ cur new)).trans
        ((modify_values _ cur (fun b => inert.childrenList b _)).trans
          (modify_values _ new (fun b => inert.parent b _)))
  have started (k : Kernel Task Obj Dev) :
      (startMainThread k new call).values field = k.values field := by
    cases call with
    | none => rfl
    | some task =>
      exact modify_values k new (f := fun b =>
        { b with threadCount := b.threadCount + 1, threads := b.threads ++ [0] })
        (fun b => inert.threads b _ _)
  rw [run, started]
  funext p
  have same := congrFun (attached.trans first) p
  by_cases here : p = new
  · subst here
    simpa [Kernel.values, setProgram] using reads _ _ same
  · simpa [Kernel.values, setProgram, here] using same

theorem cleanup_values (inert : Inert field) (k : Kernel Task Obj Dev) (p : Pid) :
    (cleanupZombie k p).2.values field = k.values field := by
  funext q
  have children := inert.childrenList (k.PT q) ((k.PT q).childrenList.erase p)
  have exited := inert.exitedList
    { k.PT q with childrenList := (k.PT q).childrenList.erase p } ((k.PT q).exitedList.erase p)
  have unlinked : field ((unlinkChild k p).PT q) = field (k.PT q) := exited.trans children
  by_cases here : q = p
  · subst here
    have freed := inert.pstate ((unlinkChild k q).PT q) .free
    have linked := inert.parent { (unlinkChild k q).PT q with pstate := .free }
      (unlinkChild k q).pcbFreelist
    simpa [cleanupZombie, releasePCB, Kernel.values] using (linked.trans freed).trans unlinked
  · simpa [cleanupZombie, releasePCB, Kernel.values, here] using unlinked

theorem reparent_values (inert : Inert field) (cur : Pid) (xs : List Pid) :
    ∀ k : Kernel Task Obj Dev, (reparentLoop cur xs k).values field = k.values field := by
  induction xs with
  | nil => exact fun _ => rfl
  | cons child rest ih =>
    intro k
    exact (ih _).trans ((modify_values _ initpcb (fun b => inert.childrenList b _)).trans
      ((modify_values _ child (fun b => inert.parent b _)).trans
        (modify_values k cur (fun b => inert.childrenList b _))))

theorem leave_values (inert : Inert field) (run : leaveTree k cur = some k') :
    k'.values field = k.values field := by
  unfold leaveTree at run
  split at run
  · simp only [joinExited, Option.bind_eq_bind, Option.bind_eq_some_iff, Option.some.injEq] at run
    obtain ⟨parent,_,rfl⟩ := run
    have appended (k : Kernel Task Obj Dev) : (appendExited k cur).values field = k.values field := by
      unfold appendExited
      split
      · rfl
      · exact (modify_values _ cur (f := ({ · with exitedList := [] }))
          (fun b => inert.exitedList b _)).trans (modify_values k initpcb (f := fun b =>
            { b with exitedList := b.exitedList ++ (k.PT cur).exitedList })
            (fun b => inert.exitedList b _))
    exact (modify_values _ parent (f := fun b => { b with exitedList := cur :: b.exitedList })
      (fun b => inert.exitedList b _)).trans ((appended _).trans (reparent_values inert cur _ k))
  · cases run
    rfl

/-- The exit of a thread keeps the values, but for the arguments of a process that ends. -/
theorem exit_values (inert : Inert field) (ops : FileOps Obj Dev) {tid : Tid}
    (reads : ∀ b c : PCB Task, field b = field c →
      field { b with args := none } = field { c with args := none })
    (run : sysThreadExit ops k cur tid = some k') :
    k'.values field = if (k.PT cur).threadCount = 1 then
      Function.update (k.values field) cur (field { k.PT cur with args := none })
    else k.values field := by
  have left : (leaveProcess k cur tid).values field = k.values field :=
    modify_values k cur (fun b => inert.threads b _ _)
  have count : ((leaveProcess k cur tid).PT cur).threadCount = (k.PT cur).threadCount - 1 := by
    simp [leaveProcess]
  simp only [sysThreadExit, count] at run
  by_cases last : (k.PT cur).threadCount = 1
  · rw [if_pos (by omega)] at run
    rw [if_pos last]
    simp only [exitProcess, Option.bind_eq_bind, Option.bind_eq_some_iff] at run
    obtain ⟨k₁,leave,run⟩ := run
    split at run
    · cases run
      have before := (leave_values inert leave).trans left
      have cleared := procs_values inert
        (clear_procs ops (k₁.modify cur ({ · with args := none })) cur)
      have ended := modify_values (clearFIDT ops (k₁.modify cur ({ · with args := none })) cur) cur
        (f := ({ · with pstate := .zombie })) (fun b => inert.pstate b _)
      refine ended.trans (cleared.trans ?_)
      funext p
      have same := congrFun before p
      by_cases here : p = cur
      · subst here
        simpa [Kernel.values] using reads _ _ same
      · simpa [Kernel.values, here] using same
    · cases run
  · rw [if_neg (by omega)] at run
    rw [if_neg last]
    cases run
    exact left

end Values

def PCB.image (b : PCB Task) : Option Task × Int × Option (List UInt8) :=
  (b.mainTask,b.argl,b.args)

theorem images_inert : Inert (@PCB.image Task) :=
  ⟨fun _ _ => rfl,fun _ _ => rfl,fun _ _ => rfl,fun _ _ => rfl,fun _ _ => rfl,fun _ _ _ => rfl⟩

theorem procs_images (same : k'.procs = k.procs) : k'.images = k.images :=
  procs_values images_inert same

theorem procs_programs (same : k'.procs = k.procs) : k'.programs = k.programs :=
  programs_same (procs_images same)

theorem modify_images (k : Kernel Task Obj Dev) (p : Pid) {f : PCB Task → PCB Task}
    (keeps : ∀ b, (f b).mainTask = b.mainTask ∧ (f b).argl = b.argl ∧ (f b).args = b.args) :
    (k.modify p f).images = k.images := by
  change (k.modify p f).values PCB.image = k.values PCB.image
  refine modify_values k p (fun b => ?_)
  obtain ⟨task,argl,args⟩ := keeps b
  simp only [PCB.image, task, argl, args]

theorem modify_programs (k : Kernel Task Obj Dev) (p : Pid) {f : PCB Task → PCB Task}
    (keeps : ∀ b, (f b).mainTask = b.mainTask ∧ (f b).argl = b.argl ∧ (f b).args = b.args) :
    (k.modify p f).programs = k.programs :=
  programs_same (modify_images k p keeps)

theorem exec_images (head : k.pcbFreelist = some new) (cur : Pid) (call : Option Task)
    (argl : Int) (args : Option (List UInt8)) :
    (sysExec k cur call argl args).2.images =
      Function.update k.images new (call,argl,args.map (List.take argl.toNat)) :=
  exec_values images_inert head cur call argl args (fun _ _ _ => rfl)

theorem exec_programs (head : k.pcbFreelist = some new) (cur : Pid) (call : Option Task)
    (argl : Int) (args : Option (List UInt8)) :
    (sysExec k cur call argl args).2.programs =
      Function.update k.programs new (call,args.map (List.take argl.toNat)) := by
  rw [images_programs, exec_images head]
  funext p
  by_cases here : p = new
  · simp [here]
  · simp [here, images_programs]

theorem boot_images (files : Files Obj Dev) (task : Task) (argl : Int)
    (args : Option (List UInt8)) : (boot files task argl args).images =
      Function.update (fun _ => (none,0,none)) initpcb
        (some task,argl,args.map (List.take argl.toNat)) := by
  have idle := @exec_images Task Obj Dev (initializeProcesses Task files) 0 rfl 0 none 0 none
  have init := @exec_images Task Obj Dev (sysExec (initializeProcesses Task files) 0 none 0 none).2
    initpcb rfl 0 (some task) argl args
  refine init.trans (congrArg (Function.update · initpcb _) (idle.trans ?_))
  exact Function.update_eq_self 0
    (fun _ : Pid => ((none,0,none) : Option Task × Int × Option (List UInt8)))

theorem boot_programs (files : Files Obj Dev) (task : Task) (argl : Int)
    (args : Option (List UInt8)) : (boot files task argl args).programs =
      Function.update (fun _ => (none,none)) initpcb
        (some task,args.map (List.take argl.toNat)) := by
  rw [images_programs, boot_images]
  funext p
  by_cases here : p = initpcb
  · simp [here]
  · simp [here]

theorem cleanup_images (k : Kernel Task Obj Dev) (p : Pid) :
    (cleanupZombie k p).2.images = k.images := cleanup_values images_inert k p

theorem cleanup_programs (k : Kernel Task Obj Dev) (p : Pid) :
    (cleanupZombie k p).2.programs = k.programs :=
  programs_same (cleanup_images k p)

/-- The exit of a thread keeps the programs, but for the arguments of a process that ends. -/
theorem exit_images (ops : FileOps Obj Dev) {tid : Tid}
    (run : sysThreadExit ops k cur tid = some k') :
    k'.images = if (k.PT cur).threadCount = 1 then
      Function.update k.images cur ((k.PT cur).mainTask,(k.PT cur).argl,none) else k.images := by
  refine exit_values images_inert ops (fun b c same => ?_) run
  simp only [PCB.image, Prod.mk.injEq] at same
  simp only [PCB.image, same.1, same.2.1]

theorem exit_programs (ops : FileOps Obj Dev) {tid : Tid}
    (run : sysThreadExit ops k cur tid = some k') :
    k'.programs = if (k.PT cur).threadCount = 1 then
      Function.update k.programs cur ((k.PT cur).mainTask,none) else k.programs := by
  rw [images_programs, exit_images ops run]
  funext p
  split
  · by_cases here : p = cur
    · simp [here]
    · simp [here, images_programs]
  · rfl

end KernelProc
