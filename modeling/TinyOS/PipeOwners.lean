import TinyOS.TableFlow

/- Which processes refer to the ends of a pipe. Once the pipe is there, its ends come to a process
   only by inheritance. -/
namespace PlainPipe
open KernelStreams KernelProc KernelPipe KernelThreads Tally
variable {Task Obj Dev : Type} {s s' : PipesRun Task Obj Dev} {a : PipesAction Task Obj Dev}
  {r : PipeRef} {side : Side} {f : FcbRef} {i : Fid} {p q : Pid} {t u : Thread} {c : Call}

section Actions

def PipesAction.caller : PipesAction Task Obj Dev → Option Thread
  | .call a => a.caller
  | .pipe t | .transfer t _ _ | .resume t | .endTransfer t _ => some t
  | .device _ => none

/- The parent and the new process of a successful Exec. -/
def PipesRun.execed (s : PipesRun Task Obj Dev) : PipesAction Task Obj Dev → Option (Pid × Pid)
  | .call a => s.files.execed a
  | _ => none

/- What a step is to the file tables. -/
def PipesRun.fileAction (s : PipesRun Task Obj Dev) :
    PipesAction Task Obj Dev → Option (FileAction Task (Stream Obj))
  | .call a => some a
  | .pipe t => some (.pipe t (.pipe s.memory.nextPipe .reader) (.pipe s.memory.nextPipe .writer))
  | .transfer t fid _ => some (.startTransfer t fid)
  | .endTransfer t f => some (.endTransfer t f)
  | .resume _ | .device _ => none

def withMemory (files : FileRun Task (Stream Obj) (Memory Dev)) (m : Memory Dev) :
    FileRun Task (Stream Obj) (Memory Dev) :=
  { files with kernel := { files.kernel with files := { files.kernel.files with device := m } } }

theorem end_pass_files (s : PipesRun Task Obj Dev) (t : Thread) (r : PipeRef) (c : Call)
    (result : Pass × PipeCB) : ∃ m, (endPass s t r c result).files = withMemory s.files m := by
  obtain ⟨pass,p⟩ := result
  cases pass with
  | sleeps cv => exact ⟨_,rfl⟩
  | returns value data broadcast => exact ⟨_,rfl⟩

theorem start_method_files (s : PipesRun Task Obj Dev) (t : Thread) (c : Call) (o : Stream Obj) :
    ∃ m, (startMethod s t c o).files = withMemory s.files m := by
  cases o with
  | other o => exact ⟨s.memory,rfl⟩
  | pipe r side =>
    simp only [startMethod]
    split
    · exact end_pass_files ..
    · exact ⟨s.memory,rfl⟩

/-- A step is one on the file tables, or leaves them alone; the pipes are in the memory. -/
theorem step_files (ops : FileOps Obj Dev) (enabled : PipesEnabled s a)
    (run : pipesExec ops s a = some s') : ∃ m, match s.fileAction a with
      | some b => FileEnabled s.files b ∧ ∃ files, fileExec (streamOps ops) s.files b = some files ∧
          s'.files = withMemory files m
      | none => s'.files = withMemory s.files m := by
  cases a with
  | call b =>
    obtain ⟨files,exec,rfl⟩ := Option.map_eq_some_iff.mp run
    exact ⟨files.kernel.files.device,enabled.1,files,exec,rfl⟩
  | pipe t =>
    cases run
    cases made : sysPipe s.files.kernel t.1 (.pipe s.memory.nextPipe .reader)
      (.pipe s.memory.nextPipe .writer) with
    | mk result k =>
      simp only [openPipe, made]
      have exec : fileExec (streamOps ops) s.files (.pipe t (.pipe s.memory.nextPipe .reader)
          (.pipe s.memory.nextPipe .writer)) = some { s.files with kernel := k } := by
        simp only [fileExec, made]
      cases result with
      | none => exact ⟨k.files.device,enabled,_,exec,rfl⟩
      | some fids => exact ⟨_,enabled,_,exec,rfl⟩
  | transfer t fid c =>
    simp only [pipesExec, Option.bind_eq_bind, Option.bind_eq_some_iff] at run
    obtain ⟨files,exec,run⟩ := run
    split at run
    · cases run
      exact ⟨files.kernel.files.device,enabled,files,exec,rfl⟩
    · cases run
      obtain ⟨m,same⟩ := start_method_files { s with files := files } t c
        (files.kernel.files.FT _).stream
      exact ⟨m,enabled,files,exec,same⟩
  | resume t =>
    simp only [pipesExec, Option.bind_eq_bind, Option.bind_eq_some_iff, Option.some.injEq] at run
    obtain ⟨⟨r,c⟩,_,rfl⟩ := run
    obtain ⟨m,same⟩ := end_pass_files
      (s.setMemory { s.memory with waits := s.memory.waits.resume t }) t r c _
    exact ⟨m,same⟩
  | endTransfer t f =>
    simp only [pipesExec] at run
    obtain ⟨files,exec,rfl⟩ := Option.map_eq_some_iff.mp run
    exact ⟨files.kernel.files.device,enabled.1,files,exec,rfl⟩
  | device d =>
    cases run
    exact ⟨_,rfl⟩

theorem execed_files {b : FileAction Task (Stream Obj)} (is : s.fileAction a = some b) :
    s.execed a = s.files.execed b := by
  cases a with
  | call b' =>
    cases is
    rfl
  | resume t | device d => cases is
  | _ =>
    cases is
    rfl

theorem caller_files {b : FileAction Task (Stream Obj)} (is : s.fileAction a = some b) :
    b.caller = a.caller := by
  cases a with
  | resume t | device d => cases is
  | _ =>
    cases is
    rfl

theorem file_execed {files : FileRun Task Obj Dev} {b : FileAction Task Obj}
    (made : files.execed b = some (p,q)) : ∃ t call argl args, b = .exec t call argl args ∧
      p = t.1 ∧ files.kernel.pcbFreelist = some q := by
  cases b with
  | exec t call argl args =>
    obtain ⟨new,result,same⟩ := Option.map_eq_some_iff.mp made
    cases same
    refine ⟨t,call,argl,args,rfl,rfl,?_⟩
    cases head : files.kernel.pcbFreelist with
    | none =>
      rw [exec_full head] at result
      cases result
    | some new' =>
      obtain ⟨k,exec,_⟩ := exec_spec head t.1 call argl args
      rw [exec] at result
      exact result
  | _ => cases made

theorem execed_caller (made : s.execed a = some (p,q)) : ∃ t, a.caller = some t ∧ p = t.1 := by
  cases a with
  | call b =>
    obtain ⟨t,_,_,_,rfl,same,_⟩ := file_execed made
    exact ⟨t,rfl,same⟩
  | _ => cases made

theorem execed_free (ok : KernelOk s.files.kernel) (made : s.execed a = some (p,q)) :
    (s.files.kernel.PT q).pstate = .free := by
  cases a with
  | call b =>
    obtain ⟨_,_,_,_,_,_,head⟩ := file_execed made
    exact head_unused ok head
  | _ => cases made

/-- Exec is called by a running thread. -/
theorem execed_ok (inv : PipesInv s) (enabled : PipesEnabled s a)
    (made : s.execed a = some (p,q)) : KernelOk s.files.kernel := by
  cases a with
  | call b =>
    obtain ⟨t,_,_,_,rfl,_,_⟩ := file_execed made
    have idle : s.files.Idle t := enabled.1
    exact (running_files inv.files idle.1).1.ok
  | _ => cases made

/-- A process with a running thread is not started. -/
theorem running_execed (inv : PipesInv s) (idle : s.files.Idle u) :
    s.execed a ≠ some (p,u.1) := by
  intro made
  have ok := (running_files inv.files idle.1).1.ok
  have free := execed_free ok made
  rw [running_alive ok idle.1] at free
  cases free

end Actions

section Owners

/- The process has the FCB in its file table, or one of its threads is inside Read or Write. -/
def Refers (s : PipesRun Task Obj Dev) (q : Pid) (f : FcbRef) : Prop :=
  (∃ i, (s.files.kernel.PT q).FIDT i = some f) ∨ ∃ tid, ((q,tid),f) ∈ s.files.inUse

def Owns (s : PipesRun Task Obj Dev) (q : Pid) (r : PipeRef) (side : Side) : Prop :=
  ∃ f, Refers s q f ∧ stream s f = .pipe r side

theorem refers_references (refers : Refers s q f) : 0 < references s.files f := by
  rcases refers with ⟨i,entry⟩ | ⟨tid,member⟩
  · have pos : 0 < occurrences (fileTable s.files.kernel) f := occurrences_pos (k := (q,i)) entry
    unfold references
    omega
  · exact held_references member

theorem references_refers (used : 0 < references s.files f) : ∃ q, Refers s q f := by
  by_cases entries : occurrences (fileTable s.files.kernel) f = 0
  · have held : 0 < holders s.files f := by
      unfold references at used
      omega
    obtain ⟨⟨t,g⟩,member,same⟩ := List.countP_pos_iff.mp held
    obtain rfl : g = f := by simpa using same
    exact ⟨t.1,Or.inr ⟨t.2,member⟩⟩
  · by_contra nobody
    refine entries (occurrences_eq_zero.mpr fun x entry => nobody ⟨x.1,Or.inl ⟨x.2,entry⟩⟩)

/-- An end of a pipe is open as long as somebody owns it. -/
theorem open_iff_owned (inv : PipesInv s) (made : r < s.memory.nextPipe) :
    side.fcb (s.memory.pipes r) ≠ none ↔ ∃ q, Owns s q r side := by
  constructor
  · intro isOpen
    obtain ⟨f,fcb⟩ := Option.ne_none_iff_exists'.mp isOpen
    obtain ⟨here,used⟩ := (inv.ends r side f).mpr ⟨made,fcb⟩
    obtain ⟨q,refers⟩ := references_refers used
    exact ⟨q,f,refers,here⟩
  · rintro ⟨q,f,refers,here⟩
    rw [((inv.ends r side f).mp ⟨here,refers_references refers⟩).2]
    exact Option.some_ne_none f

theorem owned_made (inv : PipesInv s) (owns : Owns s q r side) : r < s.memory.nextPipe := by
  obtain ⟨f,refers,here⟩ := owns
  exact ((inv.ends r side f).mp ⟨here,refers_references refers⟩).1

theorem dead_refers (inv : PipesInv s) (users : UsersRun s.files)
    (dead : (s.files.kernel.PT q).pstate ≠ .alive) : ¬ Refers s q f := by
  rintro (⟨i,entry⟩ | ⟨tid,member⟩)
  · rw [inv.files.closed q dead i] at entry
    cases entry
  · have running := users _ member
    exact dead (running_alive (running_files inv.files running).1.ok running)

theorem stream_kept (ops : FileOps Obj Dev) (inv : PipesInv s) (enabled : PipesEnabled s a)
    (run : pipesExec ops s a = some s') (used : 0 < references s.files f) :
    stream s' f = stream s f := by
  obtain ⟨m,step⟩ := step_files ops enabled run
  cases is : s.fileAction a with
  | none =>
    rw [is] at step
    simp only [stream, step, withMemory]
  | some b =>
    rw [is] at step
    obtain ⟨enabled',files,exec,same⟩ := step
    obtain ⟨files',exec',inv',kind⟩ := settled_step (streamOps ops) inv.files enabled'
    obtain rfl : files' = files := Option.some.inj (exec'.symm.trans exec)
    simp only [stream, same, withMemory]
    rcases kind with closing | opening
    · exact closing.streams f
    · exact opening.kept f ((opened_references inv.files inv' opening f).2 used)

theorem users_kept (ops : FileOps Obj Dev) (inv : PipesInv s) (users : UsersRun s.files)
    (enabled : PipesEnabled s a) (run : pipesExec ops s a = some s') : UsersRun s'.files := by
  obtain ⟨m,step⟩ := step_files ops enabled run
  cases is : s.fileAction a with
  | none =>
    rw [is] at step
    rw [step]
    exact users
  | some b =>
    rw [is] at step
    obtain ⟨enabled',files,exec,same⟩ := step
    have users' := users_step (streamOps ops) inv.files users enabled' exec
    rw [same]
    exact users'

theorem users_reach (ops : FileOps Obj Dev) (reach : (pipesSystem Task ops).Reach s) :
    UsersRun s.files := by
  induction reach with
  | start first =>
    obtain ⟨blank,pipes,others,task,argl,args,rfl⟩ := first
    exact nofun
  | step before move users =>
    exact users_kept ops (pipes_reach_inv ops before) users move.1 move.2

/-- Inside Read and Write are those that have been there and the one that makes the call. -/
theorem user_before {ops : FileOps Obj Dev} (enabled : PipesEnabled s a)
    (run : pipesExec ops s a = some s') (member : (u,f) ∈ s'.files.inUse) :
    (u,f) ∈ s.files.inUse ∨ ∃ fid c, a = .transfer u fid c := by
  obtain ⟨m,step⟩ := step_files ops enabled run
  cases is : s.fileAction a with
  | none =>
    rw [is] at step
    rw [step] at member
    exact Or.inl member
  | some b =>
    rw [is] at step
    obtain ⟨enabled',files,exec,same⟩ := step
    rw [same] at member
    refine (user_origin enabled' exec member).imp_right fun ⟨_,⟨fid,transfer⟩,_⟩ => ?_
    subst transfer
    cases a with
    | call b =>
      cases is
      exact absurd enabled.2 (by simp [Ordinary])
    | transfer v fid' c =>
      cases is
      exact ⟨fid,c,rfl⟩
    | _ => cases is

/-- A thread runs in user code until it exits or calls Read or Write. -/
theorem idle_kept (ops : FileOps Obj Dev) (inv : PipesInv s) (enabled : PipesEnabled s a)
    (run : pipesExec ops s a = some s') (stays : a ≠ .call (.threadExit u))
    (outside : ∀ fid c, a ≠ .transfer u fid c) (idle : s.files.Idle u) : s'.files.Idle u := by
  have unused : u ∉ s'.files.inUse.map Prod.fst := by
    intro member
    obtain ⟨⟨v,g⟩,inside,rfl⟩ := List.mem_map.mp member
    rcases user_before enabled run inside with before | ⟨fid,c,transfer⟩
    · exact idle.2 (List.mem_map_of_mem before)
    · exact outside fid c transfer
  refine ⟨?_,unused⟩
  obtain ⟨m,step⟩ := step_files ops enabled run
  cases is : s.fileAction a with
  | none =>
    rw [is] at step
    rw [step]
    exact idle.1
  | some b =>
    rw [is] at step
    obtain ⟨enabled',files,exec,same⟩ := step
    have member : u.2 ∈ (files.kernel.PT u.1).threads := by
      refine thread_stays (streamOps ops) inv.files enabled' exec ?_ idle.1
      rintro rfl
      cases a with
      | call b =>
        cases is
        exact stays rfl
      | _ => cases is
    rw [same]
    exact member

/-- The ends of a pipe that is new belong to the one who has called Pipe. -/
theorem owns_fresh (ops : FileOps Obj Dev) (inv : PipesInv s) (enabled : PipesEnabled s (.pipe t))
    (run : pipesExec ops s (.pipe t) = some s') (fresh : s.memory.nextPipe ≤ r)
    (owns : Owns s' q r side) : q = t.1 := by
  obtain ⟨f,refers,here⟩ := owns
  by_contra apart
  have old : Refers s q f := by
    rcases refers with ⟨i,entry⟩ | ⟨tid,member⟩
    · refine Or.inl ⟨i,?_⟩
      obtain ⟨m,enabled',files,exec,same⟩ := step_files ops enabled run
      have kept := (step_flow (streamOps ops) inv.files enabled' exec).others q
        (by rintro u caller rfl; cases caller; exact apart rfl) (fun p made => by cases made)
      rw [same] at entry
      exact (congrFun kept i).symm.trans entry
    · refine Or.inr ⟨tid,(user_before enabled run member).resolve_right ?_⟩
      rintro ⟨fid,c,transfer⟩
      cases transfer
  have same := stream_kept ops inv enabled run (refers_references old)
  exact absurd (owned_made inv ⟨f,old,same.symm.trans here⟩) (Nat.not_lt.mpr fresh)

/-- A process that owns an end after a step has owned it before, or has been started by an owner. -/
theorem owns_step (ops : FileOps Obj Dev) (inv : PipesInv s) (users : UsersRun s.files)
    (enabled : PipesEnabled s a) (run : pipesExec ops s a = some s')
    (made : r < s.memory.nextPipe) (owns : Owns s' q r side) :
    (∀ p, s.execed a ≠ some (p,q)) ∧ Owns s q r side ∨
      ∃ p, s.execed a = some (p,q) ∧ Owns s p r side := by
  obtain ⟨f,refers,here⟩ := owns
  obtain ⟨s'',run',_,later⟩ := pipes_step ops inv enabled
  obtain rfl : s'' = s' := Option.some.inj (run'.symm.trans run)
  obtain ⟨before,used⟩ := later.ends r side f made ⟨here,refers_references refers⟩
  have origin : Refers s q f ∨ ∃ p, s.execed a = some (p,q) ∧ Refers s p f := by
    obtain ⟨m,step⟩ := step_files ops enabled run
    cases is : s.fileAction a with
    | none =>
      rw [is] at step
      simp only [Refers, step] at refers
      exact Or.inl refers
    | some b =>
      rw [is] at step
      obtain ⟨enabled',files,exec,same⟩ := step
      simp only [Refers, same] at refers
      rcases refers with ⟨i,entry⟩ | ⟨tid,member⟩
      · rcases (step_flow (streamOps ops) inv.files enabled' exec).entries q i f entry with
          old | ⟨p,child,old⟩ | opened
        · exact Or.inl (Or.inl old)
        · exact Or.inr ⟨p,(execed_files is).trans child,Or.inl old⟩
        · obtain ⟨files',exec',inv',kind⟩ := settled_step (streamOps ops) inv.files enabled'
          obtain rfl : files' = files := Option.some.inj (exec'.symm.trans exec)
          rcases kind with closing | opening
          · exact absurd (congrFun closing.opens f) opened
          · exact absurd ((opened_references inv.files inv' opening f).2 used) opened
      · rcases user_origin enabled' exec member with old | ⟨_,_,old⟩
        · exact Or.inl (Or.inr ⟨tid,old⟩)
        · exact Or.inl (Or.inl old)
  by_cases child : ∃ p, s.execed a = some (p,q)
  · obtain ⟨p,child⟩ := child
    have dead : (s.files.kernel.PT q).pstate ≠ .alive := by
      simp [execed_free (execed_ok inv enabled child) child]
    obtain ⟨p',child',refers'⟩ := origin.resolve_left (dead_refers inv users dead)
    exact Or.inr ⟨p',child',f,refers',before⟩
  · have apart (p : Pid) : s.execed a ≠ some (p,q) := fun same => child ⟨p,same⟩
    exact Or.inl ⟨apart,f,origin.resolve_right (fun ⟨p,same,_⟩ => apart p same),before⟩

end Owners

section Views
variable {T : Fid → Option FcbRef} {null : Obj}

/- A file table with the streams behind its entries. -/
abbrev View (Obj : Type) := Fid → Option (FcbRef × Stream Obj)

def view (s : PipesRun Task Obj Dev) (p : Pid) : View Obj :=
  fun i => ((s.files.kernel.PT p).FIDT i).map fun f => (f,stream s f)

theorem view_refers {e : FcbRef × Stream Obj} (entry : view s q i = some e) :
    Refers s q e.1 ∧ stream s e.1 = e.2 := by
  obtain ⟨f,here,rfl⟩ := Option.map_eq_some_iff.mp entry
  exact ⟨Or.inl ⟨i,here⟩,rfl⟩

theorem view_none : view s q i = none ↔ (s.files.kernel.PT q).FIDT i = none := by
  simp [view]

/-- The streams of the FCBs in use stay the same, so that a view changes with the table only. -/
theorem view_table (ops : FileOps Obj Dev) (inv : PipesInv s) (enabled : PipesEnabled s a)
    (run : pipesExec ops s a = some s') (old : ∀ i f, T i = some f → 0 < references s.files f)
    (i : Fid) (table : (s'.files.kernel.PT q).FIDT i = T i) :
    view s' q i = (T i).map fun f => (f,stream s f) := by
  unfold view
  rw [table]
  cases entry : T i with
  | none => rfl
  | some f => simp only [Option.map_some, stream_kept ops inv enabled run (old i f entry)]

theorem table_references (i : Fid) (f : FcbRef) (entry : (s.files.kernel.PT q).FIDT i = some f) :
    0 < references s.files f := refers_references (Or.inl ⟨i,entry⟩)

/-- The view of a process that takes no step and is not being started. -/
theorem view_others (ops : FileOps Obj Dev) (inv : PipesInv s) (enabled : PipesEnabled s a)
    (run : pipesExec ops s a = some s') (apart : ∀ t ∈ a.caller, t.1 ≠ q)
    (old : ∀ p, s.execed a ≠ some (p,q)) : view s' q = view s q := by
  obtain ⟨m,step⟩ := step_files ops enabled run
  have table : (s'.files.kernel.PT q).FIDT = (s.files.kernel.PT q).FIDT := by
    cases is : s.fileAction a with
    | none =>
      rw [is] at step
      rw [step]
      rfl
    | some b =>
      rw [is] at step
      obtain ⟨enabled',files,exec,same⟩ := step
      rw [same]
      refine (step_flow (streamOps ops) inv.files enabled' exec).others q ?_ fun p made => ?_
      · rw [caller_files is]
        exact apart
      · exact old p ((execed_files is).trans made)
  funext i
  exact view_table ops inv enabled run table_references i (congrFun table i)

theorem call_files {ops : FileOps Obj Dev} {b : FileAction Task (Stream Obj)}
    (run : pipesExec ops s (.call b) = some s') :
    fileExec (streamOps ops) s.files b = some s'.files := by
  simp only [pipesExec] at run
  obtain ⟨files,exec,rfl⟩ := Option.map_eq_some_iff.mp run
  exact exec

/-- A new process starts with the view of its parent, and the other ones keep theirs. -/
theorem view_exec (ops : FileOps Obj Dev) (inv : PipesInv s) {call : Option Task} {argl : Int}
    {args : Option (List UInt8)} (enabled : PipesEnabled s (.call (.exec t call argl args)))
    (run : pipesExec ops s (.call (.exec t call argl args)) = some s') :
    (∀ q, s.execed (.call (.exec t call argl args)) = some (t.1,q) → view s' q = view s t.1) ∧
    ∀ q, s.execed (.call (.exec t call argl args)) ≠ some (t.1,q) → view s' q = view s q := by
  have idle : s.files.Idle t := enabled.1
  have ok := (running_files inv.files idle.1).1.ok
  have alive := running_alive ok idle.1
  have files := Option.some.inj (call_files run)
  cases head : s.files.kernel.pcbFreelist with
  | none =>
    have none (q : Pid) : s.execed (.call (.exec t call argl args)) ≠ some (t.1,q) := by
      simp [PipesRun.execed, FileRun.execed, exec_full head]
    refine ⟨fun q made => absurd made (none q),fun q _ => funext fun i => ?_⟩
    refine view_table ops inv enabled run table_references i ?_
    simp only [← files, exec_full head]
  | some new =>
    obtain ⟨k,made,_⟩ := exec_spec head t.1 call argl args
    have execed : s.execed (.call (.exec t call argl args)) = some (t.1,new) := by
      simp only [PipesRun.execed, FileRun.execed, made, Option.map_some]
    refine ⟨fun q child => funext fun i => ?_,fun q other => funext fun i => ?_⟩
    · rw [execed] at child
      cases child
      refine view_table ops inv enabled run table_references i ?_
      rw [← files]
      exact congrFun (exec_inherits ok head alive call argl args) i
    · have apart : q ≠ new := fun here => other (here ▸ execed)
      refine view_table ops inv enabled run table_references i ?_
      rw [← files]
      exact congrFun (exec_tables ok inv.files.balanced inv.files.closed head t.1 call argl args
        apart) i

/-- One entry of the table is overwritten with a reference that there is already. -/
theorem view_update (ops : FileOps Obj Dev) (inv : PipesInv s) (enabled : PipesEnabled s a)
    (run : pipesExec ops s a = some s') {j : Fid} {v : Option FcbRef}
    (table : (s'.files.kernel.PT q).FIDT = Function.update (s.files.kernel.PT q).FIDT j v)
    (old : ∀ f, v = some f → 0 < references s.files f) :
    view s' q = Function.update (view s q) j (v.map fun f => (f,stream s f)) := by
  funext i
  have now := view_table ops inv enabled run
    (T := Function.update (s.files.kernel.PT q).FIDT j v) (fun i f entry => ?_) i
    (congrFun table i)
  · rw [now]
    by_cases here : i = j
    · rw [here, Function.update_self, Function.update_self]
    · rw [Function.update_of_ne here, Function.update_of_ne here]
      rfl
  · by_cases here : i = j
    · rw [here, Function.update_self] at entry
      exact old f entry
    · rw [Function.update_of_ne here] at entry
      exact table_references i f entry

theorem view_dup2 (ops : FileOps Obj Dev) (inv : PipesInv s) {i j : Fid}
    (enabled : PipesEnabled s (.call (.dup2 t i.val j.val)))
    (run : pipesExec ops s (.call (.dup2 t i.val j.val)) = some s') (open' : view s t.1 i ≠ none) :
    view s' t.1 = Function.update (view s t.1) j (view s t.1 i) := by
  have files := Option.some.inj (call_files run)
  refine view_update ops inv enabled run ?_ (table_references i)
  rw [← files]
  exact dup2_fids (streamOps ops) i j fun none => open' (view_none.mpr none)

theorem view_close (ops : FileOps Obj Dev) (inv : PipesInv s) {i : Fid}
    (enabled : PipesEnabled s (.call (.close t i.val)))
    (run : pipesExec ops s (.call (.close t i.val)) = some s') :
    view s' t.1 = Function.update (view s t.1) i none := by
  have files := Option.some.inj (call_files run)
  refine view_update ops inv enabled run (v := none) ?_ (fun f none => by cases none)
  rw [← files]
  exact close_fid (streamOps ops) s.files.kernel t.1 i

theorem view_null (ops : FileOps Obj Dev) (inv : PipesInv s) {o : Stream Obj} {fid : Fid}
    {k : Kernel Task (Stream Obj) (Memory Dev)}
    (enabled : PipesEnabled s (.call (.openDevice t (some o))))
    (run : pipesExec ops s (.call (.openDevice t (some o))) = some s')
    (made : openStream s.files.kernel t.1 (some o) = some (some fid,k)) :
    view s t.1 fid = none ∧ ∃ f, view s' t.1 = Function.update (view s t.1) fid (some (f,o)) := by
  obtain ⟨f,free,table,attached⟩ := open_stream_entry inv.files.balanced made
  have files := call_files run
  simp only [fileExec, made, Option.map_some, Option.some.injEq] at files
  refine ⟨view_none.mpr free,f,funext fun i => ?_⟩
  by_cases here : i = fid
  · rw [here, Function.update_self]
    simp only [view, stream, ← files, table, Function.update_self, Option.map_some, attached]
  · rw [Function.update_of_ne here]
    refine view_table ops inv enabled run table_references i ?_
    rw [← files, table, Function.update_of_ne here]

/-- sys_Pipe puts the ends of the new pipe into two free entries. -/
theorem view_pipe (ops : FileOps Obj Dev) (inv : PipesInv s) {i j : Fid}
    {k : Kernel Task (Stream Obj) (Memory Dev)} (enabled : PipesEnabled s (.pipe t))
    (run : pipesExec ops s (.pipe t) = some s')
    (made : sysPipe s.files.kernel t.1 (.pipe s.memory.nextPipe .reader)
      (.pipe s.memory.nextPipe .writer) = (some (i,j),k)) :
    view s t.1 i = none ∧ view s t.1 j = none ∧ i ≠ j ∧
    s'.memory.nextPipe = s.memory.nextPipe + 1 ∧
    ∃ f g, view s' t.1 = Function.update (Function.update (view s t.1) i
      (some (f,.pipe s.memory.nextPipe .reader))) j
        (some (g,.pipe s.memory.nextPipe .writer)) := by
  obtain ⟨f,g,free,free',apart,table,reader,writer,_⟩ := pipe_entries inv.files.balanced made
  have after := Option.some.inj run
  simp only [openPipe, made] at after
  refine ⟨view_none.mpr free,view_none.mpr free',apart,by rw [← after]; rfl,f,g,funext fun n => ?_⟩
  have table' : (s'.files.kernel.PT t.1).FIDT = (k.PT t.1).FIDT := by
    rw [← after]
    rfl
  have streams (h : FcbRef) : stream s' h = (k.files.FT h).stream := by
    rw [← after]
    rfl
  by_cases last : n = j
  · rw [last, Function.update_self]
    simp only [view, streams, table', table, Function.update_self, Option.map_some, writer]
  · rw [Function.update_of_ne last]
    by_cases first : n = i
    · rw [first, Function.update_self]
      simp only [view, streams, table', table, Function.update_of_ne apart, Function.update_self,
        Option.map_some, reader]
    · rw [Function.update_of_ne first]
      refine view_table ops inv enabled run table_references n ?_
      rw [table', table, Function.update_of_ne last, Function.update_of_ne first]

end Views
end PlainPipe
