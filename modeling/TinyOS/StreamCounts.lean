import TinyOS.LastExit
import TinyOS.StreamOpens
import TinyOS.Transition

/- Runs of processes that open, copy, inherit, use and close streams and exit. Read and Write
   are two sections, between which anything else may happen. -/
namespace KernelStreams
open KernelProc Tally Transition

/- `inUse` lists the Read and Write calls in progress with the FCB each of them holds. -/
structure FileRun (Task Obj Dev : Type) where
  kernel : Kernel Task Obj Dev
  inUse : List (Thread × FcbRef)

inductive FileAction (Task Obj : Type) where
  | exec (t : Thread) (call : Option Task) (argl : Int) (args : Option (List UInt8))
  | createThread (t : Thread) (tid : Tid)
  | threadExit (t : Thread)
  | reap (p : Pid)
  | startTransfer (t : Thread) (fid : Int)
  | endTransfer (t : Thread) (f : FcbRef)
  | close (t : Thread) (fid : Int)
  | dup2 (t : Thread) (oldfd newfd : Int)
  | openDevice (t : Thread) (opened : Option Obj)
  | openInfo (t : Thread) (picb : Obj)
  | pipe (t : Thread) (reader writer : Obj)
  | socket (t : Thread) (port : Int) (socket : Obj)
  | accept (t : Thread) (port : Int) (socket : Obj)

section System
variable {Task Obj Dev : Type}

/- The streams that an action may attach to an FCB. -/
def FileAction.Opens : FileAction Task Obj → Obj → Prop
  | .openDevice _ opened, o => opened = some o
  | .openInfo _ stream, o | .socket _ _ stream, o | .accept _ _ stream, o => o = stream
  | .pipe _ reader writer, o => o = reader ∨ o = writer
  | _, _ => False

/- The thread runs in user code. -/
def FileRun.Idle (s : FileRun Task Obj Dev) (t : Thread) : Prop :=
  t.2 ∈ (s.kernel.PT t.1).threads ∧ t ∉ s.inUse.map Prod.fst

instance (s : FileRun Task Obj Dev) (t : Thread) : Decidable (s.Idle t) :=
  inferInstanceAs (Decidable (_ ∧ _))

/- A zombie is reaped by its parent, and init has none. The last thread of init leaves when init has
   no children. -/
def FileEnabled (s : FileRun Task Obj Dev) : FileAction Task Obj → Prop
  | .exec t _ _ _ | .startTransfer t _ | .close t _ | .dup2 t _ _ | .openDevice t _ | .openInfo t _
  | .pipe t _ _ | .socket t _ _ | .accept t _ _ => s.Idle t
  | .createThread t tid => s.Idle t ∧ tid ∉ (s.kernel.PT t.1).threads
  | .threadExit t => s.Idle t ∧ (t.1 = initpcb →
      (s.kernel.PT t.1).threadCount ≠ 1 ∨ (s.kernel.PT t.1).childrenList = [])
  | .reap p => (s.kernel.PT p).pstate = .zombie ∧ p ≠ initpcb
  | .endTransfer t f => (t,f) ∈ s.inUse

instance (s : FileRun Task Obj Dev) (a : FileAction Task Obj) : Decidable (FileEnabled s a) :=
  match a with
  | .exec t _ _ _ | .startTransfer t _ | .close t _ | .dup2 t _ _ | .openDevice t _ | .openInfo t _
  | .pipe t _ _ | .socket t _ _ | .accept t _ _ => inferInstanceAs (Decidable (s.Idle t))
  | .createThread t tid =>
    inferInstanceAs (Decidable (s.Idle t ∧ tid ∉ (s.kernel.PT t.1).threads))
  | .threadExit t => inferInstanceAs (Decidable (s.Idle t ∧ (t.1 = initpcb →
      (s.kernel.PT t.1).threadCount ≠ 1 ∨ (s.kernel.PT t.1).childrenList = [])))
  | .reap p => inferInstanceAs (Decidable ((s.kernel.PT p).pstate = .zombie ∧ p ≠ initpcb))
  | .endTransfer t f => inferInstanceAs (Decidable ((t,f) ∈ s.inUse))

def fileExec (ops : FileOps Obj Dev) (s : FileRun Task Obj Dev) :
    FileAction Task Obj → Option (FileRun Task Obj Dev)
  | .exec t call argl args => some { s with kernel := (sysExec s.kernel t.1 call argl args).2 }
  | .createThread t tid => some { s with kernel := sysCreateThread s.kernel t.1 tid }
  | .threadExit t => (sysThreadExit ops s.kernel t.1 t.2).map ({ s with kernel := · })
  | .reap p => some { s with kernel := (cleanupZombie s.kernel p).2 }
  | .startTransfer t fid =>
    match startTransfer s.kernel t.1 fid with
    | (none, k) => some { s with kernel := k }
    | (some f, k) => some { kernel := k, inUse := (t,f) :: s.inUse }
  | .endTransfer t f => some { kernel := endTransfer ops s.kernel f, inUse := s.inUse.erase (t,f) }
  | .close t fid => some { s with kernel := (sysClose ops s.kernel t.1 fid).2 }
  | .dup2 t oldfd newfd => some { s with kernel := (sysDup2 ops s.kernel t.1 oldfd newfd).2 }
  | .openDevice t opened =>
    (openStream s.kernel t.1 opened).map fun r => { s with kernel := r.2 }
  | .openInfo t picb => some { s with kernel := (sysOpenInfo s.kernel t.1 picb).2 }
  | .pipe t reader writer => some { s with kernel := (sysPipe s.kernel t.1 reader writer).2 }
  | .socket t port socket | .accept t port socket =>
    some { s with kernel := (sysSocket s.kernel t.1 port socket).2 }

/- After boot. -/
def fileSystem (Task : Type) (ops : FileOps Obj Dev) :
    Machine (FileRun Task Obj Dev) (FileAction Task Obj) where
  start s := ∃ blank device task argl args,
    s = { kernel := boot (initializeFiles blank device) task argl args, inUse := [] }
  enabled := FileEnabled
  exec := fileExec ops

instance (ops : FileOps Obj Dev) (s : FileRun Task Obj Dev) (a : FileAction Task Obj) :
    Decidable ((fileSystem Task ops).enabled s a) :=
  inferInstanceAs (Decidable (FileEnabled s a))

end System

section Counts
variable {Task Obj Dev : Type} {s s' : FileRun Task Obj Dev} {k : Kernel Task Obj Dev}
  {cur : Pid} {f : FcbRef} {held : FcbRef → Nat} {New : Obj → Prop}

/-- How many Read and Write calls in progress hold the FCB. -/
def holders (s : FileRun Task Obj Dev) (f : FcbRef) : Nat := s.inUse.countP (·.2 = f)

structure FileInv (s : FileRun Task Obj Dev) : Prop where
  ok : KernelOk s.kernel
  balanced : Balanced s.kernel (holders s) []
  closed : Closed s.kernel

/- When nothing is left to run, what is still true of the FCBs. -/
structure FilesSettled (s : FileRun Task Obj Dev) : Prop where
  settled : Settled s.kernel
  balanced : Balanced s.kernel (holders s) []
  closed : Closed s.kernel

theorem running_files (inv : FilesSettled s) {p : Pid} {tid : Tid}
    (member : tid ∈ (s.kernel.PT p).threads) :
    FileInv s ∧ ∃ birth, Rooted s.kernel.tree birth := by
  obtain ⟨ok,rooted⟩ := settled_running inv.settled member
  exact ⟨⟨ok,inv.balanced,inv.closed⟩,rooted⟩

theorem procs_ok {k' : Kernel Task Obj Dev} (ok : KernelOk k) (same : k'.procs = k.procs) :
    KernelOk k' := by
  obtain ⟨freelist,count,_⟩ := procs_rest same
  exact kernel_ok_congr ok (procs_tree same) freelist count

theorem procs_closed {k' : Kernel Task Obj Dev} (closed : Closed k)
    (alive : (k.PT cur).pstate = .alive) (same : k'.procs = k.procs)
    (tables : ∀ p, p ≠ cur → (k'.PT p).FIDT = (k.PT p).FIDT) : Closed k' := by
  intro p dead i
  have state : (k'.PT p).pstate = (k.PT p).pstate :=
    congrArg Links.pstate (congrFun (procs_tree same) p)
  rw [state] at dead
  have apart : p ≠ cur := by
    rintro rfl
    exact dead alive
  rw [tables p apart]
  exact closed p dead i

theorem close_step (ops : FileOps Obj Dev) (balanced : Balanced k held []) (cur : Pid) (fid : Int) :
    Balanced (sysClose ops k cur fid).2 held [] ∧ (sysClose ops k cur fid).2.procs = k.procs ∧
    (∀ p, p ≠ cur → ((sysClose ops k cur fid).2.PT p).FIDT = (k.PT p).FIDT) ∧
    ClosesOnly ops k.files (sysClose ops k cur fid).2.files := by
  unfold sysClose
  split
  · rename_i legal
    dsimp only
    cases entry : (k.PT cur).FIDT ⟨fid.toNat,by omega⟩ with
    | none => exact ⟨balanced,rfl,fun _ _ => rfl,.refl ops _⟩
    | some f =>
      have only := only_set_fid k cur ⟨fid.toNat,by omega⟩ none
      have dropped := drop_balanced ops balanced entry
      exact ⟨dropped,set_fid_procs k cur _ none,only.others,decref_closes ops k.files f⟩
  · exact ⟨balanced,rfl,fun _ _ => rfl,.refl ops _⟩

theorem get_fcb_entry {fid : Int} (found : getFcb k cur fid = some f) :
    ∃ i, (k.PT cur).FIDT i = some f := by
  unfold getFcb at found
  split at found
  · exact ⟨_,found⟩
  · cases found

theorem dup2_step (ops : FileOps Obj Dev) (balanced : Balanced k held []) (cur : Pid)
    (oldfd newfd : Int) :
    Balanced (sysDup2 ops k cur oldfd newfd).2 held [] ∧
    (sysDup2 ops k cur oldfd newfd).2.procs = k.procs ∧
    (∀ p, p ≠ cur → ((sysDup2 ops k cur oldfd newfd).2.PT p).FIDT = (k.PT p).FIDT) ∧
    ClosesOnly ops k.files (sysDup2 ops k cur oldfd newfd).2.files := by
  unfold sysDup2
  split
  · rename_i legal
    dsimp only
    cases source : getFcb k cur oldfd with
    | none => exact ⟨balanced,rfl,fun _ _ => rfl,.refl ops _⟩
    | some old =>
      obtain ⟨j,entry⟩ := get_fcb_entry source
      have moved (g : FcbRef) :=
        refs_set_fid k held cur ⟨newfd.toNat,by omega⟩ (some old) g
      have only := only_set_fid k cur ⟨newfd.toNat,by omega⟩ (some old)
      dsimp only
      cases target : (k.PT cur).FIDT ⟨newfd.toNat,by omega⟩ with
      | none =>
        rw [if_pos (by simp)]
        have shared : ClosesOnly ops k.files (fcbIncref k.files old) :=
          closes_nothing ops rfl (set_refcount_stream _ old _) rfl rfl
        refine ⟨?_,set_fid_procs k cur _ (some old),only.others,shared⟩
        apply ledger_incref balanced (ledger_in_use balanced (refs_pos entry))
        intro g
        have after := moved g
        simp only [target, reduceCtorEq, if_false, Nat.add_zero, Option.some.injEq] at after
        simp only [eq_comm (a := g)]
        exact after
      | some f =>
        by_cases same : old = f
        · rw [if_neg (by simp [same])]
          exact ⟨balanced,rfl,fun _ _ => rfl,.refl ops _⟩
        · rw [if_pos (by simp [same])]
          have closing := decref_closes ops k.files f
          have shared : ClosesOnly ops (fcbDecref ops k.files f).2
              (fcbIncref (fcbDecref ops k.files f).2 old) :=
            closes_nothing ops rfl (set_refcount_stream _ old _) rfl rfl
          refine ⟨?_,set_fid_procs k cur _ (some old),only.others,
            closes_only_trans closing shared⟩
          have used : 0 < refs k held f := refs_pos target
          have dropped : Ledger (fcbDecref ops k.files f).2
              (fun g => refs k held g - if g = f then 1 else 0) [] := by
            apply ledger_decref ops balanced used (by simp)
            intro g
            by_cases here : g = f
            · subst here
              simp only [if_true]
              omega
            · simp [here]
          have kept : old ∉ (fcbDecref ops k.files f).2.fcbFreelist := by
            apply ledger_in_use dropped
            have positive : 0 < refs k held old := refs_pos entry
            simpa [same] using positive
          apply ledger_incref dropped kept
          intro g
          have after := moved g
          simp only [target, Option.some.injEq, eq_comm (b := g)] at after
          change refs (setFid k cur _ (some old)) held g = _
          by_cases here : g = f
          · subst here
            simp only [if_true, Ne.symm same, if_false] at after ⊢
            omega
          · simp only [here, if_false] at after ⊢
            omega
  · exact ⟨balanced,rfl,fun _ _ => rfl,.refl ops _⟩

theorem opened_inv (inv : FileInv s) {t : Thread} (idle : s.Idle t)
    (step : OpenStep New s.kernel k (holders s) t.1) : FileInv { s with kernel := k } := by
  have alive := running_alive inv.ok idle.1
  exact ⟨procs_ok inv.ok step.procs,step.balanced,
    procs_closed inv.closed alive step.procs step.tables⟩

theorem end_transfer_files (ops : FileOps Obj Dev) (balanced : Balanced s.kernel (holders s) [])
    {t : Thread} (member : (t,f) ∈ s.inUse) :
    Balanced (endTransfer ops s.kernel f)
      (holders { kernel := endTransfer ops s.kernel f, inUse := s.inUse.erase (t,f) }) [] ∧
    ClosesOnly ops s.kernel.files (endTransfer ops s.kernel f).files := by
  have counts (g : FcbRef) := (List.perm_cons_erase member).countP_eq (fun e => e.2 = g)
  refine ⟨?_,decref_closes ops s.kernel.files f⟩
  apply ledger_decref ops balanced (f := f) ?_ (by simp)
  · intro g
    have count := counts g
    simp only [List.countP_cons, decide_eq_true_eq, eq_comm (a := f)] at count
    change _ = occurrences (fileTable s.kernel) g + _ + _
    simp only [refs, holders, count]
    omega
  · have count := counts f
    simp only [List.countP_cons, decide_true, if_true] at count
    simp only [refs, holders]
    omega

/- The action is the exit of the last thread of init. -/
def FileRun.Final (s : FileRun Task Obj Dev) : FileAction Task Obj → Prop
  | .threadExit t => t.1 = initpcb ∧ (s.kernel.PT t.1).threadCount = 1
  | _ => False

/-- A step keeps the invariant, and only opens or only closes streams. -/
theorem file_step (ops : FileOps Obj Dev) (inv : FileInv s) {a : FileAction Task Obj}
    (enabled : FileEnabled s a) (more : ¬ s.Final a) :
    ∃ s', fileExec ops s a = some s' ∧ FileInv s' ∧
      (ClosesOnly ops s.kernel.files s'.kernel.files ∨
        OpensOnly a.Opens s.kernel.files s'.kernel.files) := by
  have inv' := inv
  obtain ⟨ok,balanced,closed⟩ := inv
  cases a with
  | exec t call argl args =>
    have alive := running_alive ok enabled.1
    obtain ⟨balanced',closed',opening⟩ := exec_files ok balanced closed t.1 call argl args
    exact ⟨_,rfl,⟨exec_ok ok alive call argl args,balanced',closed'⟩,Or.inr opening⟩
  | createThread t tid =>
    have alive := running_alive ok enabled.1.1
    have same := same_files_modify s.kernel t.1 (g := fun b =>
      { b with threadCount := b.threadCount + 1, threads := b.threads ++ [tid] }) (fun _ => rfl)
    refine ⟨_,rfl,⟨create_thread_ok ok enabled.1.1 tid,balanced_same balanced same,?_⟩,
      Or.inl (.refl ops _)⟩
    intro p dead i
    have state := congrArg Links.pstate (create_thread_tree s.kernel t.1 tid p)
    refine (congrFun (same.tables p) i).trans (closed p (fun running => dead ?_) i)
    exact state.trans running
  | threadExit t =>
    obtain ⟨k',run,ok',balanced',closed',closing⟩ :=
      thread_exit_files ops ok balanced closed enabled.1.1 fun init last => more ⟨init,last⟩
    exact ⟨{ s with kernel := k' },by simp [fileExec, run],⟨ok',balanced',closed'⟩,Or.inl closing⟩
  | reap p =>
    obtain ⟨balanced',closed',files⟩ := cleanup_files balanced closed enabled.1
    refine ⟨_,rfl,⟨cleanup_ok ok enabled.1,balanced',closed'⟩,Or.inl ?_⟩
    rw [files]
    exact .refl ops _
  | startTransfer t fid =>
    simp only [fileExec, startTransfer]
    cases found : getFcb s.kernel t.1 fid with
    | none => exact ⟨s,rfl,inv',Or.inl (.refl ops _)⟩
    | some f =>
      obtain ⟨i,entry⟩ := get_fcb_entry found
      refine ⟨_,rfl,⟨kernel_ok_congr ok rfl rfl rfl,?_,closed⟩,
        Or.inr (set_refcount_opens s.kernel.files f _)⟩
      apply ledger_incref balanced (ledger_in_use balanced (refs_pos entry))
      intro g
      change occurrences (fileTable s.kernel) g + List.countP _ ((t,f) :: s.inUse) = _
      simp only [refs, holders, List.countP_cons, decide_eq_true_eq, eq_comm (a := f)]
      omega
  | endTransfer t f =>
    obtain ⟨balanced',closing⟩ := end_transfer_files ops balanced enabled
    exact ⟨_,rfl,⟨kernel_ok_congr ok rfl rfl rfl,balanced',closed⟩,Or.inl closing⟩
  | close t fid =>
    have alive := running_alive ok enabled.1
    obtain ⟨balanced',procs,tables,closing⟩ := close_step ops balanced t.1 fid
    exact ⟨_,rfl,⟨procs_ok ok procs,balanced',procs_closed closed alive procs tables⟩,Or.inl closing⟩
  | dup2 t oldfd newfd =>
    have alive := running_alive ok enabled.1
    obtain ⟨balanced',procs,tables,closing⟩ := dup2_step ops balanced t.1 oldfd newfd
    exact ⟨_,rfl,⟨procs_ok ok procs,balanced',procs_closed closed alive procs tables⟩,Or.inl closing⟩
  | openDevice t opened =>
    obtain ⟨r,run,step⟩ := open_stream_step balanced t.1 opened
    exact ⟨{ s with kernel := r.2 },by simp [fileExec, run],opened_inv inv' enabled step,
      Or.inr step.opening⟩
  | openInfo t picb =>
    have step := open_info_step balanced t.1 picb
    exact ⟨_,rfl,opened_inv inv' enabled step,Or.inr step.opening⟩
  | pipe t reader writer =>
    obtain ⟨result,k',run,step,_⟩ := pipe_spec balanced t.1 reader writer
    exact ⟨{ s with kernel := k' },by simp [fileExec, run],opened_inv inv' enabled step,
      Or.inr step.opening⟩
  | socket t port socket =>
    have step := socket_step balanced t.1 port socket
    exact ⟨_,rfl,opened_inv inv' enabled step,Or.inr step.opening⟩
  | accept t port socket =>
    have step := socket_step balanced t.1 port socket
    exact ⟨_,rfl,opened_inv inv' enabled step,Or.inr step.opening⟩

/-- A call on streams leaves the table alone, but for the FIDTs; a reaping frees a PCB. -/
theorem call_table (ops : FileOps Obj Dev) (inv : FileInv s) {a : FileAction Task Obj}
    (enabled : FileEnabled s a) (run : fileExec ops s a = some s') :
    s'.kernel.procs = s.kernel.procs ∨
    (∃ p, a = .reap p ∧ (s.kernel.PT p).pstate = .zombie ∧
      s'.kernel = (cleanupZombie s.kernel p).2) ∨
    (∃ t call argl args, a = .exec t call argl args) ∨ (∃ t tid, a = .createThread t tid) ∨
    ∃ t, a = .threadExit t := by
  have balanced := inv.balanced
  cases a with
  | exec t call argl args => exact Or.inr (Or.inr (Or.inl ⟨t,call,argl,args,rfl⟩))
  | createThread t tid => exact Or.inr (Or.inr (Or.inr (Or.inl ⟨t,tid,rfl⟩)))
  | threadExit t => exact Or.inr (Or.inr (Or.inr (Or.inr ⟨t,rfl⟩)))
  | reap p =>
    cases run
    exact Or.inr (Or.inl ⟨p,rfl,enabled.1,rfl⟩)
  | startTransfer t fid =>
    simp only [fileExec, startTransfer] at run
    split at run
    · rename_i found
      split at found <;> cases found
      cases run
      exact Or.inl rfl
    · rename_i found
      split at found <;> cases found
      cases run
      exact Or.inl rfl
  | endTransfer t f =>
    cases run
    exact Or.inl rfl
  | close t fid =>
    cases run
    exact Or.inl (close_step ops balanced t.1 fid).2.1
  | dup2 t oldfd newfd =>
    cases run
    exact Or.inl (dup2_step ops balanced t.1 oldfd newfd).2.1
  | openDevice t opened =>
    obtain ⟨r,run',step⟩ := open_stream_step balanced t.1 opened
    simp only [fileExec, run', Option.map_some, Option.some.injEq] at run
    cases run
    exact Or.inl step.procs
  | openInfo t picb =>
    cases run
    exact Or.inl (open_info_step balanced t.1 picb).procs
  | pipe t reader writer =>
    obtain ⟨result,k',run',step,_⟩ := pipe_spec balanced t.1 reader writer
    simp only [fileExec, run', Option.some.injEq] at run
    cases run
    exact Or.inl step.procs
  | socket t port socket | accept t port socket =>
    cases run
    exact Or.inl (socket_step balanced t.1 port socket).procs

/-- A new Read or Write uses an FCB from the table of its process. -/
theorem user_origin {ops : FileOps Obj Dev} {u : Thread} {a : FileAction Task Obj}
    (enabled : FileEnabled s a)
    (run : fileExec ops s a = some s') (member : (u,f) ∈ s'.inUse) :
    (u,f) ∈ s.inUse ∨ s.Idle u ∧ (∃ fid, a = .startTransfer u fid) ∧
      ∃ j, (s.kernel.PT u.1).FIDT j = some f := by
  cases a with
  | threadExit t =>
    obtain ⟨k',_,rfl⟩ := Option.map_eq_some_iff.mp run
    exact Or.inl member
  | openDevice t opened =>
    obtain ⟨r,_,rfl⟩ := Option.map_eq_some_iff.mp run
    exact Or.inl member
  | startTransfer t fid =>
    simp only [fileExec, startTransfer] at run
    cases found : getFcb s.kernel t.1 fid with
    | none =>
      rw [found] at run
      cases run
      exact Or.inl member
    | some g =>
      rw [found] at run
      cases run
      rcases List.mem_cons.mp member with same | before
      · cases same
        exact Or.inr ⟨enabled,⟨fid,rfl⟩,get_fcb_entry found⟩
      · exact Or.inl before
  | endTransfer t g =>
    cases run
    exact Or.inl (List.mem_of_mem_erase member)
  | _ =>
    cases run
    exact Or.inl member

theorem file_rooted (ops : FileOps Obj Dev) (inv : FileInv s)
    (rooted : ∃ birth, Rooted s.kernel.tree birth) {a : FileAction Task Obj}
    (enabled : FileEnabled s a) (more : ¬ s.Final a) (run : fileExec ops s a = some s') :
    ∃ birth, Rooted s'.kernel.tree birth := by
  obtain ⟨birth,rooted⟩ := rooted
  rcases call_table ops inv enabled run with procs | ⟨p,rfl,_,reaped⟩ | ⟨t,call,argl,args,rfl⟩ |
    ⟨t,tid,rfl⟩ | ⟨t,rfl⟩
  · exact ⟨birth,procs_tree procs ▸ rooted⟩
  · refine ⟨birth,?_⟩
    rw [reaped, (cleanup_spec s.kernel p).1]
    exact rooted_reaped rooted p s.kernel.pcbFreelist
  · cases run
    cases head : s.kernel.pcbFreelist with
    | none => exact ⟨birth,by simpa only [exec_full head] using rooted⟩
    | some new =>
      obtain ⟨k',exec,tree,_⟩ := exec_spec head t.1 call argl args
      have member : t.2 ∈ (s.kernel.PT t.1).threads := enabled.1
      have apart : t.1 ≠ 0 := fun zero => by
        have none : (s.kernel.PT 0).threads = [] := inv.ok.threads.idle.2
        rw [zero, none] at member
        cases member
      rw [exec]
      exact tree ▸ rooted_execed rooted inv.ok.wf (head_unused inv.ok head) apart
        (running_alive inv.ok member) call.isSome
  · cases run
    have tree := create_thread_tree s.kernel t.1 tid
    have states (p : Pid) : ((sysCreateThread s.kernel t.1 tid).tree p).pstate =
      (s.kernel.tree p).pstate := by rw [tree p]
    exact ⟨birth,rooted_congr rooted (fun p => by rw [states]) (fun p _ => by rw [tree p])⟩
  · obtain ⟨k',exit,rfl⟩ := Option.map_eq_some_iff.mp run
    exact ⟨birth,rooted_exit ops inv.ok rooted enabled.1.1 (fun init last => more ⟨init,last⟩) exit⟩

/-- The exit of the last thread of init closes its files. -/
theorem final_step (ops : FileOps Obj Dev) (inv : FileInv s)
    (rooted : ∃ birth, Rooted s.kernel.tree birth) {t : Thread}
    (enabled : FileEnabled s (.threadExit t)) (final : s.Final (.threadExit t)) :
    ∃ s', fileExec ops s (.threadExit t) = some s' ∧ FilesSettled s' ∧
      ClosesOnly ops s.kernel.files s'.kernel.files := by
  obtain ⟨idle,drained⟩ := enabled
  obtain ⟨init,last⟩ := final
  obtain ⟨birth,rooted⟩ := rooted
  obtain ⟨k',run,settled,states⟩ := exit_settled ops inv.ok rooted idle.1 drained
  have left := same_files_modify s.kernel t.1 (g := fun b =>
    { b with threadCount := b.threadCount - 1, threads := b.threads.erase t.2 }) (fun _ => rfl)
  have count : ((leaveProcess s.kernel t.1 t.2).PT t.1).threadCount = 0 := by
    simp [leaveProcess, last]
  have exit : exitProcess ops (leaveProcess s.kernel t.1 t.2) t.1 = some k' := by
    simpa [sysThreadExit, count] using run
  obtain ⟨balanced',others,gone,closing⟩ :=
    exit_process_files ops (balanced_same inv.balanced left) exit
  refine ⟨{ s with kernel := k' },by simp [fileExec, run],⟨settled,balanced',fun p dead i => ?_⟩,
    left.files ▸ closing⟩
  by_cases here : p = t.1
  · exact here ▸ gone i
  · rw [others p here, left.tables p]
    exact inv.closed p (states p here ▸ dead) i

/-- While a call can begin, the process table is in order. -/
theorem active_files (inv : FilesSettled s) {a : FileAction Task Obj} (enabled : FileEnabled s a)
    (begins : ∀ t f, a ≠ .endTransfer t f) : FileInv s ∧ ∃ birth, Rooted s.kernel.tree birth := by
  cases a with
  | createThread t tid | threadExit t => exact running_files inv enabled.1.1
  | reap p =>
    obtain ⟨zombie,child⟩ := enabled
    rcases inv.settled with ⟨ok,rooted⟩ | halted
    · exact ⟨⟨ok,inv.balanced,inv.closed⟩,rooted⟩
    · by_cases first : p = 0
      · cases halted.idle.symm.trans (first ▸ zombie)
      · have zero : p.val ≠ 0 := fun same => first (Fin.ext same)
        have one : p.val ≠ 1 := fun same => child (Fin.ext same)
        cases (halted.others p (by omega)).symm.trans zombie
  | endTransfer t f => exact absurd rfl (begins t f)
  | exec t | startTransfer t | close t | dup2 t | openDevice t | openInfo t | pipe t | socket t
  | accept t => exact running_files inv enabled.1

theorem opened_settled (inv : FilesSettled s) {t : Thread} (idle : s.Idle t)
    (step : OpenStep New s.kernel k (holders s) t.1) : FilesSettled { s with kernel := k } := by
  obtain ⟨files,rooted⟩ := running_files inv idle.1
  have opened := opened_inv files idle step
  exact ⟨Or.inl ⟨opened.ok,procs_tree step.procs ▸ rooted⟩,opened.balanced,opened.closed⟩

theorem settled_step (ops : FileOps Obj Dev) (inv : FilesSettled s) {a : FileAction Task Obj}
    (enabled : FileEnabled s a) : ∃ s', fileExec ops s a = some s' ∧ FilesSettled s' ∧
      (ClosesOnly ops s.kernel.files s'.kernel.files ∨
        OpensOnly a.Opens s.kernel.files s'.kernel.files) := by
  by_cases ends : ∃ t f, a = .endTransfer t f
  · obtain ⟨t,f,rfl⟩ := ends
    obtain ⟨balanced,closing⟩ := end_transfer_files ops inv.balanced enabled
    exact ⟨_,rfl,⟨settled_congr inv.settled rfl rfl rfl,balanced,inv.closed⟩,Or.inl closing⟩
  · obtain ⟨files,rooted⟩ := active_files inv enabled fun t f same => ends ⟨t,f,same⟩
    by_cases final : s.Final a
    · cases a with
      | threadExit t =>
        obtain ⟨s',run,inv',closing⟩ := final_step ops files rooted enabled final
        exact ⟨s',run,inv',Or.inl closing⟩
      | _ => exact final.elim
    · obtain ⟨s',run,files',kind⟩ := file_step ops files enabled final
      exact ⟨s',run,⟨Or.inl ⟨files'.ok,file_rooted ops files rooted enabled final run⟩,
        files'.balanced,files'.closed⟩,kind⟩

theorem initial_freelist (f : FcbRef) : f ∈ initialFreelist := by
  refine List.mem_map.mpr ⟨f.val,?_,Fin.ofNat_val_eq_self f⟩
  simp

theorem initial_freelist_nodup : initialFreelist.Nodup := by
  refine List.Nodup.map_on ?_ List.nodup_range'
  intro a small b small' same
  have values := congrArg Fin.val same
  simp only [List.mem_range'_1, Nat.zero_add] at small small'
  simpa [Fin.ofNat, Nat.mod_eq_of_lt small.2, Nat.mod_eq_of_lt small'.2] using values

theorem parentless_exec_files (new : Pid) (head : k.pcbFreelist = some new) (first : new.val ≤ 1)
    (cur : Pid) (call : Option Task) (argl : Int) (args : Option (List UInt8)) :
    SameFiles k (sysExec k cur call argl args).2 := by
  obtain ⟨k₁,acquired,same⟩ := acquire_files head
  have attached : SameFiles k₁ (attachChild k₁ cur new) := by
    rw [attachChild, if_pos first]
    exact same_files_modify k₁ new (g := ({ · with parent := none })) (fun _ => rfl)
  have programmed := same_files_modify (attachChild k₁ cur new) new
    (g := ({ · with mainTask := call, argl := argl, args := args.map (List.take argl.toNat) }))
    (fun _ => rfl)
  have started := start_files (setProgram (attachChild k₁ cur new) new call argl args) new call
  simp only [sysExec, acquired]
  exact same_files_trans (same_files_trans same attached) (same_files_trans programmed started)

theorem boot_files (files : Files Obj Dev) (task : Task) (argl : Int) (args : Option (List UInt8)) :
    (boot files task argl args).files = files ∧
    ∀ p, ((boot files task argl args).PT p).FIDT = fun _ => none := by
  have idle := parentless_exec_files (k := initializeProcesses Task files) 0 rfl
    (by decide) 0 none 0 none
  have init := parentless_exec_files
    (k := (sysExec (initializeProcesses Task files) 0 none 0 none).2) 1 rfl
    (by decide) 0 (some task) argl args
  have whole := same_files_trans idle init
  exact ⟨whole.files,whole.tables⟩

theorem initial_ledger (blank : Obj) (device : Dev) {references : FcbRef → Nat}
    (none : ∀ f, references f = 0) : Ledger (initializeFiles blank device) references [] := by
  have list : (initializeFiles blank device).fcbFreelist = initialFreelist := rfl
  have all (f : FcbRef) : f ∈ (initializeFiles blank device).fcbFreelist :=
    list ▸ initial_freelist f
  refine ⟨list ▸ initial_freelist_nodup,fun f _ => none f,?_,?_,by simp,fun f => ?_⟩
  · exact fun f off => absurd (all f) off
  · exact fun f off _ => absurd (all f) off
  · rw [if_pos (Or.inl (all f))]
    rfl

theorem start_inv (blank : Obj) (device : Dev) (task : Task) (argl : Int)
    (args : Option (List UInt8)) :
    FileInv { kernel := boot (initializeFiles blank device) task argl args, inUse := [] } := by
  obtain ⟨files,tables⟩ := boot_files (initializeFiles blank device) task argl args
  refine ⟨boot_ok (initializeFiles blank device) task argl args,?_,
    fun p _ i => congrFun (tables p) i⟩
  unfold Balanced
  rw [files]
  apply initial_ledger
  intro f
  have entries : occurrences (fileTable (boot (initializeFiles blank device) task argl args)) f = 0 :=
    occurrences_eq_zero.mpr (fun x => by simp [fileTable, tables])
  simpa [refs, holders] using entries

theorem start_settled (blank : Obj) (device : Dev) (task : Task) (argl : Int)
    (args : Option (List UInt8)) :
    FilesSettled { kernel := boot (initializeFiles blank device) task argl args, inUse := [] } := by
  have inv := start_inv blank device task argl args
  exact ⟨Or.inl ⟨inv.ok,_,boot_rooted (initializeFiles blank device) task argl args⟩,
    inv.balanced,inv.closed⟩

theorem file_reach_inv (ops : FileOps Obj Dev) (reach : (fileSystem Task ops).Reach s) :
    FilesSettled s := by
  refine inductive_reach ⟨?_,?_⟩ reach
  · rintro s ⟨blank,device,task,argl,args,rfl⟩
    exact start_settled blank device task argl args
  · intro s a s' inv move
    obtain ⟨s'',run,inv',_⟩ := settled_step ops inv move.1
    obtain rfl : s' = s'' := Option.some.inj (move.2.symm.trans run)
    exact inv'

/-- All references to an FCB: file table entries and calls in progress. -/
def references (s : FileRun Task Obj Dev) (f : FcbRef) : Nat :=
  occurrences (fileTable s.kernel) f + holders s f

theorem free_iff (inv : FilesSettled s) (f : FcbRef) :
    f ∈ s.kernel.files.fcbFreelist ↔ references s f = 0 := by
  constructor
  · exact inv.balanced.free f
  · intro none
    by_contra off
    have used := inv.balanced.held f off (by simp)
    exact absurd none (Nat.pos_iff_ne_zero.mp used)

/-- The Close method runs in the step in which the number of references drops to zero. -/
theorem closes_at_zero {ops : FileOps Obj Dev} (inv : FilesSettled s) (inv' : FilesSettled s')
    (kind : ClosesOnly ops s.kernel.files s'.kernel.files ∨
      OpensOnly New s.kernel.files s'.kernel.files)
    (f : FcbRef) : s'.kernel.files.closes f = s.kernel.files.closes f +
      if 0 < references s f ∧ references s' f = 0 then 1 else 0 := by
  have before := inv.balanced.history f
  have after := inv'.balanced.history f
  simp only [List.not_mem_nil, or_false, free_iff inv f, free_iff inv' f] at before after
  rcases kind with closing | opening
  · have opens := congrFun closing.opens f
    have closes := closes_only_le closing f
    by_cases was : references s f = 0
    · by_cases now : references s' f = 0
      · simp only [was, now, if_true, Nat.lt_irrefl, false_and, if_false] at *
        omega
      · simp only [was, now, if_true, Nat.lt_irrefl, false_and, if_false] at *
        omega
    · have used := Nat.pos_iff_ne_zero.mpr was
      by_cases now : references s' f = 0
      · simp only [was, now, used, if_true, and_self, if_false] at *
        omega
      · simp only [was, now, and_false, if_false] at *
        omega
  · have closes := congrFun opening.closes f
    have opens := opening.opens f
    by_cases was : references s f = 0
    · simp only [was, Nat.lt_irrefl, false_and, if_false]
      omega
    · by_cases now : references s' f = 0
      · simp only [was, now, if_true, if_false] at before after
        omega
      · simp only [now, and_false, if_false]
        omega

/-- The FCBs whose streams a step closes are those that lose their last reference. -/
theorem closed_references {fs : List FcbRef} (inv : FilesSettled s) (inv' : FilesSettled s')
    (opens : s'.kernel.files.opens = s.kernel.files.opens)
    (closes : ∀ f, s'.kernel.files.closes f = s.kernel.files.closes f + fs.count f) :
    fs.Nodup ∧ ∀ f, (0 < references s' f ↔ 0 < references s f ∧ f ∉ fs) ∧
      (f ∈ fs → 0 < references s f) := by
  have history (f : FcbRef) : (if references s f = 0 then 0 else 1) =
      fs.count f + if references s' f = 0 then 0 else 1 := by
    have before := inv.balanced.history f
    have after := inv'.balanced.history f
    simp only [List.not_mem_nil, or_false, free_iff inv f, free_iff inv' f] at before after
    rw [opens, closes f] at after
    omega
  refine ⟨List.nodup_iff_count_le_one.mpr fun f => ?_,fun f => ?_⟩
  · have count := history f
    split at count <;> omega
  · have count := history f
    have member : f ∈ fs ↔ 0 < fs.count f := List.count_pos_iff.symm
    rw [member, Nat.pos_iff_ne_zero, Nat.pos_iff_ne_zero]
    split at count <;> split at count <;> omega

/-- A step that opens streams takes no reference away. -/
theorem opened_references (inv : FilesSettled s) (inv' : FilesSettled s')
    (opening : OpensOnly New s.kernel.files s'.kernel.files) (f : FcbRef) :
    (0 < references s' f ↔ 0 < references s f ∨
      s'.kernel.files.opens f ≠ s.kernel.files.opens f) ∧
    (0 < references s f → s'.kernel.files.opens f = s.kernel.files.opens f) := by
  have before := inv.balanced.history f
  have after := inv'.balanced.history f
  have more := opening.opens f
  simp only [List.not_mem_nil, or_false, free_iff inv f, free_iff inv' f] at before after
  rw [congrFun opening.closes f] at after
  rw [Nat.pos_iff_ne_zero, Nat.pos_iff_ne_zero]
  split at before <;> split at after <;> omega

/-- In every reachable state the reference counts are exact, free FCBs are unreferenced and each
    stream is closed once, when its last reference goes. -/
theorem stream_references_exact (ops : FileOps Obj Dev) (reach : (fileSystem Task ops).Reach s) :
    (∀ f,
      (f ∈ s.kernel.files.fcbFreelist ∧ s.kernel.files.fcbFreelist.count f = 1 ∧
        (∀ p i, (s.kernel.PT p).FIDT i ≠ some f) ∧ (∀ e ∈ s.inUse, e.2 ≠ f) ∧
        s.kernel.files.opens f = s.kernel.files.closes f) ∨
      (f ∉ s.kernel.files.fcbFreelist ∧ 0 < references s f ∧
        (s.kernel.files.FT f).refcount = references s f ∧
        s.kernel.files.opens f = s.kernel.files.closes f + 1)) ∧
    ∀ a, FileEnabled s a → ∃ s', fileExec ops s a = some s' ∧ ∀ f,
      s'.kernel.files.closes f = s.kernel.files.closes f +
        (if 0 < references s f ∧ references s' f = 0 then 1 else 0) ∧
      (s'.kernel.files.closes f ≠ s.kernel.files.closes f → ∀ e ∈ s'.inUse, e.2 ≠ f) := by
  have inv := file_reach_inv ops reach
  have balanced := inv.balanced
  refine ⟨fun f => ?_,fun a enabled => ?_⟩
  · have history := balanced.history f
    by_cases free : f ∈ s.kernel.files.fcbFreelist
    · have none : references s f = 0 := balanced.free f free
      have entries : occurrences (fileTable s.kernel) f = 0 := by
        unfold references at none
        omega
      have calls : holders s f = 0 := by
        unfold references at none
        omega
      refine Or.inl ⟨free,List.count_eq_one_of_mem balanced.nodup free,?_,?_,
        by simpa [free] using history⟩
      · intro p i
        exact occurrences_eq_zero.mp entries (p,i)
      · intro e member same
        have absent := List.countP_eq_zero.mp calls e member
        simp [same] at absent
    · refine Or.inr ⟨free,balanced.held f free (by simp),balanced.counted f free,?_⟩
      simpa [free] using history
  · obtain ⟨s',run,inv',kind⟩ := settled_step ops inv enabled
    have closes := closes_at_zero inv inv' kind
    refine ⟨s',run,fun f => ⟨closes f,fun changed e member same => ?_⟩⟩
    have count := closes f
    have gone : references s' f = 0 := by
      by_contra left
      simp [left] at count
      exact changed count
    have held : 0 < holders s' f := List.countP_pos_iff.mpr ⟨e,member,by simp [same]⟩
    unfold references at gone
    omega

/- One thread of init reads from a pipe while another one closes the fid. -/
def readerClosedRun : List (FileAction Unit Unit) :=
  [.createThread (1,0) 1,.pipe (1,0) () (),.startTransfer (1,1) 0,.close (1,0) 0]

theorem stream_references_exact_reader_closed :
    ∃ s, (fileSystem Unit bareOps).Reach s ∧ (s.kernel.PT 1).FIDT 0 = none ∧
      references s 0 = 1 ∧ s.kernel.files.closes 0 = 0 := by
  have reach := play_reach (m := fileSystem Unit bareOps) ⟨(),(),(),0,none,rfl⟩ readerClosedRun rfl
  refine ⟨_,reach,rfl,?_,rfl⟩
  rcases (stream_references_exact bareOps reach).1 0 with ⟨_,_,_,calls,_⟩ | ⟨_,_,counted,_⟩
  · exact absurd rfl (calls ((1,1),0) (by decide))
  · exact Int.ofNat.inj (counted.symm.trans rfl)

end Counts
end KernelStreams
