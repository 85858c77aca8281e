import TinyOS.PipeLifetime
import TinyOS.Reserve
import TinyOS.ThreadLife

/- Where the entries of the file tables come from. A process refers to an FCB that it has opened,
   copied or inherited, and a new process starts with the table of the one that called Exec. -/
namespace KernelStreams
open KernelProc KernelThreads Tally
variable {Task Obj Dev : Type} {k k' : Kernel Task Obj Dev} {cur new p : Pid} {num : Nat}
  {es : List (Fid × FcbRef)} {i : Fid} {f : FcbRef} {held : FcbRef → Nat}

section Tables

theorem reserved_free (done : Reserved k k' cur num es) {e : Fid × FcbRef} (member : e ∈ es) :
    (k.PT cur).FIDT e.1 = none := by
  have taken : e.1 ∈ es.map Prod.fst := List.mem_map_of_mem member
  rw [done.fids] at taken
  have free := List.mem_of_mem_take taken
  simp only [freeFids, freeFrom, List.mem_filter, decide_eq_true_eq] at free
  exact free.2.2

theorem reserved_others (done : Reserved k k' cur num es) (apart : p ≠ cur) :
    (k'.PT p).FIDT = (k.PT p).FIDT :=
  funext fun i => done.entries p i (fun same => absurd same apart)

theorem reserved_one {e : Fid × FcbRef} (done : Reserved k k' cur 1 [e]) :
    (k'.PT cur).FIDT = Function.update (k.PT cur).FIDT e.1 (some e.2) := by
  funext i
  by_cases here : i = e.1
  · rw [here, Function.update_self]
    exact (done.bound e (by simp)).1
  · rw [Function.update_of_ne here]
    exact done.entries cur i (by simp [here])

theorem reserved_two {r w : Fid × FcbRef} (done : Reserved k k' cur 2 [r,w]) :
    r.1 ≠ w.1 ∧ (k'.PT cur).FIDT =
      Function.update (Function.update (k.PT cur).FIDT r.1 (some r.2)) w.1 (some w.2) := by
  have sorted : (freeFids k cur).Nodup := (List.nodup_finRange _).filter _
  have distinct : ([r,w].map Prod.fst).Nodup := by
    rw [done.fids]
    exact sorted.sublist (List.take_sublist ..)
  have apart : r.1 ≠ w.1 := by
    simpa only [List.map_cons, List.map_nil, List.nodup_cons, List.mem_singleton, List.not_mem_nil,
      not_false_iff, List.nodup_nil, and_true] using distinct
  refine ⟨apart,funext fun i => ?_⟩
  by_cases last : i = w.1
  · rw [last, Function.update_self]
    exact (done.bound w (by simp)).1
  · rw [Function.update_of_ne last]
    by_cases first : i = r.1
    · rw [first, Function.update_self]
      exact (done.bound r (by simp)).1
    · rw [Function.update_of_ne first]
      exact done.entries cur i (by simp [first, last])

/-- The table of cur after one of its own calls; its entries are old ones, or have been opened. -/
structure TableStep (k k' : Kernel Task Obj Dev) (cur : Pid) : Prop where
  others : ∀ p, p ≠ cur → (k'.PT p).FIDT = (k.PT p).FIDT
  entries : ∀ i f, (k'.PT cur).FIDT i = some f →
    (∃ j, (k.PT cur).FIDT j = some f) ∨ k'.files.opens f ≠ k.files.opens f

theorem same_table_step (same : ∀ p, (k'.PT p).FIDT = (k.PT p).FIDT) (cur : Pid) :
    TableStep k k' cur :=
  ⟨fun p _ => same p,fun i _ entry => Or.inl ⟨i,same cur ▸ entry⟩⟩

/-- A call that reserves one fid and attaches a stream to its FCB. -/
theorem attached_step {e : Fid × FcbRef} {stream : Obj} (done : Reserved k k' cur 1 [e])
    (opens : k'.files.opens = k.files.opens) : TableStep k (attach k' e.2 stream) cur := by
  have others (p : Pid) (apart : p ≠ cur) : (k'.PT p).FIDT = (k.PT p).FIDT :=
    reserved_others done apart
  refine ⟨others,fun i f entry => ?_⟩
  have table : ((attach k' e.2 stream).PT cur).FIDT = (k'.PT cur).FIDT := rfl
  rw [table, reserved_one done] at entry
  by_cases here : i = e.1
  · rw [here, Function.update_self, Option.some.injEq] at entry
    refine Or.inr ?_
    simp [attach, attachStream, opens, ← entry]
  · rw [Function.update_of_ne here] at entry
    exact Or.inl ⟨i,entry⟩

theorem reserve_opens (balanced : Balanced k held []) (cur : Pid) (num : Nat) :
    (fcbReserve k cur num).2.files.opens = k.files.opens := by
  obtain ⟨result,k',run,_,_,opening,_⟩ := reserve_spec balanced cur num
  rw [run]
  exact opens_none opening

/-- OpenInfo, Socket and the end of Accept. -/
theorem open_one_step (balanced : Balanced k held []) (cur : Pid) (stream : Obj) :
    (∃ k', fcbReserve k cur 1 = (none,k') ∧ TableStep k k' cur) ∨
    ∃ e k', fcbReserve k cur 1 = (some [e],k') ∧ TableStep k (attach k' e.2 stream) cur := by
  have outcome := (reserve_outcome balanced cur 1).2
  have opens := reserve_opens balanced cur 1
  cases run : fcbReserve k cur 1 with
  | mk result k' =>
    rw [run] at outcome opens
    cases result with
    | none => exact Or.inl ⟨k',rfl,same_table_step outcome.tables cur⟩
    | some es =>
      obtain ⟨e,rfl⟩ := List.length_eq_one_iff.mp outcome.length
      exact Or.inr ⟨e,k',rfl,attached_step outcome opens⟩

theorem open_info_table (balanced : Balanced k held []) (cur : Pid) (picb : Obj) :
    TableStep k (sysOpenInfo k cur picb).2 cur := by
  obtain ⟨k',run,step⟩ | ⟨e,k',run,step⟩ := open_one_step balanced cur picb
  · simpa only [sysOpenInfo, run] using step
  · simpa only [sysOpenInfo, run] using step

theorem socket_table (balanced : Balanced k held []) (cur : Pid) (port : Int) (socket : Obj) :
    TableStep k (sysSocket k cur port socket).2 cur := by
  unfold sysSocket
  split
  · exact same_table_step (fun _ => rfl) cur
  · obtain ⟨k',run,step⟩ | ⟨e,k',run,step⟩ := open_one_step balanced cur socket
    · simpa only [run] using step
    · simpa only [run] using step

/-- open_stream with a device that opens. -/
theorem open_stream_entry (balanced : Balanced k held []) {stream : Obj} {fid : Fid}
    (run : openStream k cur (some stream) = some (some fid,k')) : ∃ f,
      (k.PT cur).FIDT fid = none ∧
      (k'.PT cur).FIDT = Function.update (k.PT cur).FIDT fid (some f) ∧
      (k'.files.FT f).stream = stream := by
  have outcome := (reserve_outcome balanced cur 1).2
  unfold openStream at run
  cases reserve : fcbReserve k cur 1 with
  | mk result k₁ =>
    rw [reserve] at outcome run
    cases result with
    | none => cases run
    | some es =>
      obtain ⟨e,rfl⟩ := List.length_eq_one_iff.mp outcome.length
      cases run
      have table := reserved_one (show Reserved k k₁ cur 1 [e] from outcome)
      refine ⟨e.2,reserved_free outcome (by simp),table,?_⟩
      simp [attach, attachStream]

theorem open_stream_table (balanced : Balanced k held []) (cur : Pid) (opened : Option Obj)
    {r : Option Fid × Kernel Task Obj Dev} (run : openStream k cur opened = some r) :
    TableStep k r.2 cur := by
  have outcome := (reserve_outcome balanced cur 1).2
  have opens := reserve_opens balanced cur 1
  obtain ⟨fid,k',run',fails⟩ := open_stream_fails balanced cur opened
  cases run'.symm.trans run
  cases fid with
  | none => exact same_table_step (fails rfl).tables cur
  | some fid =>
    unfold openStream at run
    cases reserve : fcbReserve k cur 1 with
    | mk result k₁ =>
      rw [reserve] at outcome opens run
      cases result with
      | none => cases run
      | some es =>
        obtain ⟨e,rfl⟩ := List.length_eq_one_iff.mp outcome.length
        cases opened with
        | some stream =>
          cases run
          exact attached_step outcome opens
        | none =>
          simp only [Option.map_eq_some_iff, Prod.mk.injEq, reduceCtorEq, false_and, and_false,
            exists_false] at run

/-- sys_Pipe puts the two ends of the new pipe into free entries. -/
theorem pipe_entries (balanced : Balanced k held []) {reader writer : Obj} {r w : Fid}
    (run : sysPipe k cur reader writer = (some (r,w),k')) : ∃ f g,
      (k.PT cur).FIDT r = none ∧ (k.PT cur).FIDT w = none ∧ r ≠ w ∧
      (k'.PT cur).FIDT =
        Function.update (Function.update (k.PT cur).FIDT r (some f)) w (some g) ∧
      (k'.files.FT f).stream = reader ∧ (k'.files.FT g).stream = writer ∧
      k'.files.opens f ≠ k.files.opens f ∧ k'.files.opens g ≠ k.files.opens g := by
  have outcome := (reserve_outcome balanced cur 2).2
  have opens := reserve_opens balanced cur 2
  unfold sysPipe at run
  cases reserve : fcbReserve k cur 2 with
  | mk result k₁ =>
    rw [reserve] at outcome opens run
    cases result with
    | none => cases run
    | some es =>
      obtain ⟨e,d,rfl⟩ := List.length_eq_two.mp outcome.length
      cases run
      obtain ⟨apart,table⟩ := reserved_two outcome
      have distinct : e.2 ≠ d.2 := by
        simpa only [List.map_cons, List.map_nil, List.nodup_cons, List.mem_singleton,
          List.not_mem_nil, not_false_iff, List.nodup_nil, and_true] using outcome.fcbs
      refine ⟨e.2,d.2,reserved_free outcome (by simp),reserved_free outcome (by simp),apart,table,
        ?_,?_,?_,?_⟩
      · simp [attach, attachStream, distinct]
      · simp [attach, attachStream]
      · have same : k₁.files.opens = k.files.opens := opens
        simp [attach, attachStream, same, distinct]
      · have same : k₁.files.opens = k.files.opens := opens
        simp [attach, attachStream, same, distinct.symm]

theorem pipe_table (balanced : Balanced k held []) (cur : Pid) (reader writer : Obj) :
    TableStep k (sysPipe k cur reader writer).2 cur := by
  cases run : sysPipe k cur reader writer with
  | mk result k' =>
    cases result with
    | none => exact same_table_step (pipe_fails balanced cur run).tables cur
    | some fids =>
      obtain ⟨f,g,_,_,_,table,_,_,opened,opened'⟩ := pipe_entries balanced run
      obtain ⟨_,_,run',step,_⟩ := pipe_spec balanced cur reader writer
      cases run'.symm.trans run
      refine ⟨step.tables,fun i h entry => ?_⟩
      rw [table] at entry
      by_cases last : i = fids.2
      · rw [last, Function.update_self] at entry
        cases entry
        exact Or.inr opened'
      · rw [Function.update_of_ne last] at entry
        by_cases first : i = fids.1
        · rw [first, Function.update_self] at entry
          cases entry
          exact Or.inr opened
        · rw [Function.update_of_ne first] at entry
          exact Or.inl ⟨i,entry⟩

theorem get_fcb_fid (k : Kernel Task Obj Dev) (cur : Pid) (i : Fid) :
    getFcb k cur (i.val : Int) = (k.PT cur).FIDT i := by
  have legal : (0 : Int) ≤ i.val ∧ (i.val : Int) < maxFileid := by omega
  simp only [getFcb, legal, and_self, dite_true, Int.toNat_natCast, Fin.eta]

theorem dup2_fids (ops : FileOps Obj Dev) (i j : Fid) (open' : (k.PT cur).FIDT i ≠ none) :
    ((sysDup2 ops k cur i.val j.val).2.PT cur).FIDT =
      Function.update (k.PT cur).FIDT j ((k.PT cur).FIDT i) := by
  have legal : (0 : Int) ≤ i.val ∧ (0 : Int) ≤ j.val ∧ (i.val : Int) < maxFileid ∧
      (j.val : Int) < maxFileid := by omega
  obtain ⟨old,entry⟩ := Option.ne_none_iff_exists'.mp open'
  simp only [sysDup2, legal, and_self, dite_true, get_fcb_fid, entry, Int.toNat_natCast, Fin.eta]
  split
  · split <;> simp [setFid]
  · rename_i same
    rw [not_not.mp same, Function.update_eq_self]

theorem dup2_table (ops : FileOps Obj Dev) (balanced : Balanced k held []) (cur : Pid)
    (oldfd newfd : Int) : TableStep k (sysDup2 ops k cur oldfd newfd).2 cur := by
  refine ⟨(dup2_step ops balanced cur oldfd newfd).2.2.1,fun i f entry => Or.inl ?_⟩
  unfold sysDup2 at entry
  split at entry
  · rename_i legal
    dsimp only at entry
    cases source : getFcb k cur oldfd with
    | none =>
      rw [source] at entry
      exact ⟨i,entry⟩
    | some old =>
      rw [source] at entry
      dsimp only at entry
      split at entry
      · have moved :
            Function.update (k.PT cur).FIDT ⟨newfd.toNat,by omega⟩ (some old) i = some f := by
          split at entry <;> simpa [setFid] using entry
        by_cases here : i = ⟨newfd.toNat,by omega⟩
        · rw [here, Function.update_self] at moved
          exact moved ▸ get_fcb_entry source
        · rw [Function.update_of_ne here] at moved
          exact ⟨i,moved⟩
      · exact ⟨i,entry⟩
  · exact ⟨i,entry⟩

theorem close_fid (ops : FileOps Obj Dev) (k : Kernel Task Obj Dev) (cur : Pid) (i : Fid) :
    ((sysClose ops k cur i.val).2.PT cur).FIDT = Function.update (k.PT cur).FIDT i none := by
  have legal : (0 : Int) ≤ i.val ∧ (i.val : Int) < maxFileid := by omega
  simp only [sysClose, legal, and_self, dite_true, Int.toNat_natCast, Fin.eta]
  split
  · rename_i entry
    rw [← entry, Function.update_eq_self]
  · simp [setFid]

theorem close_table (ops : FileOps Obj Dev) (balanced : Balanced k held []) (cur : Pid)
    (fid : Int) : TableStep k (sysClose ops k cur fid).2 cur := by
  refine ⟨(close_step ops balanced cur fid).2.2.1,fun i f entry => Or.inl ⟨i,?_⟩⟩
  by_cases legal : 0 ≤ fid ∧ fid < maxFileid
  · obtain ⟨j,rfl⟩ : ∃ j : Fid, fid = (j.val : Int) := ⟨⟨fid.toNat,by omega⟩,by simp; omega⟩
    rw [close_fid] at entry
    by_cases here : i = j
    · rw [here, Function.update_self] at entry
      cases entry
    · rwa [Function.update_of_ne here] at entry
  · simpa only [sysClose, legal, dite_false] using entry

/-- The loop of Exec that copies the FIDT. -/
theorem inherit_tables (apart : cur ≠ new) (is : List Fid) : ∀ k : Kernel Task Obj Dev,
    ((is.foldl (inheritFid cur new) k).PT cur).FIDT = (k.PT cur).FIDT ∧
    ∀ i, ((is.foldl (inheritFid cur new) k).PT new).FIDT i =
      if i ∈ is then (k.PT cur).FIDT i else (k.PT new).FIDT i := by
  induction is with
  | nil => exact fun k => ⟨rfl,fun i => by simp⟩
  | cons j is ih =>
    intro k
    obtain ⟨same,copied⟩ := ih (inheritFid cur new k j)
    have kept : ((inheritFid cur new k j).PT cur).FIDT = (k.PT cur).FIDT := by
      unfold inheritFid
      dsimp only
      split <;> simp [setFid, apart]
    have set (i : Fid) : ((inheritFid cur new k j).PT new).FIDT i =
        if i = j then (k.PT cur).FIDT i else (k.PT new).FIDT i := by
      unfold inheritFid
      dsimp only
      by_cases here : i = j
      · split <;> simp [setFid, here]
      · split <;> simp [setFid, here]
    refine ⟨same.trans kept,fun i => ?_⟩
    rw [List.foldl_cons, copied i, kept, set i]
    by_cases here : i = j
    · simp [here]
    · simp [here]

/-- The new process starts with the file table of its parent. -/
theorem exec_inherits (ok : KernelOk k) (head : k.pcbFreelist = some new)
    (alive : (k.PT cur).pstate = .alive) (call : Option Task) (argl : Int)
    (args : Option (List UInt8)) :
    ((sysExec k cur call argl args).2.PT new).FIDT = (k.PT cur).FIDT := by
  have unused := head_unused ok head
  have apart : cur ≠ new := by
    rintro rfl
    rw [unused] at alive
    cases alive
  have child : ¬ new.val ≤ 1 := by
    intro low
    rcases Nat.le_one_iff_eq_zero_or_eq_one.mp low with zero | one
    · have idle : (k.PT 0).pstate = .alive := ok.threads.idle.1
      rw [← (Fin.ext zero : new = 0), unused] at idle
      cases idle
    · have init : (k.PT initpcb).pstate = .alive := ok.wf.initAlive
      rw [← (Fin.ext one : new = initpcb), unused] at init
      cases init
  obtain ⟨k₁,acquired,same⟩ := acquire_files head
  have copied : ((attachChild k₁ cur new).PT new).FIDT = (k₁.PT cur).FIDT := by
    rw [attachChild, if_neg child]
    funext i
    rw [inheritFIDT, (inherit_tables apart (List.finRange maxFileid) _).2 i,
      if_pos (List.mem_finRange i)]
    simp [apart]
  have programmed := same_files_modify (attachChild k₁ cur new) new
    (g := ({ · with mainTask := call, argl := argl, args := args.map (List.take argl.toNat) }))
    (fun _ => rfl)
  have started := start_files (setProgram (attachChild k₁ cur new) new call argl args) new call
  simp only [sysExec, acquired]
  exact (started.tables new).trans ((programmed.tables new).trans (copied.trans (same.tables cur)))

end Tables

section Steps
variable {s s' : FileRun Task Obj Dev} {a : FileAction Task Obj} {q : Pid} {t u : Thread}

/- The thread that makes the call; a reaping is not ascribed to one. -/
def FileAction.caller : FileAction Task Obj → Option Thread
  | .exec t _ _ _ | .createThread t _ | .threadExit t | .startTransfer t _ | .endTransfer t _
  | .close t _ | .dup2 t _ _ | .openDevice t _ | .openInfo t _ | .pipe t _ _ | .socket t _ _
  | .accept t _ _ => some t
  | .reap _ => none

/- The parent and the new process of a successful Exec. -/
def FileRun.execed (s : FileRun Task Obj Dev) : FileAction Task Obj → Option (Pid × Pid)
  | .exec t call argl args => (sysExec s.kernel t.1 call argl args).1.map (t.1,·)
  | _ => none

/-- What a step does to the file tables. -/
structure Flow (s s' : FileRun Task Obj Dev) (a : FileAction Task Obj) : Prop where
  others : ∀ q, (∀ t ∈ a.caller, t.1 ≠ q) → (∀ p, s.execed a ≠ some (p,q)) →
    (s'.kernel.PT q).FIDT = (s.kernel.PT q).FIDT
  entries : ∀ q i f, (s'.kernel.PT q).FIDT i = some f →
    (∃ j, (s.kernel.PT q).FIDT j = some f) ∨
    (∃ p, s.execed a = some (p,q) ∧ ∃ j, (s.kernel.PT p).FIDT j = some f) ∨
    s'.kernel.files.opens f ≠ s.kernel.files.opens f

theorem table_flow (caller : a.caller = some t) (step : TableStep s.kernel s'.kernel t.1) :
    Flow s s' a := by
  refine ⟨fun q apart _ => ?_,fun q i f entry => ?_⟩
  · exact step.others q (apart t caller).symm
  · by_cases here : q = t.1
    · subst here
      rcases step.entries i f entry with old | opened
      · exact Or.inl old
      · exact Or.inr (Or.inr opened)
    · rw [step.others q here] at entry
      exact Or.inl ⟨i,entry⟩

theorem same_flow (same : ∀ p, (s'.kernel.PT p).FIDT = (s.kernel.PT p).FIDT) : Flow s s' a :=
  ⟨fun q _ _ => same q,fun q i _ entry => Or.inl ⟨i,same q ▸ entry⟩⟩

/-- An entry of a file table has been there before, or is inherited from the parent of a new
    process, or has just been opened. -/
theorem step_flow (ops : FileOps Obj Dev) (inv : FilesSettled s) (enabled : FileEnabled s a)
    (run : fileExec ops s a = some s') : Flow s s' a := by
  have balanced := inv.balanced
  cases a with
  | exec t call argl args =>
    cases run
    obtain ⟨⟨ok,_,closed⟩,_⟩ := running_files inv enabled.1
    cases head : s.kernel.pcbFreelist with
    | none => exact same_flow fun p => by simp only [exec_full head]
    | some new =>
      have alive := running_alive ok enabled.1
      obtain ⟨k,made,_⟩ := exec_spec head t.1 call argl args
      have execed : s.execed (.exec t call argl args) = some (t.1,new) := by
        simp only [FileRun.execed, made, Option.map_some]
      have kept {q : Pid} (apart : q ≠ new) :=
        exec_tables ok balanced closed head t.1 call argl args apart
      refine ⟨fun q _ other => kept fun same => other t.1 (same ▸ execed),fun q i f entry => ?_⟩
      by_cases here : q = new
      · subst here
        rw [exec_inherits ok head alive] at entry
        exact Or.inr (Or.inl ⟨t.1,execed,i,entry⟩)
      · rw [kept here] at entry
        exact Or.inl ⟨i,entry⟩
  | createThread t tid =>
    cases run
    have same := same_files_modify s.kernel t.1 (g := fun b =>
      { b with threadCount := b.threadCount + 1, threads := b.threads ++ [tid] }) (fun _ => rfl)
    exact same_flow same.tables
  | threadExit t =>
    obtain ⟨k',exit,rfl⟩ := Option.map_eq_some_iff.mp run
    refine table_flow rfl ⟨fun p apart => exit_tables ops balanced exit (Or.inl apart),
      fun i f entry => Or.inl ⟨i,?_⟩⟩
    by_cases last : (s.kernel.PT t.1).threadCount = 1
    · obtain ⟨files,rooted⟩ := running_files inv enabled.1.1
      have gone := exit_gone ops files rooted enabled.1.1 exit
      rw [gone.tables t.1 (by simp [gone.states, last]) i] at entry
      cases entry
    · rwa [exit_tables ops balanced exit (Or.inr last)] at entry
  | reap p =>
    cases run
    refine same_flow fun q => ?_
    by_cases here : q = p <;> simp [cleanupZombie, releasePCB, unlinkChild, here]
  | startTransfer t fid =>
    simp only [fileExec, startTransfer] at run
    split at run
    · rename_i found
      split at found <;> cases found
      cases run
      exact same_flow fun _ => rfl
    · rename_i found
      split at found <;> cases found
      cases run
      exact same_flow fun _ => rfl
  | endTransfer t f =>
    cases run
    exact same_flow fun _ => rfl
  | close t fid =>
    cases run
    exact table_flow rfl (close_table ops balanced t.1 fid)
  | dup2 t oldfd newfd =>
    cases run
    exact table_flow rfl (dup2_table ops balanced t.1 oldfd newfd)
  | openDevice t opened =>
    obtain ⟨r,open',rfl⟩ := Option.map_eq_some_iff.mp run
    exact table_flow rfl (open_stream_table balanced t.1 opened open')
  | openInfo t picb =>
    cases run
    exact table_flow rfl (open_info_table balanced t.1 picb)
  | pipe t reader writer =>
    cases run
    exact table_flow rfl (pipe_table balanced t.1 reader writer)
  | socket t port socket | accept t port socket =>
    cases run
    exact table_flow rfl (socket_table balanced t.1 port socket)

/-- A thread leaves its process by its own exit only. -/
theorem thread_stays (ops : FileOps Obj Dev) (inv : FilesSettled s) (enabled : FileEnabled s a)
    (run : fileExec ops s a = some s') (other : a ≠ .threadExit u)
    (member : u.2 ∈ (s.kernel.PT u.1).threads) : u.2 ∈ (s'.kernel.PT u.1).threads := by
  obtain ⟨files,rooted⟩ := running_files inv member
  have balanced := inv.balanced
  have same (procs : s'.kernel.procs = s.kernel.procs) :
      u.2 ∈ (s'.kernel.PT u.1).threads := by
    rw [show (s'.kernel.PT u.1).threads = (s.kernel.PT u.1).threads from
      congrArg Links.threads (congrFun (procs_tree procs) u.1)]
    exact member
  cases a with
  | exec t call argl args =>
    cases run
    cases head : s.kernel.pcbFreelist with
    | none => simpa only [exec_full head] using member
    | some new =>
      obtain ⟨k,made,tree,_⟩ := exec_spec head t.1 call argl args
      have apart : u.1 ≠ new := by
        intro here
        have alive := running_alive files.ok member
        rw [here, head_unused files.ok head] at alive
        cases alive
      have kept : (k.PT u.1).threads = (s.kernel.PT u.1).threads := by
        refine (congrArg Links.threads (congrFun tree u.1)).trans ?_
        cases call <;>
          simp [Tree.execed, Tree.started, Tree.attached, Tree.acquired, apart, Kernel.tree]
      simp only [made]
      rwa [kept]
  | createThread t tid =>
    cases run
    have entry := congrArg Links.threads (create_thread_tree s.kernel t.1 tid u.1)
    rw [show ((sysCreateThread s.kernel t.1 tid).PT u.1).threads = _ from entry]
    exact List.mem_append_left _ member
  | threadExit t =>
    obtain ⟨k',exit,rfl⟩ := Option.map_eq_some_iff.mp run
    change u.2 ∈ (k'.PT u.1).threads
    rw [(exit_gone ops files rooted enabled.1.1 exit).threads]
    split
    · rename_i here
      have apart : u.2 ≠ t.2 := fun same => other (by rw [show u = t from Prod.ext here same])
      exact (List.mem_erase_of_ne apart).mpr member
    · exact member
  | reap p =>
    cases run
    have entry := congrArg Links.threads (congrFun (cleanup_spec s.kernel p).1 u.1)
    rw [show ((cleanupZombie s.kernel p).2.PT u.1).threads = _ from entry]
    exact member
  | startTransfer t fid =>
    simp only [fileExec, startTransfer] at run
    split at run
    · rename_i found
      split at found <;> cases found
      cases run
      exact member
    · rename_i found
      split at found <;> cases found
      cases run
      exact member
  | endTransfer t f =>
    cases run
    exact member
  | close t fid =>
    cases run
    exact same (close_step ops balanced t.1 fid).2.1
  | dup2 t oldfd newfd =>
    cases run
    exact same (dup2_step ops balanced t.1 oldfd newfd).2.1
  | openDevice t opened =>
    obtain ⟨r,open',step⟩ := open_stream_step balanced t.1 opened
    simp only [fileExec, open', Option.map_some, Option.some.injEq] at run
    cases run
    exact same step.procs
  | openInfo t picb =>
    cases run
    exact same (open_info_step balanced t.1 picb).procs
  | pipe t reader writer =>
    obtain ⟨result,k',made,step,_⟩ := pipe_spec balanced t.1 reader writer
    simp only [fileExec, made, Option.some.injEq] at run
    cases run
    exact same step.procs
  | socket t port socket | accept t port socket =>
    cases run
    exact same (socket_step balanced t.1 port socket).procs

/-- The calls in progress are made by threads of their processes. -/
def UsersRun (s : FileRun Task Obj Dev) : Prop := ∀ e ∈ s.inUse, e.1.2 ∈ (s.kernel.PT e.1.1).threads

theorem users_step (ops : FileOps Obj Dev) (inv : FilesSettled s) (users : UsersRun s)
    (enabled : FileEnabled s a) (run : fileExec ops s a = some s') : UsersRun s' := by
  rintro ⟨u,f⟩ member
  rcases user_origin enabled run member with before | ⟨idle,⟨fid,rfl⟩,_⟩
  · refine thread_stays ops inv enabled run ?_ (users _ before)
    rintro rfl
    exact enabled.1.2 (List.mem_map_of_mem before)
  · exact thread_stays ops inv enabled run (fun same => by cases same) idle.1

end Steps
end KernelStreams
