import TinyOS.StreamRefs

/- Each system call that adds or drops references keeps the ledger of the FCBs balanced. A call
   either opens streams or closes them, never both. -/
namespace KernelStreams
open KernelProc Tally
variable {Task Obj Dev : Type} {k k' : Kernel Task Obj Dev} {cur new p : Pid} {i : Fid}
  {f : FcbRef} {held : FcbRef → Nat} {pending : List FcbRef} {New : Obj → Prop}

theorem attach_child_files (balanced : Balanced k held pending)
    (empty : ∀ i, (k.PT new).FIDT i = none) (cur : Pid) :
    Balanced (attachChild k cur new) held pending ∧
    OpensOnly New k.files (attachChild k cur new).files ∧
    ∀ p, p ≠ new → ((attachChild k cur new).PT p).FIDT = (k.PT p).FIDT := by
  unfold attachChild
  split
  · have same := same_files_modify k new (g := ({ · with parent := none })) (fun _ => rfl)
    exact ⟨balanced_same balanced same,.refl _,fun p _ => same.tables p⟩
  · have same := same_files_trans
      (same_files_modify k new (g := ({ · with parent := some cur })) (fun _ => rfl))
      (same_files_modify _ cur
        (g := fun b => { b with childrenList := new :: b.childrenList }) (fun _ => rfl))
    obtain ⟨balanced',only,opening⟩ := inherit_balanced cur (List.finRange maxFileid)
      (List.nodup_finRange _) _ (balanced_same balanced same)
      (fun i _ => (congrFun (same.tables new) i).trans (empty i))
    exact ⟨balanced',opening,fun p apart => (only.others p apart).trans (same.tables p)⟩

theorem start_files (k : Kernel Task Obj Dev) (new : Pid) (call : Option Task) :
    SameFiles k (startMainThread k new call) := by
  cases call with
  | none => exact ⟨fun _ => rfl,rfl⟩
  | some task =>
    exact same_files_modify k new
      (g := fun b => { b with threadCount := b.threadCount + 1, threads := b.threads ++ [0] })
      (fun _ => rfl)

theorem acquire_files (head : k.pcbFreelist = some new) :
    ∃ k', acquirePCB k = some (new,k') ∧ SameFiles k k' := by
  refine ⟨_,by simp only [acquirePCB, head]; rfl,?_⟩
  have modified := same_files_modify k new (g := ({ · with pstate := .alive })) (fun _ => rfl)
  exact ⟨modified.tables,rfl⟩

/-- A process that is not ALIVE has no open fids. -/
def Closed (k : Kernel Task Obj Dev) : Prop :=
  ∀ p, (k.PT p).pstate ≠ .alive → ∀ i, (k.PT p).FIDT i = none

theorem exec_files (ok : KernelOk k) (balanced : Balanced k held []) (closed : Closed k)
    (cur : Pid) (call : Option Task) (argl : Int) (args : Option (List UInt8)) :
    Balanced (sysExec k cur call argl args).2 held [] ∧ Closed (sysExec k cur call argl args).2 ∧
    OpensOnly New k.files (sysExec k cur call argl args).2.files := by
  cases head : k.pcbFreelist with
  | none =>
    rw [exec_full head]
    exact ⟨balanced,closed,.refl _⟩
  | some new =>
    have unused := head_unused ok head
    have empty : ∀ i, (k.PT new).FIDT i = none := closed new (by simp [unused])
    obtain ⟨k₀,exec,tree,_⟩ := exec_spec head cur call argl args
    obtain ⟨k₁,acquired,same⟩ := acquire_files head
    obtain ⟨balanced₂,opening₂,tables₂⟩ := attach_child_files (balanced_same balanced same)
      (fun i => (congrFun (same.tables new) i).trans (empty i)) cur
    have same₃ := same_files_trans
      (same_files_modify (attachChild k₁ cur new) new
        (g := ({ · with mainTask := call, argl := argl, args := args.map (List.take argl.toNat) }))
        (fun _ => rfl))
      (start_files (setProgram (attachChild k₁ cur new) new call argl args) new call)
    have result : (sysExec k cur call argl args).2 =
        startMainThread (setProgram (attachChild k₁ cur new) new call argl args) new call := by
      simp only [sysExec, acquired]
    refine ⟨?_,?_,?_⟩
    · rw [result]
      exact balanced_same balanced₂ same₃
    · intro p dead i
      have state := congrArg Links.pstate (congrFun tree p)
      rw [execed_pstate] at state
      rw [exec] at dead ⊢
      simp only [Kernel.tree] at state
      have apart : p ≠ new := by
        rintro rfl
        exact dead (by simpa using state)
      have table : (k₀.PT p).FIDT = (k.PT p).FIDT := by
        have whole : k₀ = _ := (congrArg Prod.snd exec).symm.trans result
        rw [whole]
        exact (same₃.tables p).trans ((tables₂ p apart).trans (same.tables p))
      rw [table]
      exact closed p (by simpa [state, apart] using dead) i
    · rw [result]
      rw [same₃.files, ← same.files]
      exact opening₂

theorem cleanup_files (balanced : Balanced k held []) (closed : Closed k)
    (zombie : (k.PT p).pstate = .zombie) :
    Balanced (cleanupZombie k p).2 held [] ∧ Closed (cleanupZombie k p).2 ∧
    (cleanupZombie k p).2.files = k.files := by
  have tables (q : Pid) : ((cleanupZombie k p).2.PT q).FIDT = (k.PT q).FIDT := by
    by_cases here : q = p <;> simp [cleanupZombie, releasePCB, unlinkChild, here]
  refine ⟨balanced_same balanced ⟨tables,rfl⟩,fun q dead i => ?_,rfl⟩
  have state := congrArg Links.pstate (congrFun (cleanup_spec k p).1 q)
  simp only [Kernel.tree, Tree.reaped] at state
  rw [tables q]
  refine closed q (fun alive => ?_) i
  by_cases here : q = p
  · simp [here, zombie] at alive
  · exact dead (by simpa [here, alive] using state)

theorem reparent_files (cur : Pid) (xs : List Pid) :
    ∀ k : Kernel Task Obj Dev, SameFiles k (reparentLoop cur xs k) := by
  induction xs with
  | nil => exact fun k => ⟨fun _ => rfl,rfl⟩
  | cons child rest ih =>
    intro k
    have popped := same_files_modify k cur (g := ({ · with childrenList := rest })) (fun _ => rfl)
    have given := same_files_modify (k.modify cur ({ · with childrenList := rest })) child
      (g := ({ · with parent := some initpcb })) (fun _ => rfl)
    have pushed := same_files_modify ((k.modify cur ({ · with childrenList := rest })).modify child
      ({ · with parent := some initpcb })) initpcb
      (g := fun b => { b with childrenList := child :: b.childrenList }) (fun _ => rfl)
    exact same_files_trans (same_files_trans (same_files_trans popped given) pushed) (ih _)

theorem append_exited_files (k : Kernel Task Obj Dev) (cur : Pid) :
    SameFiles k (appendExited k cur) := by
  unfold appendExited
  split
  · exact ⟨fun _ => rfl,rfl⟩
  · have one := same_files_modify k initpcb
      (g := fun b => { b with exitedList := b.exitedList ++ (k.PT cur).exitedList }) (fun _ => rfl)
    have two := same_files_modify (k.modify initpcb fun b =>
      { b with exitedList := b.exitedList ++ (k.PT cur).exitedList }) cur
        (g := ({ · with exitedList := [] })) (fun _ => rfl)
    have both := same_files_trans one two
    exact ⟨both.tables,both.files⟩

theorem leave_files (run : leaveTree k cur = some k') : SameFiles k k' := by
  unfold leaveTree at run
  split at run
  · simp only [joinExited, Option.bind_eq_bind, Option.bind_eq_some_iff, Option.some.injEq] at run
    obtain ⟨parent,_,rfl⟩ := run
    have before := same_files_trans (reparent_files cur (k.PT cur).childrenList k)
      (append_exited_files _ cur)
    have joined := same_files_modify
      (appendExited (reparentLoop cur (k.PT cur).childrenList k) cur) parent
      (g := fun b => { b with exitedList := cur :: b.exitedList }) (fun _ => rfl)
    have whole := same_files_trans before joined
    exact ⟨whole.tables,whole.files⟩
  · cases run
    exact ⟨fun _ => rfl,rfl⟩

theorem exit_process_files (ops : FileOps Obj Dev) (balanced : Balanced k held [])
    (run : exitProcess ops k cur = some k') :
    Balanced k' held [] ∧ (∀ p, p ≠ cur → (k'.PT p).FIDT = (k.PT p).FIDT) ∧
    (∀ i, (k'.PT cur).FIDT i = none) ∧ ClosesOnly ops k.files k'.files := by
  simp only [exitProcess, Option.bind_eq_bind, Option.bind_eq_some_iff] at run
  obtain ⟨k₁,left,run⟩ := run
  split at run
  · have same := same_files_trans (leave_files left)
      (same_files_modify k₁ cur (g := ({ · with args := none })) (fun _ => rfl))
    obtain ⟨balanced',only,gone,closing⟩ := clear_balanced ops cur (List.finRange maxFileid) _
      (balanced_same balanced same)
    have ended := same_files_modify (clearFIDT ops (k₁.modify cur ({ · with args := none })) cur) cur
      (g := ({ · with pstate := .zombie })) (fun _ => rfl)
    cases run
    refine ⟨balanced_same balanced' ended,fun p apart => ?_,fun i => ?_,?_⟩
    · exact (ended.tables p).trans ((only.others p apart).trans (same.tables p))
    · exact (congrFun (ended.tables cur) i).trans (gone i (Or.inl (List.mem_finRange i)))
    · rw [← same.files]
      exact closing
  · cases run

theorem thread_exit_files (ops : FileOps Obj Dev) (ok : KernelOk k) (balanced : Balanced k held [])
    (closed : Closed k) {tid : Tid} (member : tid ∈ (k.PT cur).threads)
    (notLast : cur = initpcb → (k.PT cur).threadCount ≠ 1) :
    ∃ k', sysThreadExit ops k cur tid = some k' ∧ KernelOk k' ∧ Balanced k' held [] ∧ Closed k' ∧
      ClosesOnly ops k.files k'.files := by
  obtain ⟨k',run,ok',_,states⟩ := thread_exit_ok ops ok member notLast
  have left := same_files_modify k cur (g := fun b =>
    { b with threadCount := b.threadCount - 1, threads := b.threads.erase tid }) (fun _ => rfl)
  have alive := running_alive ok member
  refine ⟨k',run,ok',?_⟩
  simp only [sysThreadExit] at run
  split at run
  · obtain ⟨balanced',others,gone,closing⟩ :=
      exit_process_files ops (balanced_same balanced left) run
    refine ⟨balanced',fun p dead i => ?_,closing⟩
    by_cases here : p = cur
    · exact here ▸ gone i
    · rw [others p here, left.tables p]
      exact closed p (states p here ▸ dead) i
  · cases run
    refine ⟨balanced_same balanced left,fun p dead i => ?_,.refl ops _⟩
    have table := congrFun (left.tables p) i
    refine table.trans (closed p (fun running => dead ?_) i)
    by_cases here : p = cur
    · simp [leaveProcess, here, alive]
    · simpa [leaveProcess, here] using running

end KernelStreams
