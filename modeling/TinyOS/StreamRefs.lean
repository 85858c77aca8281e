import TinyOS.StreamLedger
import TinyOS.TableInvariant

/- The references to FCBs are the entries of all file tables and the Read and Write calls in
   progress. What each operation on the file tables does to their number, and that it keeps the
   ledger. -/
namespace KernelStreams
open KernelProc Tally
variable {Task Obj Dev : Type} {k k' : Kernel Task Obj Dev} {cur new p : Pid} {i : Fid}
  {f : FcbRef} {held : FcbRef → Nat} {pending : List FcbRef} {New : Obj → Prop}

def fileTable (k : Kernel Task Obj Dev) (x : Pid × Fid) : Option FcbRef := (k.PT x.1).FIDT x.2

/-- References from the file tables, and those held otherwise. -/
def refs (k : Kernel Task Obj Dev) (held : FcbRef → Nat) (f : FcbRef) : Nat :=
  occurrences (fileTable k) f + held f

abbrev Balanced (k : Kernel Task Obj Dev) (held : FcbRef → Nat) (pending : List FcbRef) : Prop :=
  Ledger k.files (refs k held) pending

theorem refs_congr (same : ∀ p, (k'.PT p).FIDT = (k.PT p).FIDT) (f : FcbRef) :
    refs k' held f = refs k held f := by
  have entries (x : Pid × Fid) : fileTable k' x = fileTable k x := congrFun (same x.1) x.2
  unfold refs
  rw [occurrences_congr entries f]

/-- Neither the file tables nor the FCBs have changed. -/
structure SameFiles (k k' : Kernel Task Obj Dev) : Prop where
  tables : ∀ p, (k'.PT p).FIDT = (k.PT p).FIDT
  files : k'.files = k.files

theorem same_files_trans {k'' : Kernel Task Obj Dev} (one : SameFiles k k')
    (two : SameFiles k' k'') : SameFiles k k'' :=
  ⟨fun p => (two.tables p).trans (one.tables p),two.files.trans one.files⟩

theorem same_files_modify (k : Kernel Task Obj Dev) (p : Pid) {g : PCB Task → PCB Task}
    (keeps : ∀ b, (g b).FIDT = b.FIDT) : SameFiles k (k.modify p g) := by
  refine ⟨fun q => ?_,rfl⟩
  by_cases here : q = p
  · simp [here, keeps]
  · simp [here]

theorem balanced_same (balanced : Balanced k held pending) (same : SameFiles k k') :
    Balanced k' held pending := by
  unfold Balanced
  rw [same.files]
  exact ledger_congr balanced (refs_congr same.tables)

theorem refs_set_fid (k : Kernel Task Obj Dev) (held : FcbRef → Nat) (cur : Pid) (i : Fid)
    (v : Option FcbRef) (f : FcbRef) :
    refs (setFid k cur i v) held f + (if (k.PT cur).FIDT i = some f then 1 else 0) =
      refs k held f + if v = some f then 1 else 0 := by
  have elsewhere (x : Pid × Fid) (apart : x ≠ (cur,i)) :
      fileTable (setFid k cur i v) x = fileTable k x := by
    simp only [fileTable, setFid, modify_PT]
    by_cases here : x.1 = cur
    · have other : x.2 ≠ i := fun same => apart (Prod.ext here same)
      simp [here, other]
    · simp [here]
  have entry : fileTable (setFid k cur i v) (cur,i) = v := by
    simp [fileTable, setFid]
  have before : fileTable k (cur,i) = (k.PT cur).FIDT i := rfl
  have moved := occurrences_overwrite (cur,i) elsewhere f
  rw [entry, before] at moved
  unfold refs
  omega

theorem refs_pos (holds : (k.PT p).FIDT i = some f) : 0 < refs k held f := by
  have entry : 0 < occurrences (fileTable k) f := occurrences_pos (k := (p,i)) holds
  unfold refs
  omega

/-- Only the entries is of the file table of p have changed. -/
structure OnlyFids (k k' : Kernel Task Obj Dev) (p : Pid) (is : List Fid) : Prop where
  others : ∀ q, q ≠ p → (k'.PT q).FIDT = (k.PT q).FIDT
  rest : ∀ j, j ∉ is → (k'.PT p).FIDT j = (k.PT p).FIDT j

theorem only_set_fid (k : Kernel Task Obj Dev) (p : Pid) (i : Fid) (v : Option FcbRef) :
    OnlyFids k (setFid k p i v) p [i] := by
  constructor
  · intro q apart
    simp [setFid, apart]
  · intro j apart
    have other : j ≠ i := by simpa using apart
    simp [setFid, other]

theorem set_fid_entry (k : Kernel Task Obj Dev) (p : Pid) (i : Fid) (v : Option FcbRef) :
    ((setFid k p i v).PT p).FIDT i = v := by
  simp [setFid]

theorem only_fids_cons {k'' : Kernel Task Obj Dev} {is : List Fid}
    (one : OnlyFids k k' p [i]) (more : OnlyFids k' k'' p is) : OnlyFids k k'' p (i :: is) := by
  constructor
  · intro q apart
    exact (more.others q apart).trans (one.others q apart)
  · intro j apart
    obtain ⟨first,later⟩ := not_or.mp (fun h => apart (List.mem_cons.mpr h))
    exact (more.rest j later).trans (one.rest j (by simpa using first))

/-- What the Close methods of the streams of these FCBs do, one after the other. -/
def closeAll (ops : FileOps Obj Dev) (FT : FcbRef → FCB Obj) (fs : List FcbRef) (d : Dev) : Dev :=
  fs.foldl (fun d f => (ops.close (FT f).stream d).2) d

theorem close_all_congr (ops : FileOps Obj Dev) {FT FT' : FcbRef → FCB Obj}
    (same : ∀ f, (FT' f).stream = (FT f).stream) (fs : List FcbRef) (d : Dev) :
    closeAll ops FT' fs d = closeAll ops FT fs d := by
  simp only [closeAll, same]

/-- No stream has been opened, and some may have been closed. -/
structure ClosesOnly (ops : FileOps Obj Dev) (s s' : Files Obj Dev) : Prop where
  opens : s'.opens = s.opens
  streams : ∀ f, (s'.FT f).stream = (s.FT f).stream
  closed : ∃ fs : List FcbRef, s'.device = closeAll ops s.FT fs s.device ∧
    ∀ f, s'.closes f = s.closes f + fs.count f

theorem closes_nothing (ops : FileOps Obj Dev) {s s' : Files Obj Dev} (opens : s'.opens = s.opens)
    (streams : ∀ f, (s'.FT f).stream = (s.FT f).stream) (device : s'.device = s.device)
    (closes : s'.closes = s.closes) : ClosesOnly ops s s' :=
  ⟨opens,streams,[],device,fun f => congrFun closes f⟩

theorem ClosesOnly.refl (ops : FileOps Obj Dev) (s : Files Obj Dev) : ClosesOnly ops s s :=
  closes_nothing ops rfl (fun _ => rfl) rfl rfl

theorem closes_only_trans {ops : FileOps Obj Dev} {s s' s'' : Files Obj Dev}
    (one : ClosesOnly ops s s') (two : ClosesOnly ops s' s'') : ClosesOnly ops s s'' := by
  obtain ⟨opens,streams,fs,device,closes⟩ := one
  obtain ⟨opens',streams',fs',device',closes'⟩ := two
  refine ⟨opens'.trans opens,fun f => (streams' f).trans (streams f),fs ++ fs',?_,fun f => ?_⟩
  · rw [device', close_all_congr ops streams, device]
    exact List.foldl_append.symm
  · rw [closes', closes, List.count_append]
    omega

theorem closes_only_le {ops : FileOps Obj Dev} {s s' : Files Obj Dev} (one : ClosesOnly ops s s')
    (f : FcbRef) : s.closes f ≤ s'.closes f := by
  obtain ⟨fs,_,closes⟩ := one.closed
  have count := closes f
  omega

theorem inherit_fid_balanced (balanced : Balanced k held pending)
    (empty : (k.PT new).FIDT i = none) (cur : Pid) :
    Balanced (inheritFid cur new k i) held pending ∧
    OnlyFids k (inheritFid cur new k i) new [i] ∧
    OpensOnly New k.files (inheritFid cur new k i).files := by
  have moved (v : Option FcbRef) (g : FcbRef) := refs_set_fid k held new i v g
  simp only [empty, reduceCtorEq, if_false, Nat.add_zero] at moved
  unfold inheritFid
  cases entry : (k.PT cur).FIDT i with
  | none =>
    refine ⟨?_,only_set_fid k new i none,.refl _⟩
    exact ledger_congr balanced (fun g => by simpa using moved none g)
  | some f =>
    have only := only_set_fid k new i (some f)
    refine ⟨?_,⟨only.others,only.rest⟩,set_refcount_opens k.files f _⟩
    apply ledger_incref balanced (ledger_in_use balanced (refs_pos entry))
    intro g
    have after := moved (some f) g
    change refs (setFid k new i (some f)) held g = _
    rw [after]
    simp only [Option.some.injEq, eq_comm]

theorem inherit_balanced (cur : Pid) (is : List Fid) (distinct : is.Nodup) :
    ∀ k : Kernel Task Obj Dev, Balanced k held pending → (∀ i ∈ is, (k.PT new).FIDT i = none) →
    Balanced (is.foldl (inheritFid cur new) k) held pending ∧
    OnlyFids k (is.foldl (inheritFid cur new) k) new is ∧
    OpensOnly New k.files (is.foldl (inheritFid cur new) k).files := by
  induction is with
  | nil =>
    intro k balanced _
    exact ⟨balanced,⟨fun _ _ => rfl,fun _ _ => rfl⟩,.refl _⟩
  | cons i is ih =>
    intro k balanced empty
    obtain ⟨outside,distinct'⟩ := List.nodup_cons.mp distinct
    obtain ⟨balanced',only,opening⟩ :=
      inherit_fid_balanced balanced (empty i (List.mem_cons_self ..)) cur
    obtain ⟨balanced'',only',opening'⟩ := ih distinct' _ balanced' (fun j member => by
      have other : j ∉ [i] := by
        rintro same
        exact outside (List.mem_singleton.mp same ▸ member)
      rw [only.rest j other]
      exact empty j (List.mem_cons_of_mem _ member))
    exact ⟨balanced'',only_fids_cons only only',opens_only_trans opening opening'⟩

theorem decref_closes (ops : FileOps Obj Dev) (s : Files Obj Dev) (f : FcbRef) :
    ClosesOnly ops s (fcbDecref ops s f).2 := by
  have streams := set_refcount_stream s f ((s.FT f).refcount - 1)
  unfold fcbDecref
  dsimp only
  split
  · refine ⟨rfl,streams,[f],?_,fun g => ?_⟩
    · simp only [releaseFCB, closeStream, closeAll, streams, List.foldl]
      rfl
    · simp only [releaseFCB, closeStream, Files.setRefcount, Function.update_apply]
      by_cases same : g = f
      · simp [same]
      · simp [same, Ne.symm same]
  · exact closes_nothing ops rfl streams rfl rfl

/-- A file table entry is given up together with its reference. -/
theorem drop_balanced (ops : FileOps Obj Dev) (balanced : Balanced k held [])
    (entry : (k.PT cur).FIDT i = some f) :
    Ledger (fcbDecref ops k.files f).2 (refs (setFid k cur i none) held) [] := by
  apply ledger_decref ops balanced (refs_pos entry) (by simp)
  intro g
  have after := refs_set_fid k held cur i none g
  rw [entry] at after
  simp only [reduceCtorEq, if_false, Nat.add_zero] at after
  rw [← after]
  simp only [Option.some.injEq, eq_comm]

theorem clear_fid_balanced (ops : FileOps Obj Dev) (cur : Pid) (i : Fid)
    (balanced : Balanced k held []) :
    Balanced (clearFid ops cur k i) held [] ∧ OnlyFids k (clearFid ops cur k i) cur [i] ∧
    ((clearFid ops cur k i).PT cur).FIDT i = none ∧
    ClosesOnly ops k.files (clearFid ops cur k i).files := by
  unfold clearFid
  cases entry : (k.PT cur).FIDT i with
  | none => exact ⟨balanced,⟨fun _ _ => rfl,fun _ _ => rfl⟩,entry,.refl ops _⟩
  | some f =>
    have only := only_set_fid k cur i none
    exact ⟨drop_balanced ops balanced entry,⟨only.others,only.rest⟩,set_fid_entry k cur i none,
      decref_closes ops k.files f⟩

theorem clear_balanced (ops : FileOps Obj Dev) (cur : Pid) (is : List Fid) :
    ∀ k : Kernel Task Obj Dev, Balanced k held [] →
    Balanced (is.foldl (clearFid ops cur) k) held [] ∧
    OnlyFids k (is.foldl (clearFid ops cur) k) cur is ∧
    (∀ i, i ∈ is ∨ (k.PT cur).FIDT i = none →
      ((is.foldl (clearFid ops cur) k).PT cur).FIDT i = none) ∧
    ClosesOnly ops k.files (is.foldl (clearFid ops cur) k).files := by
  induction is with
  | nil =>
    intro k balanced
    exact ⟨balanced,⟨fun _ _ => rfl,fun _ _ => rfl⟩,fun i empty => by simpa using empty,
      .refl ops _⟩
  | cons i is ih =>
    intro k balanced
    obtain ⟨balanced',only,gone,closing⟩ := clear_fid_balanced ops cur i balanced
    obtain ⟨balanced'',only',gone',closing'⟩ := ih _ balanced'
    refine ⟨balanced'',only_fids_cons only only',fun j wanted => gone' j ?_,
      closes_only_trans closing closing'⟩
    by_cases here : j = i
    · exact Or.inr (here ▸ gone)
    · rcases wanted with member | empty
      · exact Or.inl ((List.mem_cons.mp member).resolve_left here)
      · exact Or.inr ((only.rest j (by simpa using here)).trans empty)

end KernelStreams
