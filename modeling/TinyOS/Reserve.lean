import TinyOS.StreamCounts

/- FCB_reserve takes all that was asked for or nothing: the lowest free fids of the process and
   the FCBs at the front of the free list. -/
namespace KernelStreams
open KernelProc Transition
variable {Task Obj Dev : Type} {k k' : Kernel Task Obj Dev} {cur : Pid} {num : Nat}

/- The free fids from f on, in increasing order. -/
def freeFrom (FIDT : Fid → Option FcbRef) (f : Nat) : List Fid :=
  (List.finRange maxFileid).filter fun i => f ≤ i.val ∧ FIDT i = none

def freeFids (k : Kernel Task Obj Dev) (p : Pid) : List Fid := freeFrom (k.PT p).FIDT 0

theorem next_free_head (FIDT : Fid → Option FcbRef) (f : Nat) :
    nextFree FIDT f = (freeFrom FIDT f).head? := by
  unfold nextFree freeFrom
  rw [List.head?_filter]

/-- Behind the first free fid the search goes on with the others. -/
theorem free_from_tail {FIDT : Fid → Option FcbRef} {f : Nat} {i : Fid} {rest : List Fid}
    (free : freeFrom FIDT f = i :: rest) : freeFrom FIDT (i.val + 1) = rest := by
  have sorted : (freeFrom FIDT f).Pairwise (· < ·) := (List.pairwise_lt_finRange _).filter _
  have first : i ∈ freeFrom FIDT f := by rw [free]; exact List.mem_cons_self ..
  rw [free, List.pairwise_cons] at sorted
  have above : f ≤ i.val := by
    simp only [freeFrom, List.mem_filter, decide_eq_true_eq] at first
    exact first.2.1
  have narrowed : freeFrom FIDT (i.val + 1) = (freeFrom FIDT f).filter fun j => i.val + 1 ≤ j.val := by
    unfold freeFrom
    rw [List.filter_filter]
    congr 1
    funext j
    rw [← Bool.decide_and]
    congr 1
    apply propext
    constructor
    · rintro ⟨later,empty⟩
      exact ⟨later,by omega,empty⟩
    · rintro ⟨later,_,empty⟩
      exact ⟨later,empty⟩
  rw [narrowed, free, List.filter_cons_of_neg (by simp)]
  apply List.filter_eq_self.mpr
  intro j member
  have later := Fin.lt_def.mp (sorted.1 j member)
  simp only [decide_eq_true_eq]
  omega

theorem find_fids_eq (FIDT : Fid → Option FcbRef) (num : Nat) : ∀ f, findFids FIDT num f =
    if num ≤ (freeFrom FIDT f).length then some ((freeFrom FIDT f).take num) else none := by
  induction num with
  | zero =>
    intro f
    simp [findFids]
  | succ num ih =>
    intro f
    simp only [findFids, next_free_head]
    cases free : freeFrom FIDT f with
    | nil => simp
    | cons i rest =>
      simp only [List.head?_cons, Option.bind_eq_bind, Option.bind_some, ih, free_from_tail free,
        List.length_cons, Nat.add_le_add_iff_right, List.take_succ_cons]
      split <;> rfl

/-- The acquired FCBs are the first ones of the free list. -/
theorem acquire_fcbs_eq (num : Nat) : ∀ s : Files Obj Dev,
    (acquireFCBs num s).1 = s.fcbFreelist.take num ∧
    (acquireFCBs num s).2.fcbFreelist = s.fcbFreelist.drop num ∧
    ∀ f ∉ s.fcbFreelist.take num, (acquireFCBs num s).2.FT f = s.FT f := by
  induction num with
  | zero =>
    intro s
    exact ⟨rfl,rfl,fun _ _ => rfl⟩
  | succ num ih =>
    intro s
    cases free : s.fcbFreelist with
    | nil => simp [acquireFCBs, acquireFCB, free]
    | cons f rest =>
      obtain ⟨taken,left,kept⟩ := ih ({ s with fcbFreelist := rest }.setRefcount f 0)
      simp only [acquireFCBs, acquireFCB, free, taken, left, List.take_succ_cons,
        List.drop_succ_cons]
      refine ⟨rfl,rfl,fun g apart => ?_⟩
      obtain ⟨other,apart⟩ := not_or.mp (fun same => apart (List.mem_cons.mpr same))
      rw [kept g apart]
      simp [Files.setRefcount, other]

theorem roll_back_eq (s : Files Obj Dev) (fcbs : List FcbRef) :
    (rollBack s fcbs).fcbFreelist = s.fcbFreelist ++ fcbs.reverse ∧ (rollBack s fcbs).FT = s.FT := by
  unfold rollBack
  generalize fcbs.reverse = fs
  induction fs generalizing s with
  | nil => simp
  | cons f fs ih =>
    obtain ⟨list,table⟩ := ih (releaseFCB s f)
    rw [List.foldl_cons, list, table]
    exact ⟨by simp [releaseFCB],rfl⟩

/-- Binding leaves the other file table entries and FCBs and the free list alone. -/
theorem bind_fids_files (cur : Pid) (es : List (Fid × FcbRef)) : ∀ k : Kernel Task Obj Dev,
    OnlyFids k (es.foldl (bindFid cur) k) cur (es.map Prod.fst) ∧
    (es.foldl (bindFid cur) k).files.fcbFreelist = k.files.fcbFreelist ∧
    ∀ f ∉ es.map Prod.snd, (es.foldl (bindFid cur) k).files.FT f = k.files.FT f := by
  induction es with
  | nil => exact fun k => ⟨⟨fun _ _ => rfl,fun _ _ => rfl⟩,rfl,fun _ _ => rfl⟩
  | cons e es ih =>
    intro k
    obtain ⟨only,list,kept⟩ := ih (bindFid cur k e)
    have set := only_set_fid k cur e.1 (some e.2)
    have bound : OnlyFids k (bindFid cur k e) cur [e.1] := ⟨set.others,set.rest⟩
    refine ⟨only_fids_cons bound only,list,fun f apart => ?_⟩
    obtain ⟨other,apart⟩ := not_or.mp (fun same => apart (List.mem_cons.mpr same))
    rw [List.foldl_cons, kept f apart]
    simp [bindFid, fcbIncref, Files.setRefcount, setFid, other]

/-- The file tables and the set of free FCBs are the same. -/
structure SameFree (k k' : Kernel Task Obj Dev) : Prop where
  tables : ∀ p, (k'.PT p).FIDT = (k.PT p).FIDT
  free : k'.files.fcbFreelist.Perm k.files.fcbFreelist

theorem same_free_refl (k : Kernel Task Obj Dev) : SameFree k k := ⟨fun _ => rfl,List.Perm.refl _⟩

/-- What a successful FCB_reserve has done. -/
structure Reserved (k k' : Kernel Task Obj Dev) (cur : Pid) (num : Nat)
    (es : List (Fid × FcbRef)) : Prop where
  length : es.length = num
  fids : es.map Prod.fst = (freeFids k cur).take num
  fcbs : (es.map Prod.snd).Nodup
  wereFree : ∀ e ∈ es, e.2 ∈ k.files.fcbFreelist
  bound : ∀ e ∈ es, (k'.PT cur).FIDT e.1 = some e.2 ∧ (k'.files.FT e.2).refcount = 1
  entries : ∀ p i, (p = cur → i ∉ es.map Prod.fst) → (k'.PT p).FIDT i = (k.PT p).FIDT i
  others : ∀ f ∉ es.map Prod.snd, k'.files.FT f = k.files.FT f
  free : k.files.fcbFreelist = es.map Prod.snd ++ k'.files.fcbFreelist

/-- The loop of FCB_unreserve. -/
theorem unreserve_spec (cur : Pid) (es : List (Fid × FcbRef)) : ∀ k : Kernel Task Obj Dev,
    (es.map Prod.fst).Nodup → (∀ e ∈ es, (k.PT cur).FIDT e.1 = some e.2) →
    ∃ k', fcbUnreserve cur es k = some k' ∧ OnlyFids k k' cur (es.map Prod.fst) ∧
      (∀ e ∈ es, (k'.PT cur).FIDT e.1 = none) ∧
      k'.files.fcbFreelist = k.files.fcbFreelist ++ es.map Prod.snd := by
  induction es with
  | nil => exact fun k _ _ => ⟨k,rfl,⟨fun _ _ => rfl,fun _ _ => rfl⟩,by simp,by simp⟩
  | cons e es ih =>
    intro k distinct bound
    obtain ⟨outside,distinct'⟩ := List.nodup_cons.mp distinct
    have here := bound e (List.mem_cons_self ..)
    have set := only_set_fid k cur e.1 none
    have set' : OnlyFids k { setFid k cur e.1 none with files := releaseFCB k.files e.2 } cur [e.1] :=
      ⟨set.others,set.rest⟩
    obtain ⟨k',run,only,gone,free⟩ := ih
      { setFid k cur e.1 none with files := releaseFCB k.files e.2 } distinct' (fun d member => by
        have apart : d.1 ∉ [e.1] := by
          intro same
          exact outside (List.mem_singleton.mp same ▸ List.mem_map_of_mem member)
        exact (set.rest d.1 apart).trans (bound d (List.mem_cons_of_mem _ member)))
    refine ⟨k',(if_pos here).trans run,only_fids_cons set' only,
      fun d member => ?_,?_⟩
    · rcases List.mem_cons.mp member with rfl | later
      · exact (only.rest d.1 outside).trans (set_fid_entry k cur d.1 none)
      · exact gone d later
    · rw [free]
      simp [releaseFCB]

/-- Unreserving what has been reserved gives everything back. -/
theorem unreserve_reserved {es : List (Fid × FcbRef)} (done : Reserved k k' cur num es) :
    ∃ k'', fcbUnreserve cur es k' = some k'' ∧ SameFree k k'' := by
  have sorted : (freeFids k cur).Nodup := (List.nodup_finRange _).filter _
  have distinct : (es.map Prod.fst).Nodup := by
    rw [done.fids]
    exact sorted.sublist (List.take_sublist ..)
  obtain ⟨k'',run,only,gone,free⟩ :=
    unreserve_spec cur es k' distinct (fun e member => (done.bound e member).1)
  refine ⟨k'',run,fun p => ?_,?_⟩
  · by_cases same : p = cur
    · subst same
      funext i
      by_cases member : i ∈ es.map Prod.fst
      · obtain ⟨e,here,rfl⟩ := List.mem_map.mp member
        rw [gone e here]
        have free : e.1 ∈ freeFids k p := by
          rw [done.fids] at member
          exact List.mem_of_mem_take member
        simp only [freeFids, freeFrom, List.mem_filter, decide_eq_true_eq] at free
        exact free.2.2.symm
      · exact (only.rest i member).trans (done.entries p i (fun _ => member))
    · rw [only.others p same]
      funext i
      exact done.entries p i (fun here => absurd here same)
  · rw [free, done.free]
    exact List.perm_append_comm

variable {held : FcbRef → Nat}

theorem unzip_take {α β : Type} {xs : List α} {ys : List β} {n : Nat} (enough : n ≤ xs.length)
    (enough' : n ≤ ys.length) : ((xs.take n).zip (ys.take n)).map Prod.fst = xs.take n ∧
      ((xs.take n).zip (ys.take n)).map Prod.snd = ys.take n := by
  have same : (xs.take n).length = (ys.take n).length := by
    rw [List.length_take, List.length_take]
    omega
  exact ⟨List.map_fst_zip same.le,List.map_snd_zip same.ge⟩

theorem reserve_success (balanced : Balanced k held []) (cur : Pid) (num : Nat)
    (fids : num ≤ (freeFids k cur).length) (fcbs : num ≤ k.files.fcbFreelist.length) :
    ∃ es k', fcbReserve k cur num = (some es,k') ∧ Reserved k k' cur num es := by
  obtain ⟨taken,left,kept⟩ := acquire_fcbs_eq num k.files
  have search := find_fids_eq (k.PT cur).FIDT num 0
  change num ≤ (freeFrom _ 0).length at fids
  rw [if_pos fids] at search
  have all : ¬ (acquireFCBs num k.files).1.length < num := by
    rw [taken, List.length_take]
    omega
  have run : fcbReserve k cur num =
      (some (((freeFids k cur).take num).zip (k.files.fcbFreelist.take num)),
        (((freeFids k cur).take num).zip (k.files.fcbFreelist.take num)).foldl (bindFid cur)
          { k with files := (acquireFCBs num k.files).2 }) := by
    simp only [fcbReserve, search]
    rw [if_neg all, taken]
    rfl
  obtain ⟨firsts,seconds⟩ := unzip_take (show num ≤ (freeFids k cur).length from fids) fcbs
  obtain ⟨only,list,table⟩ := bind_fids_files cur
    (((freeFids k cur).take num).zip (k.files.fcbFreelist.take num))
    { k with files := (acquireFCBs num k.files).2 }
  obtain ⟨result,k',run',_,_,_,outcome⟩ : ∃ result, ∃ k' : Kernel Task Obj Dev, _ ∧ _ ∧ _ ∧
      OpensOnly (fun _ => True) k.files k'.files ∧ _ := reserve_spec balanced cur num
  cases run'.symm.trans run
  obtain ⟨length,balanced',distinct,bound,counts⟩ := outcome
  refine ⟨_,_,run,length,firsts,distinct,fun e member => ?_,fun e member => ⟨bound e member,?_⟩,?_,
    fun f apart => ?_,?_⟩
  · have inTake := List.mem_map_of_mem (f := Prod.snd) member
    rw [seconds] at inTake
    exact List.mem_of_mem_take inTake
  · have inEs := List.mem_map_of_mem (f := Prod.snd) member
    rw [balanced'.counted e.2 (balanced'.apart e.2 inEs), counts e.2 inEs]
    rfl
  · intro p i apart
    by_cases same : p = cur
    · exact same ▸ only.rest i (apart same)
    · exact congrFun (only.others p same) i
  · rw [table f apart]
    rw [seconds] at apart
    exact kept f apart
  · rw [list, seconds, left]
    exact (List.take_append_drop num _).symm

/-- With too few FCBs all those acquired are released again. -/
theorem reserve_few_fcbs (fids : num ≤ (freeFids k cur).length)
    (fcbs : ¬ num ≤ k.files.fcbFreelist.length) :
    ∃ k', fcbReserve k cur num = (none,k') ∧ SameFree k k' := by
  obtain ⟨taken,left,kept⟩ := acquire_fcbs_eq num k.files
  have search := find_fids_eq (k.PT cur).FIDT num 0
  rw [if_pos (show num ≤ (freeFrom _ 0).length from fids)] at search
  have few : (acquireFCBs num k.files).1.length < num := by
    rw [taken, List.length_take]
    omega
  refine ⟨{ k with files := rollBack (acquireFCBs num k.files).2 (acquireFCBs num k.files).1 },?_,
    fun _ => rfl,?_⟩
  · simp only [fcbReserve, search]
    exact if_pos few
  · have whole : k.files.fcbFreelist.take num = k.files.fcbFreelist :=
      List.take_of_length_le (by omega)
    simp only [(roll_back_eq _ _).1, taken, left, whole]
    rw [List.drop_of_length_le (by omega), List.nil_append]
    exact List.reverse_perm _

/-- FCB_reserve, whatever the number of free fids and FCBs. -/
theorem reserve_outcome (balanced : Balanced k held []) (cur : Pid) (num : Nat) :
    ((fcbReserve k cur num).1.isSome ↔
      num ≤ (freeFids k cur).length ∧ num ≤ k.files.fcbFreelist.length) ∧
    match fcbReserve k cur num with
    | (none, k') => SameFree k k'
    | (some es, k') => Reserved k k' cur num es := by
  by_cases fids : num ≤ (freeFids k cur).length
  · by_cases fcbs : num ≤ k.files.fcbFreelist.length
    · obtain ⟨es,k',run,done⟩ := reserve_success balanced cur num fids fcbs
      rw [run]
      exact ⟨by simp [fids, fcbs],done⟩
    · obtain ⟨k',run,same⟩ := reserve_few_fcbs fids fcbs
      rw [run]
      exact ⟨by simp [fcbs],same⟩
  · have none : findFids (k.PT cur).FIDT num 0 = none := by
      rw [find_fids_eq]
      exact if_neg fids
    have run : fcbReserve k cur num = (Option.none,k) := by
      simp only [fcbReserve, none]
    rw [run]
    exact ⟨by simp [fids],same_free_refl k⟩

/-- A failing open_stream, and a failing sys_Pipe, leave things as they were. -/
theorem open_stream_fails (balanced : Balanced k held []) (cur : Pid) (opened : Option Obj) :
    ∃ fid k', openStream k cur opened = some (fid,k') ∧ (fid = none → SameFree k k') := by
  obtain ⟨_,outcome⟩ := reserve_outcome balanced cur 1
  unfold openStream
  cases run : fcbReserve k cur 1 with
  | mk result k' =>
    rw [run] at outcome
    cases result with
    | none => exact ⟨none,k',rfl,fun _ => outcome⟩
    | some es =>
      obtain ⟨e,rfl⟩ := List.length_eq_one_iff.mp outcome.length
      cases opened with
      | some stream => exact ⟨some e.1,_,rfl,by simp⟩
      | none =>
        obtain ⟨k'',back,same⟩ := unreserve_reserved outcome
        exact ⟨none,k'',by simp only [back, Option.map_some],fun _ => same⟩

theorem pipe_fails (balanced : Balanced k held []) (cur : Pid) {reader writer : Obj}
    (failed : sysPipe k cur reader writer = (none,k')) : SameFree k k' := by
  obtain ⟨_,outcome⟩ := reserve_outcome balanced cur 2
  unfold sysPipe at failed
  cases run : fcbReserve k cur 2 with
  | mk result k₁ =>
    rw [run] at outcome failed
    cases result with
    | none =>
      cases failed
      exact outcome
    | some es =>
      obtain ⟨r,w,rfl⟩ := List.length_eq_two.mp outcome.length
      cases failed

/-- In every reachable state FCB_reserve takes exactly what was asked for, from the lowest free
    fids on, or else nothing; FCB_unreserve and the failing open calls give everything back. -/
theorem reserve_all_or_nothing (ops : FileOps Obj Dev) {s : FileRun Task Obj Dev}
    (reach : (fileSystem Task ops).Reach s) (cur : Pid) (num : Nat) :
    s.kernel.files.fcbFreelist.Nodup ∧
    ((fcbReserve s.kernel cur num).1.isSome ↔
      num ≤ (freeFids s.kernel cur).length ∧ num ≤ s.kernel.files.fcbFreelist.length) ∧
    (match fcbReserve s.kernel cur num with
      | (none, k) => SameFree s.kernel k
      | (some es, k) => Reserved s.kernel k cur num es ∧
          ∃ k', fcbUnreserve cur es k = some k' ∧ SameFree s.kernel k') ∧
    (∀ opened, ∃ fid k, openStream s.kernel cur opened = some (fid,k) ∧
      (fid = none → SameFree s.kernel k)) ∧
    ∀ reader writer k, sysPipe s.kernel cur reader writer = (none,k) → SameFree s.kernel k := by
  have balanced := (file_reach_inv ops reach).balanced
  obtain ⟨success,outcome⟩ := reserve_outcome balanced cur num
  refine ⟨balanced.nodup,success,?_,open_stream_fails balanced cur,
    fun _ _ _ failed => pipe_fails balanced cur failed⟩
  cases run : fcbReserve s.kernel cur num with
  | mk result k =>
    rw [run] at outcome
    cases result with
    | none => exact outcome
    | some es => exact ⟨outcome,unreserve_reserved outcome⟩

theorem reserve_all_or_nothing_boot :
    ∃ s, (fileSystem Unit bareOps).Reach s ∧ (fcbReserve s.kernel 1 2).1.isSome := by
  have reach : (fileSystem Unit bareOps).Reach _ := .start ⟨(),(),(),0,none,rfl⟩
  refine ⟨_,reach,(reserve_all_or_nothing bareOps reach 1 2).2.1.mpr ⟨by decide,?_⟩⟩
  rw [(boot_files (initializeFiles () ()) () 0 none).1]
  change 2 ≤ initialFreelist.length
  rw [initialFreelist, List.length_map, List.length_range']
  decide

end KernelStreams
