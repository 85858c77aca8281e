import TinyOS.StreamCalls

/- FCB_reserve, and the calls that open streams with it. -/
namespace KernelStreams
open KernelProc Tally
variable {Task Obj Dev : Type} {k k' : Kernel Task Obj Dev} {s : Files Obj Dev} {cur : Pid}
  {f : FcbRef} {held references : FcbRef → Nat} {pending other : List FcbRef} {New : Obj → Prop}

theorem find_fids_spec (FIDT : Fid → Option FcbRef) (num : Nat) :
    ∀ f fids, findFids FIDT num f = some fids →
      fids.length = num ∧ fids.Nodup ∧ ∀ i ∈ fids, f ≤ i.val ∧ FIDT i = none := by
  induction num with
  | zero =>
    intro f fids found
    cases found
    exact ⟨rfl,List.nodup_nil,by simp⟩
  | succ num ih =>
    intro f fids found
    simp only [findFids, Option.bind_eq_bind, Option.bind_eq_some_iff, Option.some.injEq] at found
    obtain ⟨i,first,rest,later,rfl⟩ := found
    obtain ⟨length,distinct,free⟩ := ih _ _ later
    have here : f ≤ i.val ∧ FIDT i = none := by simpa using List.find?_some first
    refine ⟨by simp [length],List.nodup_cons.mpr ⟨fun again => ?_,distinct⟩,fun j member => ?_⟩
    · have := (free i again).1
      omega
    · rcases List.mem_cons.mp member with rfl | member
      · exact here
      · obtain ⟨above,none⟩ := free j member
        exact ⟨by omega,none⟩

theorem ledger_pending_congr (ledger : Ledger s references pending)
    (same : ∀ f, f ∈ other ↔ f ∈ pending) : Ledger s references other := by
  obtain ⟨nodup,free,counted,inUse,apart,history⟩ := ledger
  refine ⟨nodup,free,counted,fun f off fresh => ?_,fun f member => ?_,fun f => ?_⟩
  · exact inUse f off (fun member => fresh ((same f).mpr member))
  · exact apart f ((same f).mp member)
  · simp only [history f, same f]

theorem acquire_fcbs_spec (num : Nat) : ∀ (s : Files Obj Dev) (pending : List FcbRef),
    Ledger s references pending →
    Ledger (acquireFCBs num s).2 references ((acquireFCBs num s).1 ++ pending) ∧
    (acquireFCBs num s).1.Nodup ∧
    (∀ f ∈ (acquireFCBs num s).1, references f = 0 ∧ f ∉ pending) ∧
    OpensOnly New s (acquireFCBs num s).2 ∧ (acquireFCBs num s).1.length ≤ num := by
  induction num with
  | zero =>
    intro s pending ledger
    exact ⟨ledger,List.nodup_nil,by simp [acquireFCBs],.refl _,le_refl 0⟩
  | succ num ih =>
    intro s pending ledger
    cases acquired : acquireFCB s with
    | none =>
      simp only [acquireFCBs, acquired]
      exact ⟨ledger,List.nodup_nil,by simp,.refl _,by simp⟩
    | some r =>
      obtain ⟨f,s'⟩ := r
      obtain ⟨ledger',none,fresh,opening⟩ := ledger_acquire ledger acquired
      obtain ⟨ledger'',distinct,zero,opening',short⟩ := ih s' (f :: pending) ledger'
      simp only [acquireFCBs, acquired]
      refine ⟨ledger_pending_congr ledger'' (fun g => ?_),?_,fun g member => ?_,?_,?_⟩
      · simp only [List.cons_append, List.mem_cons, List.mem_append]
        grind
      · refine List.nodup_cons.mpr ⟨fun again => ?_,distinct⟩
        exact (zero f again).2 (List.mem_cons_self ..)
      · rcases List.mem_cons.mp member with rfl | later
        · exact ⟨none,fresh⟩
        · obtain ⟨unused,apart⟩ := zero g later
          exact ⟨unused,fun old => apart (List.mem_cons_of_mem _ old)⟩
      · exact opens_only_trans opening opening'
      · simpa using short

theorem roll_back_spec (xs : List FcbRef) : ∀ s : Files Obj Dev,
    Ledger s references (xs ++ pending) → xs.Nodup →
    (∀ f ∈ xs, references f = 0 ∧ f ∉ pending) →
    Ledger (xs.foldl releaseFCB s) references pending ∧
      OpensOnly New s (xs.foldl releaseFCB s) := by
  induction xs with
  | nil => exact fun s ledger _ _ => ⟨ledger,.refl _⟩
  | cons f xs ih =>
    intro s ledger distinct unused
    obtain ⟨outside,distinct'⟩ := List.nodup_cons.mp distinct
    obtain ⟨none,apart⟩ := unused f (List.mem_cons_self ..)
    have released := ledger_release ledger (by simp [outside, apart]) none (fun _ _ => rfl)
    obtain ⟨final,opening⟩ :=
      ih _ released distinct' (fun g member => unused g (List.mem_cons_of_mem _ member))
    exact ⟨final,⟨opening.closes,opening.opens,opening.device,opening.kept,opening.opened⟩⟩

theorem set_fid_procs (k : Kernel Task Obj Dev) (cur : Pid) (i : Fid) (v : Option FcbRef) :
    (setFid k cur i v).procs = k.procs :=
  modify_FIDT_procs k cur (fun b => Function.update b.FIDT i v)

/-- Binding reserved FCBs to free fids gives each of them its first reference. -/
theorem bind_fids_spec (cur : Pid) (es : List (Fid × FcbRef)) : ∀ k : Kernel Task Obj Dev,
    Balanced k held pending → (es.map Prod.fst).Nodup →
    (∀ e ∈ es, (k.PT cur).FIDT e.1 = none ∧ e.2 ∈ pending) →
    Balanced (es.foldl (bindFid cur) k) held pending ∧
    (es.foldl (bindFid cur) k).procs = k.procs ∧
    OnlyFids k (es.foldl (bindFid cur) k) cur (es.map Prod.fst) ∧
    (∀ e ∈ es, ((es.foldl (bindFid cur) k).PT cur).FIDT e.1 = some e.2) ∧
    (∀ g, refs (es.foldl (bindFid cur) k) held g = refs k held g + (es.map Prod.snd).count g) ∧
    OpensOnly New k.files (es.foldl (bindFid cur) k).files := by
  induction es with
  | nil =>
    intro k balanced _ _
    exact ⟨balanced,rfl,⟨fun _ _ => rfl,fun _ _ => rfl⟩,by simp,by simp,
      .refl _⟩
  | cons e es ih =>
    intro k balanced distinct free
    obtain ⟨outside,distinct'⟩ := List.nodup_cons.mp distinct
    obtain ⟨empty,fresh⟩ := free e (List.mem_cons_self ..)
    have moved (g : FcbRef) :
        refs (bindFid cur k e) held g = refs k held g + if g = e.2 then 1 else 0 := by
      have after := refs_set_fid k held cur e.1 (some e.2) g
      rw [empty] at after
      simp only [reduceCtorEq, if_false, Nat.add_zero, Option.some.injEq] at after
      simp only [eq_comm (a := g)]
      exact after
    have only : OnlyFids k (bindFid cur k e) cur [e.1] :=
      let set := only_set_fid k cur e.1 (some e.2)
      ⟨set.others,set.rest⟩
    have balanced' : Balanced (bindFid cur k e) held pending :=
      ledger_incref balanced (balanced.apart e.2 fresh) moved
    obtain ⟨balanced'',procs,only',bound,counts,opening⟩ := ih (bindFid cur k e) balanced' distinct'
      (fun d member => by
        obtain ⟨none,later⟩ := free d (List.mem_cons_of_mem _ member)
        have apart : d.1 ∉ [e.1] := by
          intro same
          exact outside (List.mem_singleton.mp same ▸ List.mem_map_of_mem member)
        exact ⟨(only.rest d.1 apart).trans none,later⟩)
    refine ⟨balanced'',procs.trans (set_fid_procs k cur e.1 (some e.2)),only_fids_cons only only',
      ?_,?_,opens_only_trans (set_refcount_opens k.files e.2 _) opening⟩
    · intro d member
      rcases List.mem_cons.mp member with rfl | later
      · refine (only'.rest d.1 outside).trans ?_
        exact set_fid_entry k cur d.1 (some d.2)
      · exact bound d later
    · intro g
      have after := counts g
      rw [moved g] at after
      simp only [List.map_cons, List.count_cons, beq_iff_eq, eq_comm (a := e.2)]
      simp only [List.foldl_cons]
      omega

/-- FCB_reserve changes nothing, or gives cur new FCBs with one reference each. -/
theorem reserve_spec (balanced : Balanced k held []) (cur : Pid) (num : Nat) :
    ∃ result k', fcbReserve k cur num = (result,k') ∧ k'.procs = k.procs ∧
      (∀ p, p ≠ cur → (k'.PT p).FIDT = (k.PT p).FIDT) ∧ OpensOnly New k.files k'.files ∧
      match result with
      | none => Balanced k' held []
      | some es => es.length = num ∧ Balanced k' held (es.map Prod.snd) ∧
          (es.map Prod.snd).Nodup ∧ (∀ e ∈ es, (k'.PT cur).FIDT e.1 = some e.2) ∧
          ∀ g ∈ es.map Prod.snd, refs k' held g = 1 := by
  unfold fcbReserve
  cases found : findFids (k.PT cur).FIDT num 0 with
  | none => exact ⟨none,k,rfl,rfl,fun _ _ => rfl,.refl _,balanced⟩
  | some fids =>
    obtain ⟨length,distinct,free⟩ := find_fids_spec _ num 0 fids found
    obtain ⟨ledger,fresh,unused,opening,short⟩ := acquire_fcbs_spec num k.files [] balanced
    cases acquired : acquireFCBs num k.files with
    | mk fcbs files =>
      rw [acquired] at ledger fresh unused opening short
      simp only [List.append_nil] at ledger
      by_cases few : fcbs.length < num
      · have backward : Ledger files (refs k held) (fcbs.reverse ++ []) :=
          ledger_pending_congr ledger fun g => by simp
        obtain ⟨released,opening'⟩ := roll_back_spec fcbs.reverse files backward
          (List.nodup_reverse.mpr fresh) (fun g member => unused g (List.mem_reverse.mp member))
        refine ⟨none,{ k with files := rollBack files fcbs },by simp [few],rfl,fun _ _ => rfl,?_,?_⟩
        · exact opens_only_trans opening opening'
        · exact released
      · have all : fids.length = fcbs.length := by
          simp only at short
          omega
        have firsts : (fids.zip fcbs).map Prod.fst = fids := List.map_fst_zip (by omega)
        have seconds : (fids.zip fcbs).map Prod.snd = fcbs := List.map_snd_zip (by omega)
        have balanced' : Balanced { k with files := files } held fcbs :=
          ledger_congr ledger (fun _ => rfl)
        obtain ⟨bal,procs,only,bound,counts,opening'⟩ := bind_fids_spec cur (fids.zip fcbs) _ balanced'
          (by rwa [firsts]) (fun e member => by
            have inFids : e.1 ∈ fids := firsts ▸ List.mem_map_of_mem member
            have inFcbs : e.2 ∈ fcbs := seconds ▸ List.mem_map_of_mem member
            exact ⟨(free e.1 inFids).2,inFcbs⟩)
        refine ⟨some (fids.zip fcbs),_,by simp [few],procs,only.others,
          opens_only_trans opening opening',?_⟩
        simp only [seconds]
        refine ⟨by simp [all, ← length],bal,fresh,bound,fun g member => ?_⟩
        have none : refs { k with files := files } held g = 0 := (unused g member).1
        rw [counts g, none, seconds, List.count_eq_one_of_mem fresh member]

/-- What a call that opens streams does: only file table entries of cur and no Close method
    are involved. -/
structure OpenStep (New : Obj → Prop) (k k' : Kernel Task Obj Dev) (held : FcbRef → Nat)
    (cur : Pid) : Prop where
  balanced : Balanced k' held []
  procs : k'.procs = k.procs
  tables : ∀ p, p ≠ cur → (k'.PT p).FIDT = (k.PT p).FIDT
  opening : OpensOnly New k.files k'.files

theorem attach_balanced (balanced : Balanced k held (f :: pending)) (once : f ∉ pending)
    (used : 0 < refs k held f) (stream : Obj) : Balanced (attach k f stream) held pending :=
  ledger_attach balanced once used stream

theorem open_step_weaken {New' : Obj → Prop} (step : OpenStep New k k' held cur)
    (weaker : ∀ o, New o → New' o) : OpenStep New' k k' held cur :=
  { step with opening := opens_only_weaken step.opening weaker }

theorem open_one (balanced : Balanced k held []) (cur : Pid) (stream : Obj) :
    ∃ k', (fcbReserve k cur 1 = (none,k') ∧ OpenStep (· = stream) k k' held cur) ∨
      ∃ e, fcbReserve k cur 1 = (some [e],k') ∧
        OpenStep (· = stream) k (attach k' e.2 stream) held cur := by
  obtain ⟨result,k',run,procs,tables,opening,outcome⟩ := reserve_spec balanced cur 1
  refine ⟨k',?_⟩
  cases result with
  | none => exact Or.inl ⟨run,⟨outcome,procs,tables,opening⟩⟩
  | some es =>
    obtain ⟨length,balanced',_,_,counts⟩ := outcome
    obtain ⟨e,rfl⟩ := List.length_eq_one_iff.mp length
    have one := counts e.2 (by simp)
    have opening' := opens_only_trans opening (attach_opens k'.files e.2 rfl)
    refine Or.inr ⟨e,run,⟨?_,procs,tables,opening'⟩⟩
    exact attach_balanced balanced' (by simp) (by omega) stream

theorem open_info_step (balanced : Balanced k held []) (cur : Pid) (picb : Obj) :
    OpenStep (· = picb) k (sysOpenInfo k cur picb).2 held cur := by
  obtain ⟨k',⟨run,step⟩ | ⟨e,run,step⟩⟩ := open_one balanced cur picb
  · simpa only [sysOpenInfo, run] using step
  · simpa only [sysOpenInfo, run] using step

theorem socket_step (balanced : Balanced k held []) (cur : Pid) (port : Int) (socket : Obj) :
    OpenStep (· = socket) k (sysSocket k cur port socket).2 held cur := by
  unfold sysSocket
  split
  · exact ⟨balanced,rfl,fun _ _ => rfl,.refl _⟩
  · obtain ⟨k',⟨run,step⟩ | ⟨e,run,step⟩⟩ := open_one balanced cur socket
    · simpa only [run] using step
    · simpa only [run] using step

theorem opens_none {s s' : Files Obj Dev} (opening : OpensOnly (fun _ => False) s s') :
    s'.opens = s.opens := by
  funext f
  by_contra other
  exact opening.opened f other

/-- What sys_Pipe does: without two fids and FCBs nothing, and otherwise it opens the two ends,
    which nobody else refers to. -/
theorem pipe_spec (balanced : Balanced k held []) (cur : Pid) (reader writer : Obj) :
    ∃ result k', sysPipe k cur reader writer = (result,k') ∧
      OpenStep (fun o => o = reader ∨ o = writer) k k' held cur ∧
      match result with
      | none => k'.files.opens = k.files.opens
      | some (i,j) => ∃ f g, (k'.PT cur).FIDT i = some f ∧ (k'.PT cur).FIDT j = some g ∧ f ≠ g ∧
          (k'.files.FT f).stream = reader ∧ (k'.files.FT g).stream = writer ∧
          ∀ h, k'.files.opens h = k.files.opens h + if h = f ∨ h = g then 1 else 0 := by
  obtain ⟨result,k',run,procs,tables,opening,outcome⟩ := reserve_spec balanced cur 2
  have reserved := opens_none opening
  have opening' : OpensOnly (fun o => o = reader ∨ o = writer) k.files k'.files :=
    opens_only_weaken opening (fun _ => False.elim)
  unfold sysPipe
  rw [run]
  cases result with
  | none => exact ⟨none,k',rfl,⟨outcome,procs,tables,opening'⟩,reserved⟩
  | some es =>
    obtain ⟨length,balanced',distinct,bound,counts⟩ := outcome
    obtain ⟨r,w,rfl⟩ := List.length_eq_two.mp length
    simp only [List.map_cons, List.map_nil, List.nodup_cons, List.not_mem_nil, List.mem_singleton,
      not_false_iff, List.nodup_nil, and_true] at balanced' distinct counts
    have first := counts r.2 (by simp)
    have second := counts w.2 (by simp)
    have attached : Balanced (attach k' r.2 reader) held [w.2] :=
      attach_balanced balanced' (by simpa using distinct) (by omega) reader
    have opening₁ := opens_only_trans opening' (attach_opens k'.files r.2 (Or.inl rfl))
    refine ⟨some (r.1,w.1),_,rfl,⟨?_,procs,tables,?_⟩,r.2,w.2,bound r (by simp),bound w (by simp),
      distinct,?_,?_,fun h => ?_⟩
    · exact attach_balanced attached (by simp) (second ▸ Nat.one_pos) writer
    · exact opens_only_trans opening₁ (attach_opens _ w.2 (Or.inr rfl))
    · simp [attach, attachStream, distinct]
    · simp [attach, attachStream]
    · simp only [attach, attachStream, Function.update_apply, reserved]
      grind

/-- A failing device_open gives the fid and the FCB back. -/
theorem open_stream_step (balanced : Balanced k held []) (cur : Pid) (opened : Option Obj) :
    ∃ r, openStream k cur opened = some r ∧ OpenStep (opened = some ·) k r.2 held cur := by
  unfold openStream
  cases opened with
  | some stream =>
    obtain ⟨k',⟨run,step⟩ | ⟨e,run,step⟩⟩ := open_one balanced cur stream
    · exact ⟨(none,k'),by simp only [run],open_step_weaken step (fun _ => congrArg some ∘ Eq.symm)⟩
    · exact ⟨(some e.1,attach k' e.2 stream),by simp only [run],
        open_step_weaken step (fun _ => congrArg some ∘ Eq.symm)⟩
  | none =>
    obtain ⟨result,k',run,procs,tables,opening,outcome⟩ := reserve_spec balanced cur 1
    cases result with
    | none => exact ⟨(none,k'),by simp only [run],⟨outcome,procs,tables,opening⟩⟩
    | some es =>
      obtain ⟨length,balanced',_,bound,counts⟩ := outcome
      obtain ⟨e,rfl⟩ := List.length_eq_one_iff.mp length
      have entry := bound e (by simp)
      have one := counts e.2 (by simp)
      have dropped (g : FcbRef) := refs_set_fid k' held cur e.1 none g
      have only := only_set_fid k' cur e.1 none
      refine ⟨(none,{ setFid k' cur e.1 none with files := releaseFCB k'.files e.2 }),?_,?_,?_,?_,?_⟩
      · simp only [run, fcbUnreserve, entry, if_true, Option.map_some]
        rfl
      · refine ledger_release balanced' (by simp) ?_ (fun g apart => ?_)
        · have after := dropped e.2
          simp only [entry, if_true, one] at after
          change refs (setFid k' cur e.1 none) held e.2 = 0
          simpa using after
        · have after := dropped g
          change refs (setFid k' cur e.1 none) held g = refs k' held g
          simpa [entry, Ne.symm apart] using after
      · exact (set_fid_procs k' cur e.1 none).trans procs
      · exact fun p apart => (only.others p apart).trans (tables p apart)
      · exact ⟨opening.closes,opening.opens,opening.device,opening.kept,opening.opened⟩

end KernelStreams
