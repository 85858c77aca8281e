import TinyOS.Threads

/- The PTCBs of a process: a PTCB is freed once, when its thread has exited and nobody is inside
   ThreadJoin on it any more, and its reference count says how many reasons are left to keep it. -/
namespace KernelThreads
open Monitor
variable {Task : Type} {s : Threads Task} {t r : PtcbRef} {running : Option PtcbRef} {out : Bool}

/-- The threads that have not exited. -/
def live (s : Threads Task) : Finset PtcbRef :=
  (Finset.range s.nextPtcb).filter fun r => (s.ptcbs r).exited = false

/-- The threads inside ThreadJoin on a PTCB. -/
def joiners (s : Threads Task) (r : PtcbRef) : Finset PtcbRef :=
  (Finset.range s.nextPtcb).filter fun t => (s.calls t).map Prod.fst = some r

/-- Between the sections; `running` is a thread inside ThreadJoin that is awake and in the middle
    of one. The PTCB of the main thread has one reference that nobody gives up. -/
structure PtcbOk (s : Threads Task) (running : Option PtcbRef) : Prop where
  nodup : s.ptcbList.Nodup
  members : ∀ r, r ∈ s.ptcbList ↔ r < s.nextPtcb ∧ s.frees r = 0
  frees : ∀ r, s.frees r ≤ 1
  fresh : ∀ r, s.nextPtcb ≤ r → s.frees r = 0 ∧ s.calls r = none
  kept : ∀ r ∈ live s, r ∈ s.ptcbList
  refcount : ∀ r ∈ s.ptcbList, (s.ptcbs r).refcount =
    (if r = 0 then 1 else 0) + (if (s.ptcbs r).exited then 0 else 1) + (joiners s r).card
  calls : ∀ t r out, s.calls t = some (r,out) → t ∈ live s ∧ r ∈ s.ptcbList
  asleep : ∀ r, ∀ t ∈ s.waits.asleep r, (∃ out, s.calls t = some (r,out)) ∧
    (s.ptcbs r).exited = false ∧ (s.ptcbs r).detached = false
  inside : ∀ t r out, some t ≠ running → s.calls t = some (r,out) →
    t ∈ s.waits.asleep r ∨ (s.waits.woken t).isSome ∧
      ((s.ptcbs r).exited = true ∨ (s.ptcbs r).detached = true)
  awake : ∀ t, some t = running → (∀ r, t ∉ s.waits.asleep r) ∧ s.waits.woken t = none
  woken : ∀ t, (s.waits.woken t).isSome → (s.calls t).isSome
  sound : s.waits.Sound
  passed : ∀ r < s.nextPtcb, (s.ptcbs r).exited = true → s.passed r = some (s.ptcbs r).exitval
  ended : live s = ∅ → s.ptcbList = []
  faults : s.faults = []

theorem mem_live : r ∈ live s ↔ r < s.nextPtcb ∧ (s.ptcbs r).exited = false := by
  simp [live]

theorem mem_joiners : t ∈ joiners s r ↔ t < s.nextPtcb ∧ ∃ out, s.calls t = some (r,out) := by
  simp [joiners]

theorem use_eq (unfreed : s.frees r = 0) : s.use r = s := by
  simp [Threads.use, unfreed]

theorem listed_unfreed (ok : PtcbOk s running) (member : r ∈ s.ptcbList) :
    r < s.nextPtcb ∧ s.frees r = 0 := (ok.members r).mp member

/-- A change that touches neither PTCBs nor calls. -/
theorem ptcb_ok_started (ok : PtcbOk s running) (started : PtcbRef → Bool) :
    PtcbOk { s with started := started } running :=
  ⟨ok.nodup,ok.members,ok.frees,ok.fresh,ok.kept,ok.refcount,ok.calls,ok.asleep,ok.inside,ok.awake,
    ok.woken,ok.sound,ok.passed,ok.ended,ok.faults⟩

theorem exe_ok (ok : PtcbOk s none) (member : t ∈ live s) : PtcbOk (threadExe s t).2 none := by
  have unfreed := (listed_unfreed ok (ok.kept t member)).2
  simp only [threadExe, use_eq unfreed]
  exact ptcb_ok_started ok _

/-- The PTCB that CreateThread makes, with main references more than those of its thread. -/
theorem create_eq (s : Threads Task) (task : Task) (argl : Int) (args : Option (List UInt8)) :
    createPTCB s task argl args = (s.nextPtcb,
      { s with
        ptcbs := Function.update s.ptcbs s.nextPtcb
          { task := task, argl := argl, args := args, exitval := (s.ptcbs s.nextPtcb).exitval
            exited := false, detached := false, refcount := 1 }
        nextPtcb := s.nextPtcb + 1
        ptcbList := s.ptcbList ++ [s.nextPtcb] }) := by
  simp [createPTCB, acquirePTCB, Threads.addRef, Threads.setPTCB, Threads.pushBack]

theorem create_ok (ok : PtcbOk s none) (some' : 0 < s.nextPtcb) (task : Task) (argl : Int)
    (args : Option (List UInt8)) : PtcbOk (createPTCB s task argl args).2 none := by
  rw [create_eq]
  have old {u : PtcbRef} (below : u < s.nextPtcb) : u ≠ s.nextPtcb := Nat.ne_of_lt below
  have outside : s.nextPtcb ∉ s.ptcbList := fun member =>
    Nat.lt_irrefl _ (listed_unfreed ok member).1
  set s' : Threads Task := { s with
    ptcbs := Function.update s.ptcbs s.nextPtcb
      { task := task, argl := argl, args := args, exitval := (s.ptcbs s.nextPtcb).exitval
        exited := false, detached := false, refcount := 1 }
    nextPtcb := s.nextPtcb + 1
    ptcbList := s.ptcbList ++ [s.nextPtcb] } with made
  have same (u : PtcbRef) (below : u < s.nextPtcb) : s'.ptcbs u = s.ptcbs u := by
    simp [made, old below]
  have new : (s'.ptcbs s.nextPtcb).exited = false ∧ (s'.ptcbs s.nextPtcb).refcount = 1 := by
    simp [made]
  have alive (u : PtcbRef) : u ∈ live s' ↔ u ∈ live s ∨ u = s.nextPtcb := by
    rw [mem_live, mem_live]
    change u < s.nextPtcb + 1 ∧ _ ↔ _
    by_cases here : u = s.nextPtcb
    · rw [here]
      simp [new.1]
    · have below : u < s.nextPtcb + 1 ↔ u < s.nextPtcb :=
        ⟨fun less => Nat.lt_of_le_of_ne (Nat.lt_succ_iff.mp less) here,Nat.lt_succ_of_lt⟩
      simp [made, here, below]
  have joined (u : PtcbRef) : joiners s' u = joiners s u := by
    ext v
    rw [mem_joiners, mem_joiners]
    change v < s.nextPtcb + 1 ∧ _ ↔ _
    constructor
    · rintro ⟨_,out,inside⟩
      exact ⟨(mem_live.mp (ok.calls v u out inside).1).1,out,inside⟩
    · rintro ⟨below,inside⟩
      exact ⟨Nat.lt_succ_of_lt below,inside⟩
  have listed (u : PtcbRef) : u ∈ s'.ptcbList ↔ u ∈ s.ptcbList ∨ u = s.nextPtcb := by
    simp [made]
  have unfreed := (ok.fresh s.nextPtcb (le_refl _)).1
  constructor
  · exact List.nodup_append.mpr ⟨ok.nodup,List.nodup_singleton _,by grind⟩
  · intro u
    rw [listed, ok.members]
    change _ ↔ u < s.nextPtcb + 1 ∧ s.frees u = 0
    grind
  · exact ok.frees
  · exact fun u fresh => ok.fresh u (Nat.le_of_succ_le fresh)
  · intro u member
    rw [listed]
    exact ((alive u).mp member).imp (ok.kept u) id
  · intro u member
    rw [joined]
    rcases (listed u).mp member with before | rfl
    · rw [same u (listed_unfreed ok before).1]
      exact ok.refcount u before
    · have nobody : joiners s s.nextPtcb = ∅ := by
        apply Finset.eq_empty_of_forall_notMem
        intro v inside
        obtain ⟨_,out,call⟩ := mem_joiners.mp inside
        exact outside (ok.calls v _ out call).2
      rw [nobody, new.1, new.2]
      have apart : s.nextPtcb ≠ 0 := Nat.ne_of_gt some'
      simp [apart]
  · intro u v out inside
    obtain ⟨member,member'⟩ := ok.calls u v out inside
    exact ⟨(alive u).mpr (Or.inl member),(listed v).mpr (Or.inl member')⟩
  · intro u v sleeping
    obtain ⟨⟨out,inside⟩,exited,detached⟩ := ok.asleep u v sleeping
    have below := (listed_unfreed ok (ok.calls v u out inside).2).1
    rw [same u below]
    exact ⟨⟨out,inside⟩,exited,detached⟩
  · intro u v out apart inside
    have below := (listed_unfreed ok (ok.calls u v out inside).2).1
    rw [same v below]
    exact ok.inside u v out apart inside
  · exact ok.awake
  · exact ok.woken
  · exact ok.sound
  · intro u below exited
    by_cases here : u = s.nextPtcb
    · rw [here, new.1] at exited
      cases exited
    · have below' : u < s.nextPtcb := Nat.lt_of_le_of_ne (Nat.lt_succ_iff.mp below) here
      rw [same u below'] at exited ⊢
      exact ok.passed u below' exited
  · intro none
    have member : s.nextPtcb ∈ live s' := (alive _).mpr (Or.inr rfl)
    rw [none] at member
    cases member
  · exact ok.faults

theorem add_ref_flags (s : Threads Task) (r : PtcbRef) (n : Int) (u : PtcbRef) :
    ((s.addRef r n).ptcbs u).exited = (s.ptcbs u).exited ∧
    ((s.addRef r n).ptcbs u).detached = (s.ptcbs u).detached ∧
    ((s.addRef r n).ptcbs u).exitval = (s.ptcbs u).exitval := by
  by_cases same : u = r
  · simp [Threads.addRef, Threads.setPTCB, same]
  · simp [Threads.addRef, Threads.setPTCB, same]

theorem add_ref_refcount (s : Threads Task) (r : PtcbRef) (n : Int) (u : PtcbRef) :
    ((s.addRef r n).ptcbs u).refcount = (s.ptcbs u).refcount + if u = r then n else 0 := by
  by_cases same : u = r
  · simp [Threads.addRef, Threads.setPTCB, same]
  · simp [Threads.addRef, Threads.setPTCB, same]

/-- The thread t is inside ThreadJoin on r in s' and not in s. -/
theorem joiners_enter (s s' : Threads Task) (next : s'.nextPtcb = s.nextPtcb)
    (below : t < s.nextPtcb) (idle : s.calls t = none)
    (calls : s'.calls = Function.update s.calls t (some (r,out))) (u : PtcbRef) :
    (joiners s' u).card = (joiners s u).card + if u = r then 1 else 0 := by
  by_cases same : u = r
  · subst same
    have more : joiners s' u = insert t (joiners s u) := by
      ext v
      rw [Finset.mem_insert, mem_joiners, mem_joiners, next, calls]
      by_cases here : v = t
      · simp [here, below]
      · simp [here]
    have fresh : t ∉ joiners s u := fun inside => by
      obtain ⟨_,out',call⟩ := mem_joiners.mp inside
      rw [idle] at call
      cases call
    rw [more, Finset.card_insert_of_notMem fresh, if_pos rfl]
  · have equal : joiners s' u = joiners s u := by
      ext v
      rw [mem_joiners, mem_joiners, next, calls]
      by_cases here : v = t
      · simp [here, idle, Ne.symm same]
      · simp [here]
    rw [equal, if_neg same, Nat.add_zero]

/-- A thread starts to wait for an exit, or goes on with what it has waited for. -/
theorem join_enter_ok (ok : PtcbOk s none) (member : t ∈ live s) (idle : s.calls t = none)
    (listed : r ∈ s.ptcbList) (out : Bool) :
    PtcbOk { s.addRef r 1 with calls := Function.update s.calls t (some (r,out)) } (some t) := by
  have awake (u : PtcbRef) : t ∉ s.waits.asleep u := fun sleeping => by
    obtain ⟨⟨out,inside⟩,_⟩ := ok.asleep u t sleeping
    rw [idle] at inside
    cases inside
  have unwoken : s.waits.woken t = none := by
    by_contra woken
    have inside := ok.woken t (Option.isSome_iff_ne_none.mpr woken)
    simp [idle] at inside
  set s' : Threads Task :=
    { s.addRef r 1 with calls := Function.update s.calls t (some (r,out)) } with entered
  have flags := add_ref_flags s r 1
  have alive : live s' = live s := by
    ext u
    rw [mem_live, mem_live, (flags u).1]
    rfl
  have joined := joiners_enter s s' rfl (mem_live.mp member).1 idle rfl
  constructor
  · exact ok.nodup
  · exact ok.members
  · exact ok.frees
  · intro u fresh
    obtain ⟨unfreed,none⟩ := ok.fresh u fresh
    have apart : u ≠ t := fun same => Nat.not_le.mpr (mem_live.mp member).1 (same ▸ fresh)
    exact ⟨unfreed,by simpa [entered, apart] using none⟩
  · rw [alive]
    exact ok.kept
  · intro u here
    have count := ok.refcount u here
    have held := add_ref_refcount s r 1 u
    change ((s.addRef r 1).ptcbs u).refcount = _
    rw [held, (flags u).1, count, joined u]
    split <;> push_cast <;> omega
  · intro u v out' inside
    rw [alive]
    by_cases same : u = t
    · subst same
      simp only [entered, Function.update_self, Option.some.injEq, Prod.mk.injEq] at inside
      exact ⟨member,inside.1 ▸ listed⟩
    · simp only [entered, ne_eq, same, not_false_eq_true, Function.update_of_ne] at inside
      exact ok.calls u v out' inside
  · intro u v sleeping
    obtain ⟨⟨out',inside⟩,exited,detached⟩ := ok.asleep u v sleeping
    have apart : v ≠ t := fun same => awake u (same ▸ sleeping)
    rw [(flags u).1, (flags u).2.1]
    exact ⟨⟨out',by simpa [entered, apart] using inside⟩,exited,detached⟩
  · intro u v out' apart inside
    have apart' : u ≠ t := fun same => apart (congrArg some same)
    simp only [entered, ne_eq, apart', not_false_eq_true, Function.update_of_ne] at inside
    rw [(flags v).1, (flags v).2.1]
    exact ok.inside u v out' (by simp) inside
  · intro u same
    cases same
    exact ⟨awake,unwoken⟩
  · intro u woken
    by_cases same : u = t
    · simp [entered, same]
    · simpa [entered, same] using ok.woken u woken
  · exact ok.sound
  · intro u below exited
    rw [(flags u).1] at exited
    rw [(flags u).2.2]
    exact ok.passed u below exited
  · rw [alive]
    exact ok.ended
  · exact ok.faults

/-- A thread waits for the exit. -/
theorem loop_sleeps_ok (ok : PtcbOk s (some t)) (inside : s.calls t = some (r,out))
    (exited : (s.ptcbs r).exited = false) (detached : (s.ptcbs r).detached = false) :
    PtcbOk { s with waits := s.waits.wait r t } none := by
  obtain ⟨awake,unwoken⟩ := ok.awake t rfl
  refine ⟨ok.nodup,ok.members,ok.frees,ok.fresh,ok.kept,ok.refcount,ok.calls,?_,?_,by simp,?_,
    wait_sound ok.sound r awake unwoken,ok.passed,ok.ended,ok.faults⟩
  · intro u v sleeping
    rcases mem_wait.mp sleeping with before | ⟨rfl,rfl⟩
    · exact ok.asleep u v before
    · exact ⟨⟨out,inside⟩,exited,detached⟩
  · intro u v out' _ inside'
    by_cases same : u = t
    · subst same
      rw [inside, Option.some.injEq, Prod.mk.injEq] at inside'
      exact Or.inl (mem_wait.mpr (Or.inr ⟨inside'.1.symm,rfl⟩))
    · rcases ok.inside u v out' (by simpa using same) inside' with sleeping | woken
      · exact Or.inl (mem_wait.mpr (Or.inl sleeping))
      · exact Or.inr woken
  · exact ok.woken

/-- A thread has left ThreadJoin, and has given up its reference. -/
theorem loop_leaves_ok (ok : PtcbOk s (some t)) (inside : s.calls t = some (r,out)) :
    PtcbOk { s.addRef r (-1) with calls := Function.update s.calls t none } none := by
  obtain ⟨awake,unwoken⟩ := ok.awake t rfl
  obtain ⟨member,listed⟩ := ok.calls t r out inside
  set s' : Threads Task :=
    { s.addRef r (-1) with calls := Function.update s.calls t none } with left
  have flags := add_ref_flags s r (-1)
  have others {u v : PtcbRef} {out' : Bool} (call : s'.calls u = some (v,out')) :
      u ≠ t ∧ s.calls u = some (v,out') := by
    by_cases same : u = t
    · simp [left, same] at call
    · exact ⟨same,by simpa [left, same] using call⟩
  have alive : live s' = live s := by
    ext u
    rw [mem_live, mem_live, (flags u).1]
    rfl
  have again : s.calls = Function.update s'.calls t (some (r,out)) := by
    simp only [left, Function.update_idem]
    rw [← inside, Function.update_eq_self]
  have joined := joiners_enter s' s rfl (mem_live.mp member).1
    (Function.update_self t none s.calls) again
  constructor
  · exact ok.nodup
  · exact ok.members
  · exact ok.frees
  · intro u fresh
    obtain ⟨unfreed,none⟩ := ok.fresh u fresh
    refine ⟨unfreed,?_⟩
    by_cases same : u = t
    · simp [left, same]
    · simpa [left, same] using none
  · rw [alive]
    exact ok.kept
  · intro u here
    have count := ok.refcount u here
    have held := add_ref_refcount s r (-1) u
    change ((s.addRef r (-1)).ptcbs u).refcount = _
    rw [held, (flags u).1, count, joined u]
    by_cases same : u = r
    · rw [if_pos same, if_pos same]
      push_cast
      omega
    · rw [if_neg same, if_neg same]
      push_cast
      omega
  · intro u v out' call
    rw [alive]
    exact ok.calls u v out' (others call).2
  · intro u v sleeping
    obtain ⟨⟨out',call⟩,exited,detached⟩ := ok.asleep u v sleeping
    have apart : v ≠ t := fun same => awake u (same ▸ sleeping)
    rw [(flags u).1, (flags u).2.1]
    exact ⟨⟨out',by simpa [left, apart] using call⟩,exited,detached⟩
  · intro u v out' _ call
    obtain ⟨apart,before⟩ := others call
    rw [(flags v).1, (flags v).2.1]
    exact ok.inside u v out' (by simpa using apart) before
  · intro u same
    cases same
  · intro u woken
    have apart : u ≠ t := fun same => by
      subst same
      simp [left, Threads.addRef, Threads.setPTCB, unwoken] at woken
    simpa [left, apart] using ok.woken u woken
  · exact ok.sound
  · intro u below exited
    rw [(flags u).1] at exited
    rw [(flags u).2.2]
    exact ok.passed u below exited
  · rw [alive]
    exact ok.ended
  · exact ok.faults

/-- The last one to need a PTCB frees it. -/
theorem free_ok (ok : PtcbOk s none) (listed : r ∈ s.ptcbList)
    (exited : (s.ptcbs r).exited = true) (unused : (s.ptcbs r).refcount = 0) :
    PtcbOk ({ s with ptcbList := s.ptcbList.erase r }.free r) none := by
  have count := ok.refcount r listed
  rw [unused, exited] at count
  have nobody : joiners s r = ∅ := Finset.card_eq_zero.mp (by split at count <;> omega)
  have noCall (u : PtcbRef) (out : Bool) : s.calls u ≠ some (r,out) := fun call => by
    obtain ⟨member,_⟩ := ok.calls u r out call
    have : u ∈ joiners s r := mem_joiners.mpr ⟨(mem_live.mp member).1,out,call⟩
    rw [nobody] at this
    cases this
  have listed' (u : PtcbRef) : u ∈ s.ptcbList.erase r ↔ u ≠ r ∧ u ∈ s.ptcbList :=
    ok.nodup.mem_erase_iff
  have unfreed := (listed_unfreed ok listed).2
  set s' : Threads Task := { s with ptcbList := s.ptcbList.erase r }.free r with freed
  have times (u : PtcbRef) : s'.frees u = if u = r then 1 else s.frees u := by
    by_cases same : u = r
    · simp [freed, Threads.free, same, unfreed]
    · simp [freed, Threads.free, same]
  constructor
  · exact ok.nodup.erase r
  · intro u
    have before := ok.members u
    have after := times u
    change u ∈ s.ptcbList.erase r ↔ u < s.nextPtcb ∧ _
    rw [listed', after]
    by_cases same : u = r
    · simp [same]
    · simpa [same] using before
  · intro u
    rw [times]
    split
    · exact le_refl 1
    · exact ok.frees u
  · intro u fresh
    have apart : u ≠ r := fun same =>
      Nat.not_le.mpr (listed_unfreed ok listed).1 (same ▸ fresh)
    rw [times, if_neg apart]
    exact ok.fresh u fresh
  · intro u member
    refine (listed' u).mpr ⟨fun same => ?_,ok.kept u member⟩
    have running := (mem_live.mp member).2
    rw [same] at running
    exact absurd (exited.symm.trans running) (by decide)
  · exact fun u member => ok.refcount u ((listed' u).mp member).2
  · intro u v out call
    obtain ⟨member,member'⟩ := ok.calls u v out call
    exact ⟨member,(listed' v).mpr ⟨fun same => noCall u out (same ▸ call),member'⟩⟩
  · exact ok.asleep
  · exact ok.inside
  · exact ok.awake
  · exact ok.woken
  · exact ok.sound
  · exact ok.passed
  · intro none
    change s.ptcbList.erase r = []
    rw [ok.ended none]
    rfl
  · exact ok.faults

end KernelThreads
