import TinyOS.ThreadsInvariant

/- The calls on threads, one section after the other: each keeps the PTCBs in order and changes
   nothing that the joiners of an exited or detached thread are still to see. -/
namespace KernelThreads
open Monitor
variable {Task : Type} {s : Threads Task} {t r : PtcbRef} {out : Bool}

/-- What a section of the thread t leaves to the others. -/
structure Keeps (s s' : Threads Task) (t : PtcbRef) : Prop where
  calls : ∀ u, u ≠ t → s'.calls u = s.calls u
  next : s.nextPtcb ≤ s'.nextPtcb
  exited : ∀ r < s.nextPtcb, (s.ptcbs r).exited = true →
    (s'.ptcbs r).exited = true ∧ (s'.ptcbs r).detached = (s.ptcbs r).detached ∧
    s'.passed r = s.passed r
  detached : ∀ r < s.nextPtcb, (s.ptcbs r).detached = true → (s'.ptcbs r).detached = true

theorem Keeps.refl (s : Threads Task) (t : PtcbRef) : Keeps s s t :=
  ⟨fun _ _ => rfl,le_refl _,fun _ _ exited => ⟨exited,rfl,rfl⟩,fun _ _ => id⟩

theorem keeps_flags {s' : Threads Task} (calls : ∀ u, u ≠ t → s'.calls u = s.calls u)
    (next : s'.nextPtcb = s.nextPtcb) (passed : s'.passed = s.passed)
    (flags : ∀ u, (s'.ptcbs u).exited = (s.ptcbs u).exited ∧
      (s'.ptcbs u).detached = (s.ptcbs u).detached) : Keeps s s' t := by
  refine ⟨calls,next.ge,?_,?_⟩
  · intro u _ exited
    rw [(flags u).1, (flags u).2, passed]
    exact ⟨exited,rfl,rfl⟩
  · intro u _ detached
    rw [(flags u).2]
    exact detached

theorem live_flags {s' : Threads Task} (next : s'.nextPtcb = s.nextPtcb)
    (flags : ∀ u, (s'.ptcbs u).exited = (s.ptcbs u).exited) : live s' = live s := by
  ext u
  rw [mem_live, mem_live, next, flags]

/-- What a test of the condition of ThreadJoin leads to. -/
def verdict (p : PTCB Task) (out : Bool) : JoinResult :=
  if p.exited = false ∧ p.detached = false then .sleeps
  else if p.detached then .returns (-1) none
  else .returns 0 (if out then some p.exitval else none)

/-- A section of ThreadJoin by t has ended. -/
structure Joined (s s' : Threads Task) (t : PtcbRef) : Prop where
  ok : PtcbOk s' none
  keeps : Keeps s s' t
  live : live s' = live s
  started : s'.started = s.started

theorem join_loop_spec (ok : PtcbOk s (some t)) (inside : s.calls t = some (r,out)) :
    (joinLoop s t r out).1 = verdict (s.ptcbs r) out ∧ Joined s (joinLoop s t r out).2 t := by
  have listed := (ok.calls t r out inside).2
  have same : Function.update s.calls t (some (r,out)) = s.calls := by
    rw [← inside, Function.update_eq_self]
  by_cases asleep : (s.ptcbs r).exited = false ∧ (s.ptcbs r).detached = false
  · have run : joinLoop s t r out = (.sleeps, { s with waits := s.waits.wait r t }) := by
      simp only [joinLoop, use_eq (listed_unfreed ok listed).2, if_pos asleep, same]
    rw [run]
    refine ⟨by rw [verdict, if_pos asleep],loop_sleeps_ok ok inside asleep.1 asleep.2,?_,rfl,rfl⟩
    exact keeps_flags (fun _ _ => rfl) rfl rfl (fun _ => ⟨rfl,rfl⟩)
  · set s' : Threads Task :=
      { s.addRef r (-1) with calls := Function.update s.calls t none } with left
    have ok' := loop_leaves_ok ok inside
    have flags : ∀ u, (s'.ptcbs u).exited = (s.ptcbs u).exited ∧
        (s'.ptcbs u).detached = (s.ptcbs u).detached ∧
        (s'.ptcbs u).exitval = (s.ptcbs u).exitval := add_ref_flags s r (-1)
    have keeps : Keeps s s' t := keeps_flags
      (fun u apart => by simp [left, apart, Threads.addRef, Threads.setPTCB]) rfl rfl
      (fun u => ⟨(flags u).1,(flags u).2.1⟩)
    have joined : Joined s s' t := ⟨ok',keeps,live_flags rfl (fun u => (flags u).1),rfl⟩
    by_cases detached : (s.ptcbs r).detached = true
    · have run : joinLoop s t r out = (.returns (-1) none, s') := by
        simp only [joinLoop, use_eq (listed_unfreed ok listed).2, if_neg asleep, if_pos detached]
        rfl
      rw [run]
      exact ⟨by rw [verdict, if_neg asleep, if_pos detached],joined⟩
    · have exited : (s'.ptcbs r).exited = true := by
        rw [(flags r).1]
        simp only [Bool.not_eq_true] at detached
        simpa [detached] using asleep
      by_cases unused : (s'.ptcbs r).refcount = 0
      · have run : joinLoop s t r out = (.returns 0 (if out then some (s.ptcbs r).exitval else none),
            { s' with ptcbList := s'.ptcbList.erase r }.free r) := by
          simp only [joinLoop, use_eq (listed_unfreed ok listed).2, if_neg asleep, if_neg detached]
          rw [if_pos unused]
        rw [run]
        refine ⟨by rw [verdict, if_neg asleep, if_neg detached],
          free_ok ok' listed exited unused,?_,joined.live,rfl⟩
        exact ⟨keeps.calls,keeps.next,keeps.exited,keeps.detached⟩
      · have run : joinLoop s t r out =
            (.returns 0 (if out then some (s.ptcbs r).exitval else none), s') := by
          simp only [joinLoop, use_eq (listed_unfreed ok listed).2, if_neg asleep, if_neg detached]
          rw [if_neg unused]
        rw [run]
        exact ⟨by rw [verdict, if_neg asleep, if_neg detached],joined⟩

/-- Which call t was in before makes no difference to the loop. -/
theorem join_loop_calls (s : Threads Task) (t r : PtcbRef) (out : Bool)
    (call : Option (PtcbRef × Bool)) :
    joinLoop { s with calls := Function.update s.calls t call } t r out = joinLoop s t r out := by
  simp only [joinLoop, Threads.use, Threads.addRef, Threads.setPTCB, Threads.free,
    Function.update_idem]
  rfl

/-- The tids that ThreadJoin of t refuses. -/
def Refused (s : Threads Task) (t : PtcbRef) (tid : Option PtcbRef) : Prop :=
  ∀ r, tid = some r → r ∉ s.ptcbList ∨ r = t ∨ (s.ptcbs r).detached = true

theorem join_refused {running : Option PtcbRef} (ok : PtcbOk s running) {tid : Option PtcbRef}
    (refused : Refused s t tid) (out : Bool) :
    sysThreadJoin s t tid out = (.returns (-1) none, s) := by
  cases tid with
  | none => rfl
  | some r =>
    simp only [sysThreadJoin]
    by_cases listed : r ∈ s.ptcbList
    · rw [if_neg (not_not_intro listed)]
      by_cases self : r = t
      · rw [if_pos self]
      · have detached : (s.ptcbs r).detached = true := by
          simpa [listed, self] using refused r rfl
        simp only [if_neg self, use_eq (listed_unfreed ok listed).2, if_pos detached]
    · rw [if_pos listed]

theorem join_spec (ok : PtcbOk s none) (member : t ∈ live s) (idle : s.calls t = none)
    (listed : r ∈ s.ptcbList) (apart : r ≠ t) (joinable : (s.ptcbs r).detached = false) (out : Bool) :
    (sysThreadJoin s t (some r) out).1 = verdict (s.ptcbs r) out ∧
    Joined s (sysThreadJoin s t (some r) out).2 t := by
  have run : sysThreadJoin s t (some r) out = joinLoop (s.addRef r 1) t r out := by
    simp only [sysThreadJoin, if_neg (not_not_intro listed), if_neg apart,
      use_eq (listed_unfreed ok listed).2, joinable]
    rfl
  have entered := join_enter_ok ok member idle listed out
  have flags := add_ref_flags s r 1
  have inside : Function.update s.calls t (some (r,out)) t = some (r,out) :=
    Function.update_self ..
  obtain ⟨result,after⟩ := join_loop_spec entered inside
  have free := join_loop_calls (s.addRef r 1) t r out (some (r,out))
  have result : (joinLoop (s.addRef r 1) t r out).1 = verdict ((s.addRef r 1).ptcbs r) out :=
    (congrArg Prod.fst free).symm.trans result
  have after : Joined { s.addRef r 1 with calls := Function.update s.calls t (some (r,out)) }
      (joinLoop (s.addRef r 1) t r out).2 t := (congrArg Prod.snd free) ▸ after
  rw [run]
  have same : verdict ((s.addRef r 1).ptcbs r) out = verdict (s.ptcbs r) out := by
    simp only [verdict, flags r]
  refine ⟨result.trans same,after.ok,?_,?_,after.started⟩
  · refine ⟨fun u other => ?_,after.keeps.next,fun u below exited => ?_,fun u below detached => ?_⟩
    · rw [after.keeps.calls u other]
      exact Function.update_of_ne other ..
    · have kept := after.keeps.exited u below ((flags u).1.trans exited)
      exact ⟨kept.1,kept.2.1.trans (flags u).2.1,kept.2.2⟩
    · exact after.keeps.detached u below ((flags u).2.1.trans detached)
  · exact after.live.trans (live_flags rfl (fun u => (flags u).1))

theorem resume_ok (ok : PtcbOk s none) (woken : (s.waits.woken t).isSome) :
    PtcbOk { s with waits := s.waits.resume t } (some t) := by
  have awake (u : PtcbRef) : t ∉ s.waits.asleep u := fun sleeping => by
    rw [ok.sound.unwoken u t sleeping] at woken
    cases woken
  refine ⟨ok.nodup,ok.members,ok.frees,ok.fresh,ok.kept,ok.refcount,ok.calls,ok.asleep,?_,?_,?_,
    resume_sound ok.sound t,ok.passed,ok.ended,ok.faults⟩
  · intro u r out apart inside
    have apart' : u ≠ t := fun same => apart (congrArg some same)
    rcases ok.inside u r out (by simp) inside with sleeping | woken'
    · exact Or.inl sleeping
    · exact Or.inr (by simpa [Waits.resume, apart'] using woken')
  · intro u same
    cases same
    exact ⟨awake,by simp [Waits.resume]⟩
  · intro u woken'
    by_cases same : u = t
    · subst same
      exact ok.woken u woken
    · exact ok.woken u (by simpa [Waits.resume, same] using woken')

theorem resume_spec (ok : PtcbOk s none) (woken : (s.waits.woken t).isSome) :
    ∃ r out s', s.calls t = some (r,out) ∧ ((s.ptcbs r).exited = true ∨ (s.ptcbs r).detached = true) ∧
      resumeJoin s t = some (verdict (s.ptcbs r) out,s') ∧ Joined s s' t := by
  obtain ⟨⟨r,out⟩,inside⟩ := Option.isSome_iff_exists.mp (ok.woken t woken)
  have awake (u : PtcbRef) : t ∉ s.waits.asleep u := fun sleeping => by
    rw [ok.sound.unwoken u t sleeping] at woken
    cases woken
  have settled := (ok.inside t r out (by simp) inside).resolve_left (awake r)
  obtain ⟨result,joined⟩ := join_loop_spec (resume_ok ok woken) inside
  refine ⟨r,out,_,inside,settled.2,?_,
    ⟨joined.ok,⟨joined.keeps.calls,joined.keeps.next,joined.keeps.exited,joined.keeps.detached⟩,
      joined.live,joined.started⟩⟩
  simp only [resumeJoin, inside]
  exact congrArg some (Prod.ext result rfl)

theorem mem_broadcast {w : Waits PtcbRef PtcbRef} {c c' : PtcbRef} :
    t ∈ (w.broadcast c).asleep c' ↔ c' ≠ c ∧ t ∈ w.asleep c' := by
  by_cases same : c' = c
  · subst same
    simp [Waits.broadcast]
  · simp [Waits.broadcast, same]

theorem broadcast_woken {w : Waits PtcbRef PtcbRef} {c : PtcbRef} :
    ((w.broadcast c).woken t).isSome ↔ t ∈ w.asleep c ∨ (w.woken t).isSome := by
  simp only [Waits.broadcast]
  split
  · rename_i member
    simp [member]
  · rename_i outside
    simp [outside]

/-- The joiners of r are woken when there is nothing more to wait for. -/
theorem settled_waits (ok : PtcbOk s none) {ptcbs : PtcbRef → PTCB Task}
    (others : ∀ u, u ≠ r → ptcbs u = s.ptcbs u)
    (settled : (ptcbs r).exited = true ∨ (ptcbs r).detached = true) :
    (∀ u, ∀ v ∈ (s.waits.broadcast r).asleep u, (∃ out, s.calls v = some (u,out)) ∧
      (ptcbs u).exited = false ∧ (ptcbs u).detached = false) ∧
    (∀ v u out, s.calls v = some (u,out) → v ∈ (s.waits.broadcast r).asleep u ∨
      ((s.waits.broadcast r).woken v).isSome ∧
        ((ptcbs u).exited = true ∨ (ptcbs u).detached = true)) ∧
    (∀ v, ((s.waits.broadcast r).woken v).isSome → (s.calls v).isSome) ∧
    (s.waits.broadcast r).Sound := by
  refine ⟨?_,?_,?_,wakes_sound ok.sound (broadcast_wakes s.waits r)⟩
  · intro u v sleeping
    obtain ⟨apart,sleeping⟩ := mem_broadcast.mp sleeping
    rw [others u apart]
    exact ok.asleep u v sleeping
  · intro v u out inside
    by_cases same : u = r
    · subst same
      refine Or.inr ⟨broadcast_woken.mpr ?_,settled⟩
      exact (ok.inside v u out (by simp) inside).imp id (fun woken => woken.1)
    · rw [others u same]
      rcases ok.inside v u out (by simp) inside with sleeping | ⟨woken,over'⟩
      · exact Or.inl (mem_broadcast.mpr ⟨same,sleeping⟩)
      · exact Or.inr ⟨broadcast_woken.mpr (Or.inr woken),over'⟩
  · intro v woken
    rcases broadcast_woken.mp woken with sleeping | woken
    · obtain ⟨⟨out,inside⟩,_⟩ := ok.asleep r v sleeping
      simp [inside]
    · exact ok.woken v woken

theorem detach_refused {tid : Option PtcbRef} (ok : PtcbOk s none)
    (refused : ∀ r, tid = some r → r ∉ s.ptcbList ∨ (s.ptcbs r).exited = true) :
    sysThreadDetach s tid = (-1,s) := by
  cases tid with
  | none => rfl
  | some r =>
    simp only [sysThreadDetach]
    by_cases listed : r ∈ s.ptcbList
    · have exited : (s.ptcbs r).exited = true := by simpa [listed] using refused r rfl
      simp only [if_neg (not_not_intro listed), use_eq (listed_unfreed ok listed).2, if_pos exited]
    · rw [if_pos listed]

theorem detach_spec (ok : PtcbOk s none) (listed : r ∈ s.ptcbList)
    (running : (s.ptcbs r).exited = false) (t : PtcbRef) :
    ∃ s', sysThreadDetach s (some r) = (0,s') ∧ (s'.ptcbs r).detached = true ∧ Joined s s' t := by
  have run : sysThreadDetach s (some r) = (0, { s with
      ptcbs := Function.update s.ptcbs r { s.ptcbs r with detached := true }
      waits := s.waits.broadcast r }) := by
    simp only [sysThreadDetach, if_neg (not_not_intro listed), use_eq (listed_unfreed ok listed).2,
      running]
    rfl
  set s' : Threads Task := { s with
    ptcbs := Function.update s.ptcbs r { s.ptcbs r with detached := true }
    waits := s.waits.broadcast r } with after
  have others (u : PtcbRef) (apart : u ≠ r) : s'.ptcbs u = s.ptcbs u := by simp [after, apart]
  have here : (s'.ptcbs r).detached = true := by simp [after]
  have flags (u : PtcbRef) : (s'.ptcbs u).exited = (s.ptcbs u).exited ∧
      (s'.ptcbs u).exitval = (s.ptcbs u).exitval ∧ (s'.ptcbs u).refcount = (s.ptcbs u).refcount := by
    by_cases same : u = r
    · simp [after, same]
    · simp [others u same]
  have alive : live s' = live s := live_flags rfl (fun u => (flags u).1)
  obtain ⟨asleep,inside,woken,sound⟩ := settled_waits ok others (Or.inr here)
  refine ⟨s',run,here,?_,?_,alive,rfl⟩
  · refine ⟨ok.nodup,ok.members,ok.frees,ok.fresh,alive ▸ ok.kept,?_,alive ▸ ok.calls,asleep,
      fun u v out _ => inside u v out,by simp,woken,sound,?_,alive ▸ ok.ended,ok.faults⟩
    · intro u member
      rw [(flags u).1, (flags u).2.2]
      exact ok.refcount u member
    · intro u below exited
      rw [(flags u).1] at exited
      rw [(flags u).2.1]
      exact ok.passed u below exited
  · refine ⟨fun _ _ => rfl,le_refl _,fun u _ exited => ?_,fun u _ detached => ?_⟩
    · have apart : u ≠ r := fun same => by
        rw [same, running] at exited
        cases exited
      rw [others u apart]
      exact ⟨exited,rfl,rfl⟩
    · by_cases same : u = r
      · rw [same]
        exact here
      · rw [others u same]
        exact detached

theorem broadcast_twice (w : Waits PtcbRef PtcbRef) (c : PtcbRef) :
    (w.broadcast c).broadcast c = w.broadcast c := by
  simp [Waits.broadcast]

theorem free_all_eq (xs : List PtcbRef) : ∀ s : Threads Task, freePTCBs xs s =
    { s with ptcbList := [], frees := fun r => s.frees r + xs.count r } := by
  induction xs with
  | nil => simp [freePTCBs]
  | cons r rest ih =>
    intro s
    rw [freePTCBs, ih]
    simp only [Threads.free]
    congr 1
    funext u
    by_cases same : u = r
    · simp [same]
      omega
    · simp [same, Ne.symm same]

/-- The PTCB of t when it has exited. -/
def exitedPTCB (p : PTCB Task) (exitval : Int) : PTCB Task :=
  { p with exitval := exitval, refcount := p.refcount - 1, exited := true }

/-- After the exit of t, before any PTCB is freed. -/
def afterExit (s : Threads Task) (t : PtcbRef) (exitval : Int) : Threads Task :=
  { s with
    ptcbs := Function.update s.ptcbs t (exitedPTCB (s.ptcbs t) exitval)
    waits := s.waits.broadcast t
    passed := Function.update s.passed t (some exitval) }

theorem exit_eq (unfreed : s.frees t = 0) (exitval : Int) (last : Bool) :
    exitPTCB s t exitval last =
      if last then freePTCBs s.ptcbList (afterExit s t exitval) else afterExit s t exitval := by
  have before : exitPTCB s t exitval false = afterExit s t exitval := by
    simp [exitPTCB, use_eq unfreed, afterExit, exitedPTCB, Threads.addRef, Threads.setPTCB,
      broadcast_twice, sub_eq_add_neg]
  cases last with
  | false => rw [before, if_neg Bool.false_ne_true]
  | true =>
    rw [if_pos rfl, ← before]
    simp [exitPTCB, Threads.setPTCB, Threads.addRef, use_eq unfreed]

theorem after_exit_flags (s : Threads Task) (t u : PtcbRef) (exitval : Int) :
    (((afterExit s t exitval).ptcbs u).exited = if u = t then true else (s.ptcbs u).exited) ∧
    ((afterExit s t exitval).ptcbs u).detached = (s.ptcbs u).detached ∧
    (((afterExit s t exitval).ptcbs u).exitval = if u = t then exitval else (s.ptcbs u).exitval) ∧
    ((afterExit s t exitval).ptcbs u).refcount = (s.ptcbs u).refcount - if u = t then 1 else 0 := by
  by_cases same : u = t
  · simp [afterExit, exitedPTCB, same]
  · simp [afterExit, same]

theorem after_exit_live (s : Threads Task) (t : PtcbRef) (exitval : Int) :
    live (afterExit s t exitval) = (live s).erase t := by
  ext u
  rw [Finset.mem_erase, mem_live, mem_live, (after_exit_flags s t u exitval).1]
  change u < s.nextPtcb ∧ _ ↔ _
  by_cases same : u = t
  · simp [same]
  · simp [same]

theorem after_exit_keeps (running : (s.ptcbs t).exited = false) (exitval : Int) :
    Keeps s (afterExit s t exitval) t := by
  refine ⟨fun _ _ => rfl,le_refl _,fun u _ exited => ?_,fun u _ detached => ?_⟩
  · have apart : u ≠ t := fun same => by
      rw [same, running] at exited
      cases exited
    rw [(after_exit_flags s t u exitval).1, (after_exit_flags s t u exitval).2.1, if_neg apart]
    exact ⟨exited,rfl,by simp [afterExit, apart]⟩
  · rw [(after_exit_flags s t u exitval).2.1]
    exact detached

/-- An exit that leaves other threads running. -/
theorem after_exit_ok (ok : PtcbOk s none) (member : t ∈ live s) (idle : s.calls t = none)
    (more : ((live s).erase t).Nonempty) (exitval : Int) : PtcbOk (afterExit s t exitval) none := by
  have flags := fun u => after_exit_flags s t u exitval
  have alive := after_exit_live s t exitval
  have inList := ok.kept t member
  obtain ⟨asleep,inside,woken,sound⟩ := @settled_waits Task s t ok (afterExit s t exitval).ptcbs
    (fun u apart => by simp [afterExit, apart]) (Or.inl (by simp [(flags t).1]))
  have others {u r : PtcbRef} {out : Bool} (call : s.calls u = some (r,out)) : u ≠ t := fun same => by
    rw [same, idle] at call
    cases call
  refine ⟨ok.nodup,ok.members,ok.frees,ok.fresh,?_,?_,?_,asleep,fun u v out _ => inside u v out,
    by simp,woken,sound,?_,?_,ok.faults⟩
  · intro u still
    rw [alive] at still
    exact ok.kept u (Finset.mem_of_mem_erase still)
  · intro u listed
    have count := ok.refcount u listed
    have running := (mem_live.mp member).2
    change _ = _ + _ + ((joiners s u).card : Int)
    rw [(flags u).1, (flags u).2.2.2, count]
    by_cases same : u = t
    · subst same
      simp only [running, Bool.false_eq_true, if_true, if_false]
      ring
    · simp [same]
  · intro u r out call
    rw [alive]
    obtain ⟨runs,listed⟩ := ok.calls u r out call
    exact ⟨Finset.mem_erase.mpr ⟨others call,runs⟩,listed⟩
  · intro u below exited
    rw [(flags u).2.2.1]
    by_cases same : u = t
    · simp [afterExit, same]
    · rw [(flags u).1, if_neg same] at exited
      simpa [afterExit, same] using ok.passed u below exited
  · intro none
    rw [alive] at none
    rw [none] at more
    exact absurd more Finset.not_nonempty_empty

/-- The state that the last thread leaves. -/
theorem ended_ok (list : s.ptcbList = []) (exited : ∀ r < s.nextPtcb, (s.ptcbs r).exited = true)
    (frees : ∀ r, s.frees r = if r < s.nextPtcb then 1 else 0) (calls : ∀ t, s.calls t = none)
    (asleep : ∀ r, s.waits.asleep r = []) (woken : ∀ t, s.waits.woken t = none)
    (passed : ∀ r < s.nextPtcb, s.passed r = some (s.ptcbs r).exitval) (faults : s.faults = []) :
    PtcbOk s none := by
  have dead : live s = ∅ := by
    apply Finset.eq_empty_of_forall_notMem
    intro r member
    obtain ⟨below,running⟩ := mem_live.mp member
    rw [exited r below] at running
    cases running
  constructor
  · simp [list]
  · intro r
    rw [list, frees]
    by_cases below : r < s.nextPtcb
    · simp [below]
    · simp [below]
  · intro r
    rw [frees]
    split <;> omega
  · intro r fresh
    rw [frees, if_neg (Nat.not_lt.mpr fresh)]
    exact ⟨rfl,calls r⟩
  · simp [dead]
  · simp [list]
  · simp [calls]
  · simp [asleep]
  · simp [calls]
  · simp
  · simp [woken]
  · exact ⟨by simp [asleep],by simp [asleep],by simp [asleep]⟩
  · exact fun r below _ => passed r below
  · exact fun _ => list
  · exact faults

/-- The last exit frees what is left. -/
theorem last_exit_ok (ok : PtcbOk s none) (idle : s.calls t = none)
    (last : (live s).erase t = ∅) (exitval : Int) :
    PtcbOk (freePTCBs s.ptcbList (afterExit s t exitval)) none := by
  have alive := after_exit_live s t exitval
  have flags := fun u => after_exit_flags s t u exitval
  have dead (u : PtcbRef) (below : u < s.nextPtcb) :
      ((afterExit s t exitval).ptcbs u).exited = true := by
    by_contra running
    have still : u ∈ live (afterExit s t exitval) :=
      mem_live.mpr ⟨below,Bool.not_eq_true _ ▸ running⟩
    rw [alive, last] at still
    cases still
  have alone (u : PtcbRef) : s.calls u = none := by
    rw [Option.eq_none_iff_forall_ne_some]
    rintro ⟨r,out⟩ call
    have apart : u ≠ t := fun same => by
      rw [same, idle] at call
      cases call
    have still : u ∈ (live s).erase t := Finset.mem_erase.mpr ⟨apart,(ok.calls u r out call).1⟩
    rw [last] at still
    cases still
  rw [free_all_eq]
  apply ended_ok
  · rfl
  · exact dead
  · intro u
    have listed := ok.members u
    by_cases below : u < s.nextPtcb
    · have small := ok.frees u
      change s.frees u + s.ptcbList.count u = if u < s.nextPtcb then 1 else 0
      rw [ok.nodup.count, if_pos below]
      by_cases unfreed : s.frees u = 0
      · simp [listed, below, unfreed]
      · simp [listed, unfreed]
        omega
    · have fresh := (ok.fresh u (Nat.le_of_not_lt below)).1
      change s.frees u + s.ptcbList.count u = if u < s.nextPtcb then 1 else 0
      rw [ok.nodup.count, if_neg below, fresh]
      simp [listed, below]
  · exact alone
  · intro u
    change (s.waits.broadcast t).asleep u = []
    apply List.eq_nil_iff_forall_not_mem.mpr
    intro v sleeping
    obtain ⟨_,before⟩ := mem_broadcast.mp sleeping
    obtain ⟨⟨out,inside⟩,_⟩ := ok.asleep u v before
    rw [alone] at inside
    cases inside
  · intro v
    change (s.waits.broadcast t).woken v = none
    by_contra woken
    rcases broadcast_woken.mp (Option.isSome_iff_ne_none.mpr woken) with sleeping | before
    · obtain ⟨⟨out,inside⟩,_⟩ := ok.asleep t v sleeping
      rw [alone] at inside
      cases inside
    · have inside := ok.woken v before
      rw [alone] at inside
      cases inside
  · intro u below
    change (afterExit s t exitval).passed u = some ((afterExit s t exitval).ptcbs u).exitval
    rw [(flags u).2.2.1]
    by_cases same : u = t
    · simp [afterExit, same]
    · have exited := dead u below
      rw [(flags u).1, if_neg same] at exited
      simpa [afterExit, same] using ok.passed u below exited
  · exact ok.faults

/-- The exit of t; last says that no other thread is left. -/
theorem exit_spec (ok : PtcbOk s none) (member : t ∈ live s) (idle : s.calls t = none)
    (exitval : Int) (last : Bool) (agrees : last = true ↔ (live s).erase t = ∅) :
    PtcbOk (exitPTCB s t exitval last) none ∧ Keeps s (exitPTCB s t exitval last) t ∧
    live (exitPTCB s t exitval last) = (live s).erase t ∧
    ((exitPTCB s t exitval last).ptcbs t).exited = true ∧
    ((exitPTCB s t exitval last).ptcbs t).detached = (s.ptcbs t).detached ∧
    (exitPTCB s t exitval last).passed t = some exitval := by
  have unfreed := (listed_unfreed ok (ok.kept t member)).2
  have keeps := after_exit_keeps (mem_live.mp member).2 exitval
  have alive := after_exit_live s t exitval
  have exited : ((afterExit s t exitval).ptcbs t).exited = true := by
    simp [(after_exit_flags s t t exitval).1]
  have detached := (after_exit_flags s t t exitval).2.1
  have passed : (afterExit s t exitval).passed t = some exitval := by simp [afterExit]
  rw [exit_eq unfreed]
  by_cases final : last = true
  · rw [if_pos final]
    refine ⟨last_exit_ok ok idle (agrees.mp final) exitval,?_⟩
    rw [free_all_eq]
    exact ⟨⟨keeps.calls,keeps.next,keeps.exited,keeps.detached⟩,alive,exited,detached,passed⟩
  · rw [if_neg final]
    have more := Finset.nonempty_iff_ne_empty.mpr (fun none => final (agrees.mpr none))
    exact ⟨after_exit_ok ok member idle more exitval,keeps,alive,exited,detached,passed⟩

theorem renew_ok (s : Threads Task) (list : s.ptcbList = []) : PtcbOk s.renew none := by
  apply ended_ok
  · exact list
  · exact fun r below => absurd below (Nat.not_lt_zero r)
  · exact fun r => (if_neg (Nat.not_lt_zero r)).symm
  · exact fun _ => rfl
  · exact fun _ => rfl
  · exact fun _ => rfl
  · exact fun r below => absurd below (Nat.not_lt_zero r)
  · rfl

theorem renew_live (s : Threads Task) : live s.renew = ∅ := by
  exact Finset.filter_empty _

theorem main_spec (s : Threads Task) (list : s.ptcbList = []) (task : Task) (argl : Int)
    (args : Option (List UInt8)) :
    PtcbOk (createMainPTCB s.renew task argl args) none ∧
    live (createMainPTCB s.renew task argl args) = {0} := by
  set s' := createMainPTCB s.renew task argl args with made
  have main : (s'.ptcbs 0).exited = false ∧ (s'.ptcbs 0).detached = false ∧
      (s'.ptcbs 0).refcount = 2 := by
    simp [made, createMainPTCB, acquirePTCB, Threads.addRef, Threads.setPTCB, Threads.pushBack,
      Threads.renew]
  have next : s'.nextPtcb = 1 := rfl
  have single : s'.ptcbList = [0] := by
    change s.ptcbList ++ [0] = [0]
    rw [list]
    rfl
  have alive : live s' = {0} := by
    ext u
    rw [mem_live, next, Finset.mem_singleton]
    constructor
    · exact fun here => Nat.lt_one_iff.mp here.1
    · rintro rfl
      exact ⟨Nat.zero_lt_one,main.1⟩
  have nobody (u : PtcbRef) : s'.calls u = none := rfl
  refine ⟨?_,alive⟩
  constructor
  · simp [single]
  · intro r
    change r ∈ s'.ptcbList ↔ r < 1 ∧ 0 = 0
    simp [single]
  · exact fun _ => Nat.zero_le 1
  · exact fun _ _ => ⟨rfl,rfl⟩
  · simp [alive, single]
  · intro r member
    rw [single, List.mem_singleton] at member
    subst member
    have none : joiners s' 0 = ∅ := by simp [joiners, nobody]
    simp [main, none]
  · simp [nobody]
  · exact fun r t sleeping => absurd sleeping List.not_mem_nil
  · simp [nobody]
  · simp
  · exact fun t woken => absurd woken Bool.false_ne_true
  · exact empty_sound
  · intro r below exited
    rw [next] at below
    cases Nat.lt_one_iff.mp below
    rw [main.1] at exited
    cases exited
  · simp [alive]
  · rfl

theorem create_spec (ok : PtcbOk s none) (member : t ∈ live s) (task : Task) (argl : Int)
    (args : Option (List UInt8)) :
    PtcbOk (createPTCB s task argl args).2 none ∧ Keeps s (createPTCB s task argl args).2 t ∧
    live (createPTCB s task argl args).2 = insert s.nextPtcb (live s) ∧
    (createPTCB s task argl args).1 = s.nextPtcb := by
  have some' : 0 < s.nextPtcb := Nat.zero_lt_of_lt (mem_live.mp member).1
  refine ⟨create_ok ok some' task argl args,?_,?_,by rw [create_eq]⟩
  · rw [create_eq]
    refine ⟨fun _ _ => rfl,Nat.le_succ _,fun u below exited => ?_,fun u below detached => ?_⟩
    · have apart : u ≠ s.nextPtcb := Nat.ne_of_lt below
      simpa [apart] using exited
    · have apart : u ≠ s.nextPtcb := Nat.ne_of_lt below
      simpa [apart] using detached
  · ext u
    rw [create_eq, mem_live, Finset.mem_insert, mem_live]
    by_cases same : u = s.nextPtcb
    · subst same
      simp
    · have below : u < s.nextPtcb + 1 ↔ u < s.nextPtcb :=
        ⟨fun less => Nat.lt_of_le_of_ne (Nat.lt_succ_iff.mp less) same,Nat.lt_succ_of_lt⟩
      simp [same, below]

end KernelThreads
