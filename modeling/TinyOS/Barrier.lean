import TinyOS.Monitor
import TinyOS.Transition

/- BarrierSync of tinyoslib.c. A thread inside it holds bar->mx but in Cond_Wait, so it passes in
   one step from its call or the end of a sleep to the next sleep or its return. unsigned int is
   UInt32. -/
namespace BarrierSync
open Monitor Transition

structure Barrier where
  count : UInt32
  epoch : UInt32
  deriving DecidableEq

/- The threads that share a barrier of n. `inside` is the variable epoch of a call in progress;
   `entered` and `returned` are history: how many calls of a thread have begun and ended. -/
structure BarrierRun (n : UInt32) where
  bar : Barrier
  waits : Waits (Fin n.toNat) Unit
  inside : Fin n.toNat → Option UInt32
  entered : Fin n.toNat → Nat
  returned : Fin n.toNat → Nat

inductive BarrierAction (n : UInt32) where
  | barrierSync (t : Fin n.toNat)
  | resume (t : Fin n.toNat)
  | spurious (t : Fin n.toNat)

section System
variable {n : UInt32}

def BARRIER_INIT : Barrier := { count := 0, epoch := 0 }

def enter (s : BarrierRun n) (t : Fin n.toNat) : BarrierRun n :=
  { s with entered := Function.update s.entered t (s.entered t + 1) }

/- bar->count ++; and the end of the round if this makes n. -/
def countIn (s : BarrierRun n) : BarrierRun n :=
  let count := s.bar.count + 1
  if count = n then
    { s with
      bar := { count := 0, epoch := s.bar.epoch + 1 }
      waits := s.waits.broadcast () }
  else { s with bar := { s.bar with count := count } }

/- The waiting loop, up to the next Cond_Wait or the return. -/
def awaitEpoch (s : BarrierRun n) (t : Fin n.toNat) (epoch : UInt32) : BarrierRun n :=
  if epoch = s.bar.epoch then
    { s with
      waits := s.waits.wait () t
      inside := Function.update s.inside t (some epoch) }
  else
    { s with
      inside := Function.update s.inside t none
      returned := Function.update s.returned t (s.returned t + 1) }

/- none is a failing assertion. -/
def barrierSync (s : BarrierRun n) (t : Fin n.toNat) : Option (BarrierRun n) :=
  if 0 < n ∧ s.bar.count < n then some (awaitEpoch (countIn (enter s t)) t s.bar.epoch) else none

def BarrierEnabled (s : BarrierRun n) : BarrierAction n → Prop
  | .barrierSync t => s.inside t = none
  | .resume t => (s.waits.woken t).isSome
  | .spurious t => t ∈ s.waits.asleep ()

def barrierExec (s : BarrierRun n) : BarrierAction n → Option (BarrierRun n)
  | .barrierSync t => barrierSync s t
  | .resume t => do
    let epoch ← s.inside t
    some (awaitEpoch { s with waits := s.waits.resume t } t epoch)
  | .spurious t => some { s with waits := s.waits.expire () t }

def barrierSystem (n : UInt32) : Machine (BarrierRun n) (BarrierAction n) where
  start s := s =
    { bar := BARRIER_INIT, waits := .empty _ _, inside := fun _ => none
      entered := fun _ => 0, returned := fun _ => 0 }
  enabled := BarrierEnabled
  exec := barrierExec

end System

section Rounds
variable {n : UInt32} {s s' : BarrierRun n} {t : Fin n.toNat} {k : Nat}

/-- The threads whose call of round k has begun. -/
def arrived (s : BarrierRun n) (k : Nat) : Finset (Fin n.toNat) :=
  Finset.univ.filter fun t => s.entered t = k + 1

/-- What a thread has done by round k, the round that is being gathered. A thread still inside
    a call remembers the round of the call. -/
structure PlaceOk (s : BarrierRun n) (k : Nat) (t : Fin n.toNat) : Prop where
  outside : s.inside t = none → s.entered t = k ∧ s.returned t = k
  inside : ∀ epoch, s.inside t = some epoch →
    (s.entered t = k ∨ s.entered t = k + 1) ∧ s.entered t = s.returned t + 1 ∧
      epoch = UInt32.ofNat (s.returned t)

structure RoundOk (s : BarrierRun n) (k : Nat) : Prop where
  epoch : s.bar.epoch = UInt32.ofNat k
  count : s.bar.count.toNat = (arrived s k).card
  room : ∀ _ : Fin n.toNat, (arrived s k).card < n.toNat
  sound : s.waits.Sound
  places : ∀ t, PlaceOk s k t
  asleep : ∀ t ∈ s.waits.asleep (), (s.inside t).isSome ∧ s.entered t = k + 1
  woken : ∀ t, (s.waits.woken t).isSome → (s.inside t).isSome

theorem ofNat_succ_ne (k : Nat) : UInt32.ofNat k ≠ UInt32.ofNat (k + 1) := by
  intro same
  have := congrArg UInt32.toNat same
  simp only [UInt32.toNat_ofNat'] at this
  omega

theorem succ_toNat {count : UInt32} (below : count < n) : (count + 1).toNat = count.toNat + 1 := by
  have small := UInt32.lt_iff_toNat_lt.mp below
  have bound := n.toNat_lt
  rw [UInt32.toNat_add]
  simp only [UInt32.reduceToNat]
  omega

theorem mem_arrived {u : Fin n.toNat} : u ∈ arrived s k ↔ s.entered u = k + 1 := by
  simp [arrived]

theorem arrived_enter (fresh : s.entered t = k) :
    arrived (enter s t) k = insert t (arrived s k) ∧ t ∉ arrived s k := by
  constructor
  · ext u
    rw [Finset.mem_insert, mem_arrived, mem_arrived]
    by_cases same : u = t
    · simp [enter, same, fresh]
    · simp [enter, same]
  · simp [mem_arrived, fresh]

/-- The call of a thread that is outside is counted, and if it is the last one of the round the
    next round begins. -/
theorem count_in_spec (ok : RoundOk s k) (out : s.inside t = none) :
    0 < n ∧ s.bar.count < n ∧
    ((s.bar.count + 1).toNat = (arrived s k).card + 1 ∧ (arrived s k).card + 1 < n.toNat ∧
        countIn (enter s t) =
          { enter s t with bar := { s.bar with count := s.bar.count + 1 } } ∨
      (∀ u, (enter s t).entered u = k + 1) ∧
        countIn (enter s t) =
          { enter s t with
            bar := { count := 0, epoch := s.bar.epoch + 1 }
            waits := s.waits.broadcast () }) := by
  have room := ok.room t
  have count := ok.count
  have below : s.bar.count < n := UInt32.lt_iff_toNat_lt.mpr (by omega)
  have counted := succ_toNat below
  refine ⟨UInt32.lt_iff_toNat_lt.mpr (by simp only [UInt32.toNat_zero]; omega),below,?_⟩
  by_cases last : s.bar.count + 1 = n
  · right
    refine ⟨fun u => ?_,by simp [countIn, enter, last]⟩
    obtain ⟨more,fresh⟩ := arrived_enter ((ok.places t).outside out).1
    have full : (arrived (enter s t) k).card = n.toNat := by
      rw [more, Finset.card_insert_of_notMem fresh]
      have := congrArg UInt32.toNat last
      omega
    have all : arrived (enter s t) k = Finset.univ :=
      Finset.eq_univ_of_card _ (by rw [full, Fintype.card_fin])
    exact mem_arrived.mp (all ▸ Finset.mem_univ u)
  · left
    have other : (s.bar.count + 1).toNat ≠ n.toNat := fun same => last (UInt32.toNat_inj.mp same)
    exact ⟨by omega,by omega,by simp [countIn, enter, last]⟩

theorem asleep_inside (ok : RoundOk s k) {u : Fin n.toNat} (member : u ∈ s.waits.asleep ()) :
    ∃ epoch, s.inside u = some epoch := Option.isSome_iff_exists.mp (ok.asleep u member).1

/-- A thread that is awake and has joined the current round goes to sleep. -/
theorem wait_ok (ok : RoundOk s k) (awake : t ∉ s.waits.asleep ()) (unwoken : s.waits.woken t = none)
    (joined : s.entered t = k + 1) (place : s.inside t = some s.bar.epoch) :
    RoundOk { s with waits := s.waits.wait () t } k := by
  have sound := wait_sound ok.sound () (t := t) (fun _ => awake) unwoken
  refine ⟨ok.epoch,ok.count,ok.room,sound,fun u => ⟨(ok.places u).outside,(ok.places u).inside⟩,
    fun u member => ?_,ok.woken⟩
  rcases mem_wait.mp member with old | ⟨_,rfl⟩
  · exact ok.asleep u old
  · exact ⟨by simp [place],joined⟩

/-- A call that has joined an earlier round returns. -/
theorem return_ok (ok : RoundOk s k) (awake : t ∉ s.waits.asleep ())
    (unwoken : s.waits.woken t = none) {epoch : UInt32} (place : s.inside t = some epoch)
    (past : epoch ≠ s.bar.epoch) :
    RoundOk { s with
      inside := Function.update s.inside t none
      returned := Function.update s.returned t (s.returned t + 1) } k := by
  obtain ⟨joined,calls,remembered⟩ := (ok.places t).inside epoch place
  have before : s.entered t = k := by
    rcases joined with old | now
    · exact old
    · refine absurd ?_ past
      rw [remembered, ok.epoch]
      congr 1
      omega
  refine ⟨ok.epoch,ok.count,ok.room,ok.sound,fun u => ?_,fun u member => ?_,fun u woken => ?_⟩
  · by_cases same : u = t
    · subst same
      exact ⟨fun _ => ⟨before,by simp; omega⟩,by simp⟩
    · have placed := ok.places u
      exact ⟨by simpa [same] using placed.outside,by simpa [same] using placed.inside⟩
  · have apart : u ≠ t := fun same => awake (same ▸ member)
    simpa [apart] using ok.asleep u member
  · have apart : u ≠ t := by
      rintro rfl
      simp only [unwoken, Option.isSome_none, Bool.false_eq_true] at woken
    simpa [apart] using ok.woken u woken

/-- The thread has been counted and the round is still being gathered. -/
theorem gather_ok (ok : RoundOk s k) (out : s.inside t = none) {count : UInt32}
    (counted : count.toNat = (arrived s k).card + 1) (few : (arrived s k).card + 1 < n.toNat) :
    RoundOk { enter s t with
      bar := { s.bar with count := count }
      inside := Function.update s.inside t (some s.bar.epoch) } k := by
  obtain ⟨fresh,returned⟩ := (ok.places t).outside out
  obtain ⟨more,outside⟩ := arrived_enter fresh
  have card : (arrived (enter s t) k).card = (arrived s k).card + 1 := by
    rw [more, Finset.card_insert_of_notMem outside]
  refine ⟨ok.epoch,counted.trans card.symm,fun _ => card ▸ few,ok.sound,fun u => ?_,
    fun u member => ?_,fun u woken => ?_⟩
  · by_cases same : u = t
    · subst same
      refine ⟨by simp,fun epoch place => ?_⟩
      simp only [Function.update_self, Option.some.injEq] at place
      simp [enter, fresh, returned, ← place, ok.epoch]
    · have placed := ok.places u
      exact ⟨by simpa [enter, same] using placed.outside,by simpa [enter, same] using placed.inside⟩
  · obtain ⟨epoch,place⟩ := asleep_inside ok member
    have apart : u ≠ t := by
      rintro rfl
      rw [out] at place
      cases place
    simpa [enter, apart] using ok.asleep u member
  · by_cases same : u = t
    · simp [same]
    · simpa [same] using ok.woken u woken

/-- The last thread of the round has been counted: all the others are still inside, awake. -/
theorem next_round_ok (ok : RoundOk s k) (out : s.inside t = none)
    (all : ∀ u, (enter s t).entered u = k + 1) :
    RoundOk { enter s t with
      bar := { count := 0, epoch := s.bar.epoch + 1 }
      waits := s.waits.broadcast ()
      inside := Function.update s.inside t (some s.bar.epoch) } (k + 1) := by
  obtain ⟨fresh,returned⟩ := (ok.places t).outside out
  have nobody : (arrived (enter s t) (k + 1)).card = 0 := by
    rw [Finset.card_eq_zero]
    apply Finset.filter_false_of_mem
    intro u _
    rw [all u]
    omega
  refine ⟨by rw [UInt32.ofNat_add, ← ok.epoch]; rfl,by exact nobody.symm,?_,?_,fun u => ?_,?_,
    fun u woken => ?_⟩
  · intro u
    change (arrived (enter s t) (k + 1)).card < n.toNat
    have := u.isLt
    omega
  · exact wakes_sound ok.sound (broadcast_wakes s.waits ())
  · have joined := all u
    by_cases same : u = t
    · subst same
      refine ⟨by simp,fun epoch place => ?_⟩
      simp only [Function.update_self, Option.some.injEq] at place
      exact ⟨Or.inl joined,by simp [enter, fresh, returned],
        by simp [enter, returned, ← place, ok.epoch]⟩
    · have placed := ok.places u
      simp only [enter, ne_eq, same, not_false_eq_true, Function.update_of_ne] at joined
      constructor
      · intro outside
        simp only [ne_eq, same, not_false_eq_true, Function.update_of_ne] at outside
        have := (placed.outside outside).1
        omega
      · intro epoch place
        simp only [ne_eq, same, not_false_eq_true, Function.update_of_ne] at place
        obtain ⟨_,calls,remembered⟩ := placed.inside epoch place
        simpa [enter, same] using ⟨Or.inl joined,calls,remembered⟩
  · simp [Waits.broadcast]
  · by_cases same : u = t
    · simp [same]
    · simp only [ne_eq, same, not_false_eq_true, Function.update_of_ne]
      simp only [Waits.broadcast] at woken
      split at woken
      · rename_i member
        exact (ok.asleep u member).1
      · exact ok.woken u woken

theorem outside_awake (ok : RoundOk s k) (out : s.inside t = none) :
    t ∉ s.waits.asleep () ∧ s.waits.woken t = none := by
  constructor
  · intro member
    obtain ⟨epoch,place⟩ := asleep_inside ok member
    rw [out] at place
    cases place
  · by_contra woken
    have inside := ok.woken t (Option.isSome_iff_ne_none.mpr woken)
    simp [out] at inside

theorem call_ok (ok : RoundOk s k) (out : s.inside t = none) :
    ∃ s' k', barrierSync s t = some s' ∧ RoundOk s' k' := by
  obtain ⟨positive,below,stage⟩ := count_in_spec ok out
  obtain ⟨awake,unwoken⟩ := outside_awake ok out
  rw [barrierSync, if_pos ⟨positive,below⟩]
  rcases stage with ⟨count,few,stays⟩ | ⟨all,ends⟩
  · have gathered := gather_ok ok out count few
    have slept := wait_ok gathered (t := t) awake unwoken
      (by simp [enter, ((ok.places t).outside out).1]) (by simp)
    refine ⟨_,k,rfl,?_⟩
    rw [stays, awaitEpoch, if_pos rfl]
    exact slept
  · have fresh : s.bar.epoch ≠ s.bar.epoch + 1 := by
      rw [ok.epoch]
      exact UInt32.ofNat_add k 1 ▸ ofNat_succ_ne k
    have begun := next_round_ok ok out all
    have returned := return_ok begun (t := t) (by simp [Waits.broadcast])
      (by simp [Waits.broadcast, awake, unwoken]) (by simp) fresh
    rw [Function.update_idem] at returned
    refine ⟨_,k + 1,rfl,?_⟩
    rw [ends, awaitEpoch, if_neg fresh]
    exact returned

theorem resume_ok (ok : RoundOk s k) (woken : (s.waits.woken t).isSome) :
    ∃ s', barrierExec s (.resume t) = some s' ∧ RoundOk s' k := by
  obtain ⟨epoch,place⟩ := Option.isSome_iff_exists.mp (ok.woken t woken)
  have awake : t ∉ s.waits.asleep () := fun member => by
    simp [ok.sound.unwoken () t member] at woken
  have left : RoundOk { s with waits := s.waits.resume t } k := by
    refine ⟨ok.epoch,ok.count,ok.room,resume_sound ok.sound t,
      fun u => ⟨(ok.places u).outside,(ok.places u).inside⟩,ok.asleep,fun u still => ?_⟩
    by_cases same : u = t
    · simp [Waits.resume, same] at still
    · exact ok.woken u (by simpa [Waits.resume, same] using still)
  refine ⟨awaitEpoch { s with waits := s.waits.resume t } t epoch,
    by simp [barrierExec, place],?_⟩
  by_cases same : epoch = s.bar.epoch
  · have joined : s.entered t = k + 1 := by
      obtain ⟨joined,calls,remembered⟩ := (ok.places t).inside epoch place
      rcases joined with old | now
      · exfalso
        refine ofNat_succ_ne (s.returned t) ?_
        rw [← remembered, same, ok.epoch]
        congr 1
        omega
      · exact now
    have kept : Function.update s.inside t (some epoch) = s.inside := by
      rw [← place]
      exact Function.update_eq_self t s.inside
    have slept := wait_ok left (t := t) awake (by simp [Waits.resume]) joined (same ▸ place)
    rw [awaitEpoch, if_pos same, kept]
    exact slept
  · rw [awaitEpoch, if_neg same]
    exact return_ok left awake (by simp [Waits.resume]) place same

theorem spurious_ok (ok : RoundOk s k) (here : t ∈ s.waits.asleep ()) :
    RoundOk { s with waits := s.waits.expire () t } k := by
  refine ⟨ok.epoch,ok.count,ok.room,expire_sound ok.sound here,
    fun u => ⟨(ok.places u).outside,(ok.places u).inside⟩,fun u member => ?_,fun u woken => ?_⟩
  · exact ok.asleep u ((expire_sublist _ _ _ _).subset member)
  · by_cases same : u = t
    · exact same ▸ (ok.asleep t here).1
    · exact ok.woken u (by simpa [Waits.expire, Waits.wake, same] using woken)

theorem barrier_step (ok : RoundOk s k) (a : BarrierAction n) (enabled : BarrierEnabled s a) :
    ∃ s' k', barrierExec s a = some s' ∧ RoundOk s' k' := by
  cases a with
  | barrierSync t => exact call_ok ok enabled
  | resume t =>
    obtain ⟨s',run,ok'⟩ := resume_ok ok enabled
    exact ⟨s',k,run,ok'⟩
  | spurious t => exact ⟨_,k,rfl,spurious_ok ok enabled⟩

theorem start_ok (first : (barrierSystem n).start s) : RoundOk s 0 := by
  cases first
  refine ⟨rfl,by simp [arrived, BARRIER_INIT],fun t => ?_,empty_sound,?_,by simp [Waits.empty],
    by simp [Waits.empty]⟩
  · have := t.isLt
    simp only [arrived, Nat.zero_add, zero_ne_one, Finset.filter_false, Finset.card_empty]
    omega
  · exact fun t => ⟨fun _ => ⟨rfl,rfl⟩,by simp⟩

theorem barrier_inductive (n : UInt32) :
    (barrierSystem n).Inductive fun s => ∃ k, RoundOk s k := by
  constructor
  · exact fun s first => ⟨0,start_ok first⟩
  · rintro s a s' ⟨k,ok⟩ move
    obtain ⟨s'',k',run,ok'⟩ := barrier_step ok a move.1
    cases run.symm.trans move.2
    exact ⟨k',ok'⟩

/-- Any number of rounds, however the threads overtake each other: the assertions hold, no call
    returns before all threads have made theirs, and nobody sleeps through the end of a round. -/
theorem barrier_safe (n : UInt32) :
    (barrierSystem n).NeverFaults ∧
    ∀ s, (barrierSystem n).Reach s →
      (∀ t u, s.returned t ≤ s.entered u) ∧
      ∀ t ∈ s.waits.asleep (), s.inside t = some s.bar.epoch := by
  constructor
  · refine never_faults_of_inductive (barrier_inductive n) ?_
    rintro s a ⟨k,ok⟩ enabled
    obtain ⟨s',_,run,_⟩ := barrier_step ok a enabled
    change (barrierExec s a).isSome
    simp [run]
  · intro s reach
    obtain ⟨k,ok⟩ := inductive_reach (barrier_inductive n) reach
    have bounds (t : Fin n.toNat) : s.returned t ≤ k ∧ k ≤ s.entered t := by
      cases place : s.inside t with
      | none =>
        obtain ⟨entered,returned⟩ := (ok.places t).outside place
        omega
      | some epoch =>
        obtain ⟨joined,calls,_⟩ := (ok.places t).inside epoch place
        omega
    refine ⟨fun t u => (bounds t).1.trans (bounds u).2,fun t member => ?_⟩
    obtain ⟨epoch,place⟩ := asleep_inside ok member
    obtain ⟨_,calls,remembered⟩ := (ok.places t).inside epoch place
    have current : s.returned t = k := by
      have := (ok.asleep t member).2
      omega
    rw [place, remembered, current, ok.epoch]

end Rounds
end BarrierSync
