import TinyOS.InterruptSteps

/- Interrupts are neither lost nor delivered twice, and a halted core does not sleep through its
   restart. -/
namespace Bios
open Transition Bits
variable {n : Nat} {Thread : Type}

/- In cpu_core_halt, after it has set its bit and before it clears it. -/
def Place.Marked : Place n → Bool
  | .waitSignal _ | .clearHalt _ => true
  | .dispatch _ halting _ => halting
  | .setHalt _ | .unblock _ | .code => false

/- The core whose vector it is going to look at again. -/
def Place.watches : Place n → Option (Fin n)
  | .dispatch _ _ .done => none
  | .dispatch core _ .look | .dispatch core _ (.exchange _) | .dispatch core _ (.call _)
  | .dispatch core _ (.handler _) | .dispatch core _ .compare => some core
  | .setHalt _ | .waitSignal _ | .clearHalt _ | .unblock _ | .code => none

/- A thread or the PIC daemon is about to send the core a signal. -/
def Owed (s : Vm n Thread) (core : Fin n) : Prop :=
  s.picOwed = some core ∨ ∃ t, core ∈ s.owed t

/- A dispatch_interrupts for the core is going to look at its vector again. -/
def Watched (s : Vm n Thread) (core : Fin n) : Prop := ∃ t, (s.place t).watches = some core

def Signalled (s : Vm n Thread) (core : Fin n) : Prop := 0 < s.usr1 core ∨ Owed s core

/- A bit of halt_vector is that of a core in cpu_core_halt, and one that waits there without its bit
   is going to get a signal. -/
structure HaltInv (idle : Fin n → Thread) (s : Vm n Thread) : Prop where
  marked : ∀ k, Has s.haltVector k → ∃ c : Fin n, k = c ∧
    (s.place (idle c)).halts = some c ∧ (s.place (idle c)).Marked = true
  awake : ∀ c, s.place (idle c) = .waitSignal c → Has s.haltVector c ∨ Signalled s c

/- An interrupt that is pending is going to be seen, unless a dispatch has been left. -/
def DeliveryInv (s : Vm n Thread) : Prop :=
  ∀ c, s.intrPending c ≠ 0 → Signalled s c ∨ Watched s c ∨ s.left c = true

variable {idle : Fin n → Thread} {s s' : Vm n Thread}

theorem queue_signal_pos (pending : Nat) (merged : Bool) : 0 < queueSignal pending merged := by
  unfold queueSignal
  split
  · rename_i both
    exact Nat.pos_of_ne_zero both.2
  · exact Nat.succ_pos pending

theorem send_signalled {c core : Fin n} {merged : Bool}
    (signalled : Signalled s c) (same : s'.usr1 = s.usr1)
    (owed : Owed s c → c = core ∨ Owed s' c) : Signalled (interruptCore s' core merged) c := by
  by_cases here : c = core
  · subst here
    exact .inl (by simpa [interruptCore] using queue_signal_pos _ merged)
  · rcases signalled with some | owes
    · exact .inl (by simpa [interruptCore, here, same] using some)
    · exact .inr ((owed owes).resolve_left here)

theorem pic_sent_signalled {c core : Fin n} {merged : Bool} (owes : s.picOwed = some core)
    (signalled : Signalled s c) :
    Signalled (interruptCore { s with picOwed := none } core merged) c := by
  refine send_signalled signalled rfl ?_
  rintro (pic | thread)
  · rw [owes] at pic
    exact .inl (Option.some.inj pic).symm
  · exact .inr (.inr thread)

/-- A signal of another core is taken. -/
theorem other_signalled {c d : Fin n} (signalled : Signalled s d)
    (other : d ≠ c) (usr1 : s'.usr1 = Function.update s.usr1 c (s.usr1 c - 1))
    (pic : s'.picOwed = s.picOwed) (owed : s'.owed = s.owed) : Signalled s' d := by
  unfold Signalled Owed at signalled ⊢
  rw [usr1, pic, owed, Function.update_of_ne other]
  exact signalled

variable [DecidableEq Thread]

theorem owed_owe (s : Vm n Thread) (t : Thread) (core : Fin n) : Owed (s.owe t core) core :=
  .inr ⟨t,by simp [Vm.owe]⟩

theorem owe_owed {c : Fin n} (owed : Owed s c) (t : Thread) (core : Fin n) :
    Owed (s.owe t core) c := by
  rcases owed with pic | ⟨u,member⟩
  · exact .inl pic
  · refine .inr ⟨u,?_⟩
    simp only [Vm.owe, Function.update_apply]
    split
    · rename_i same
      exact List.mem_cons_of_mem core (same ▸ member)
    · exact member

theorem sent_signalled {t : Thread} {c core : Fin n} {rest : List (Fin n)} {merged : Bool}
    (owes : s.owed t = core :: rest) (signalled : Signalled s c) :
    Signalled (interruptCore { s with owed := Function.update s.owed t rest } core merged) c := by
  refine send_signalled signalled rfl ?_
  rintro (pic | ⟨u,member⟩)
  · exact .inr (.inl pic)
  · by_cases same : u = t
    · subst same
      rw [owes] at member
      rcases List.mem_cons.mp member with here | later
      · exact .inl here
      · exact .inr (.inr ⟨u,by simpa using later⟩)
    · exact .inr (.inr ⟨u,by simpa [same] using member⟩)

theorem waiting_runs (place : PlaceInv idle s) {c : Fin n}
    (here : s.place (idle c) = .waitSignal c) : s.running c = idle c := by
  by_contra out
  have resting := place.resting (idle c) fun d is => out (place.home d c is ▸ is)
  rw [here] at resting
  cases resting

/-- A core whose thread has moved on does not wait. -/
theorem moved_waiting (place : PlaceInv idle s) {c : Fin n} {place' : Place n}
    (moves : place' ≠ .waitSignal c) :
    (s.goto (s.running c) place').place (idle c) ≠ .waitSignal c := by
  intro here
  simp only [Vm.goto, Function.update_apply] at here
  split at here
  · exact moves here
  · rename_i away
    exact away (waiting_runs place here).symm

theorem goto_halt (inv : HaltInv idle s) {t : Thread} {place' : Place n}
    (keeps : ∀ c, (s.place t).halts = some c → (s.place t).Marked = true →
      place'.halts = some c ∧ place'.Marked = true)
    (moves : ∀ c, place' ≠ .waitSignal c) : HaltInv idle (s.goto t place') := by
  obtain ⟨marked,awake⟩ := inv
  constructor <;> simp only [Vm.goto, Function.update_apply]
  case marked =>
    intro k has
    obtain ⟨c,rfl,halts,mark⟩ := marked k has
    refine ⟨c,rfl,?_⟩
    split
    · rename_i same
      exact keeps c (same ▸ halts) (same ▸ mark)
    · exact ⟨halts,mark⟩
  case awake =>
    intro c here
    split at here
    · exact absurd here (moves c)
    · exact awake c here

/- cpu_core_halt marks the core. -/
theorem marked_halt (cores : n ≤ maxCores) (place : PlaceInv idle s) (inv : HaltInv idle s)
    {c core : Fin n} (here : s.place (s.running c) = .setHalt core) :
    HaltInv idle { s.goto (s.running c) (.waitSignal core) with
      haltVector := set s.haltVector core } := by
  have small (c : Fin n) : c.val < 32 := lt_of_lt_of_le c.isLt cores
  have halting := place.halting
  obtain ⟨marked,awake⟩ := inv
  have own := halting (s.running c) core (by rw [here]; rfl)
  constructor <;> simp only [Vm.goto, Function.update_apply]
  case marked =>
    intro k has
    rcases (has_set (small core)).mp has with old | rfl
    · obtain ⟨d,rfl,halts,mark⟩ := marked k old
      refine ⟨d,rfl,?_⟩
      split
      · rename_i same
        rw [same, here] at mark
        cases mark
      · exact ⟨halts,mark⟩
    · exact ⟨core,rfl,by simp [own, Place.halts, Place.Marked]⟩
  case awake =>
    intro d here'
    split at here'
    · cases here'
      exact .inl ((has_set (small core)).mpr (.inr rfl))
    · exact (awake d here').imp_left fun has => (has_set (small core)).mpr (.inl has)

theorem cleared_halt (cores : n ≤ maxCores) (place : PlaceInv idle s) (inv : HaltInv idle s)
    {c core : Fin n} (here : s.place (s.running c) = .clearHalt core) :
    HaltInv idle { s.goto (s.running c) (.unblock core) with
      haltVector := clear s.haltVector core } := by
  have small (c : Fin n) : c.val < 32 := lt_of_lt_of_le c.isLt cores
  have halting := place.halting
  obtain ⟨marked,awake⟩ := inv
  have own := halting (s.running c) core (by rw [here]; rfl)
  constructor <;> simp only [Vm.goto, Function.update_apply]
  case marked =>
    intro k has
    obtain ⟨old,other⟩ := (has_clear (small core)).mp has
    obtain ⟨d,rfl,halts,mark⟩ := marked k old
    refine ⟨d,rfl,?_⟩
    split
    · rename_i same
      rw [same, here] at halts
      cases halts
      exact absurd rfl other
    · exact ⟨halts,mark⟩
  case awake =>
    intro d here'
    split at here'
    · cases here'
    · rename_i away
      refine (awake d here').imp_left fun has => (has_clear (small core)).mpr ⟨has,?_⟩
      intro same
      rw [Fin.ext same, ← own] at away
      exact away rfl

theorem halt_did (cores : n ≤ maxCores) (place : PlaceInv idle s) (inv : HaltInv idle s)
    (did : Did idle s s') : HaltInv idle s' := by
  have small (c : Fin n) : c.val < 32 := lt_of_lt_of_le c.isLt cores
  have inv' := inv
  obtain ⟨marked,awake⟩ := inv
  cases did with
  | again | masked | installed | switched => exact ⟨marked,awake⟩
  | picRaised core intno idle' =>
    refine ⟨marked,fun c here => (awake c here).imp_right fun signalled => ?_⟩
    rcases signalled with some | (pic | thread)
    · exact .inl some
    · rw [idle'] at pic
      cases pic
    · exact .inr (.inr thread)
  | raised t core =>
    exact ⟨marked,fun c here => (awake c here).imp_right fun signalled =>
      signalled.imp_right fun owed => owe_owed (s := s) owed t core⟩
  | picSent core merged owes =>
    exact ⟨marked,fun c here => (awake c here).imp_right (pic_sent_signalled owes)⟩
  | sent t core rest merged owes =>
    exact ⟨marked,fun c here => (awake c here).imp_right (sent_signalled owes)⟩
  | restarted t core =>
    refine ⟨fun k has => marked k ((has_clear (small core)).mp has).1,fun c here => ?_⟩
    by_cases same : c = core
    · exact .inr (.inr (same ▸ owed_owe s t core))
    · refine (awake c here).imp (fun has => (has_clear (small core)).mpr ⟨has,?_⟩)
        fun signalled => signalled.imp_right fun owed => owe_owed (s := s) owed t core
      exact fun eq => same (Fin.ext eq)
  | unmarked core out =>
    have gone : ¬ Has s.haltVector core := fun has => by
      rw [(test_iff (small core)).mpr has] at out
      cases out
    refine ⟨fun k has => marked k ((has_clear (small core)).mp has).1,fun c here => ?_⟩
    refine (awake c here).imp_left fun has => (has_clear (small core)).mpr ⟨has,?_⟩
    exact fun eq => gone (eq ▸ has)
  | marked c core here => exact marked_halt cores place inv' here
  | cleared c core here => exact cleared_halt cores place inv' here
  | delivered c here some =>
    have went : HaltInv idle (s.goto (s.running c) (.dispatch c false .look)) :=
      goto_halt inv' (by simp [here, Place.halts]) (by simp)
    refine ⟨went.marked,fun d here' => (went.awake d here').imp_right fun signalled => ?_⟩
    refine other_signalled signalled (c := c) ?_ rfl rfl rfl
    rintro rfl
    exact moved_waiting place (by simp) here'
  | woken c core here some =>
    have went : HaltInv idle (s.goto (s.running c) (.dispatch core true .look)) :=
      goto_halt inv' (by simp [here, Place.halts, Place.Marked]) (by simp)
    refine ⟨went.marked,fun d here' => (went.awake d here').imp_right fun signalled => ?_⟩
    refine other_signalled signalled (c := c) ?_ rfl rfl rfl
    rintro rfl
    exact moved_waiting place (by simp) here'
  | halted c here | unblocked c core here | interrupted c core here | took c core halting irq here
  | deserted c core halting here | finished c core here | returned c core here =>
    exact { goto_halt inv' (by simp [here, Place.halts, Place.Marked]) (by simp) with }
  | moved c core halting loop loop' here =>
    exact goto_halt inv' (by simp [here, Place.halts, Place.Marked]) (by simp)

theorem goto_watched {t : Thread} {place' : Place n} {c : Fin n} (watched : Watched s c)
    (keeps : (s.place t).watches = some c → place'.watches = some c) :
    Watched (s.goto t place') c := by
  obtain ⟨u,watches⟩ := watched
  refine ⟨u,?_⟩
  simp only [Vm.goto, Function.update_apply]
  split
  · rename_i same
    exact keeps (same ▸ watches)
  · exact watches

theorem here_watched (s : Vm n Thread) (t : Thread) {place' : Place n} {c : Fin n}
    (watches : place'.watches = some c) : Watched (s.goto t place') c :=
  ⟨t,by simpa [Vm.goto] using watches⟩

/-- A loop that ends has found its vector empty. -/
theorem goto_delivery (inv : DeliveryInv s) {t : Thread} {place' : Place n}
    (keeps : ∀ c, s.intrPending c ≠ 0 → (s.place t).watches = some c →
      place'.watches = some c) : DeliveryInv (s.goto t place') :=
  fun c some => (inv c some).imp_right (·.imp_left (goto_watched · (keeps c some)))

theorem delivery_did (place : PlaceInv idle s) (inv : DeliveryInv s) (did : Did idle s s') :
    DeliveryInv s' := by
  cases did with
  | again core intno old =>
    intro c some
    by_cases here : c = core
    · subst here
      exact inv c fun none => eq_zero_iff.mp none _ old
    · simp only [Function.update_of_ne here] at some
      exact inv c some
  | picRaised core intno idle' fresh =>
    intro c some
    by_cases here : c = core
    · exact .inl (.inr (.inl (here ▸ rfl)))
    · simp only [Function.update_of_ne here] at some
      refine (inv c some).imp_left fun signalled => signalled.imp_right fun owed => ?_
      rcases owed with pic | thread
      · rw [idle'] at pic
        cases pic
      · exact .inr thread
  | raised t core intno fresh =>
    intro c some
    by_cases here : c = core
    · exact .inl (.inr (here ▸ owed_owe s t core))
    · simp only [Function.update_of_ne here] at some
      exact (inv c some).imp_left fun signalled => signalled.imp_right fun owed =>
        owe_owed (s := s) owed t core
  | picSent core merged owes =>
    exact fun c some => (inv c some).imp_left (pic_sent_signalled owes)
  | sent t core rest merged owes =>
    exact fun c some => (inv c some).imp_left (sent_signalled owes)
  | restarted t core =>
    exact fun c some => (inv c some).imp_left fun signalled => signalled.imp_right fun owed =>
      owe_owed (s := s) owed t core
  | unmarked | masked | installed | switched => exact inv
  | delivered c here some =>
    have went : DeliveryInv (s.goto (s.running c) (.dispatch c false .look)) :=
      goto_delivery inv (by simp [here, Place.watches])
    intro d pending
    by_cases same : d = c
    · exact .inr (.inl (here_watched s (s.running c) (by rw [same]; rfl)))
    · exact (went d pending).imp_left (other_signalled · same rfl rfl rfl)
  | woken c core here some =>
    have own := place.halting (s.running c) core (by rw [here]; rfl)
    have home := place.home c core own
    have went : DeliveryInv (s.goto (s.running c) (.dispatch core true .look)) :=
      goto_delivery inv (by simp [here, Place.watches])
    intro d pending
    by_cases same : d = c
    · exact .inr (.inl (here_watched s (s.running c) (by rw [same, home]; rfl)))
    · exact (went d pending).imp_left (other_signalled · same rfl rfl rfl)
  | moved c core halting loop loop' here going ends holds =>
    refine goto_delivery inv fun d some watches => ?_
    have at' : core = d := by
      rw [here] at watches
      cases loop <;> simp_all [Place.watches]
    subst at'
    have open' : loop' ≠ .done := fun done => some (ends done)
    cases loop' <;> simp_all [Place.watches]
  | took c core halting irq here is =>
    have went : DeliveryInv (s.goto (s.running c) (.dispatch core halting (.call irq))) :=
      goto_delivery inv (by simp [here, Place.watches])
    intro d some
    by_cases same : d = core
    · exact .inr (.inl (here_watched s (s.running c) (by rw [same]; rfl)))
    · simp only [Function.update_of_ne same] at some
      exact went d some
  | deserted c core halting here other =>
    intro d some
    by_cases same : d = core
    · exact .inr (.inr (by simp [same]))
    · refine (inv d some).imp_right (·.imp (fun watched => ?_) fun left => ?_)
      · refine goto_watched (s := s) watched fun watches => ?_
        rw [here] at watches
        exact absurd (Option.some.inj watches).symm same
      · simpa [same] using left
  | interrupted c core here | finished c core here =>
    exact goto_delivery inv (by simp [here, Place.watches])
  | halted c here | marked c core here | cleared c core here | unblocked c core here
  | returned c core here =>
    exact goto_delivery inv (by simp [here, Place.watches])

structure Inv (idle : Fin n → Thread) (s : Vm n Thread) : Prop where
  place : PlaceInv idle s
  vector : VectorInv s
  delivery : DeliveryInv s

theorem inv_inductive (distinct : Function.Injective idle) :
    (vmSystem idle).Inductive (Inv idle) where
  start s first := by
    subst first
    have empty (j : Nat) : ¬ Has (0 : BitVec 32) j := eq_zero_iff.mp rfl j
    refine ⟨⟨fun c d same => distinct same,fun c d same => distinct same,fun t _ => rfl,
      fun t away => absurd rfl away,fun t c halts => ?_⟩,⟨fun c j has => absurd has (empty j),
      fun t c halting v here => ?_,fun c i => ?_,fun c entry member => ?_⟩,
      fun c pending => absurd rfl pending⟩
    · cases halts
    · cases here
    · change 0 = 0 + if Has 0 i.number then 1 else 0
      rw [if_neg (empty i.number)]
    · cases member
  step s a s' inv move :=
    have did := step_did move
    ⟨place_did inv.place did,vector_did inv.vector did,delivery_did inv.place inv.delivery did⟩

theorem step_some (inv : Inv idle s) {a : Action n Thread} (enabled : Enabled idle s a) :
    (act s a).isSome := by
  cases a with
  | picSend merged =>
    obtain ⟨core,owes⟩ := Option.ne_none_iff_exists'.mp enabled
    simp [act, owes]
  | send c merged =>
    obtain ⟨core,rest,owes⟩ := List.exists_cons_of_ne_nil enabled
    simp [act, owes]
  | deliver c =>
    have here : s.place (s.running c) = .code := by
      by_contra away
      have blocked := inv.place.blocked _ away
      rw [enabled.1] at blocked
      cases blocked
    simp [act, here]
  | eintr c =>
    have waiting : (s.place (s.running c)).Waiting = true := enabled
    simp only [act]
    split
    · rfl
    · rename_i other
      cases at' : s.place (s.running c) <;> simp_all [Place.Waiting]
  | step c =>
    simp only [act, threadStep]
    split
    · rename_i here
      exact absurd here enabled.1
    · rename_i core halting loop here
      cases loop with
      | exchange v =>
        obtain ⟨some,known⟩ := inv.vector.held _ _ _ _ here
        obtain ⟨irq,is⟩ := Option.isSome_iff_exists.mp (known _ (has_lowest some))
        simp only [dispatchStep, fetchLowest, is, Option.bind_eq_bind, Option.bind_some]
        split
        · rfl
        · split <;> rfl
      | compare =>
        simp only [dispatchStep]
        split <;> rfl
      | done =>
        simp only [dispatchStep]
        split <;> rfl
      | look | call _ | handler _ => rfl
    all_goals rfl
  | picRaise | ici | restart | disable | enable | install | switch | halt => rfl

/-- No assertion of the interrupt code fails, and no dispatch_interrupts is begun in another. What
    has been raised for a core has been taken from its vector, or is in it, once each, and what is
    taken is the lowest in the vector. -/
theorem interrupts_conserved (distinct : Function.Injective idle) :
    (vmSystem idle).NeverFaults ∧ ∀ s, (vmSystem idle).Reach s → ∀ c,
      (∀ i, s.irqRaised c i = (s.taken c).countP (·.1 = i) +
        if Has (s.intrPending c) i.number then 1 else 0) ∧
      ∀ entry ∈ s.taken c, Has entry.2 entry.1.number ∧
        ∀ j, Has entry.2 j → entry.1.number ≤ j := by
  constructor
  · exact never_faults_of_inductive (inv_inductive distinct) fun s a inv => step_some inv
  · intro s reach c
    have inv := inductive_reach (inv_inductive distinct) reach
    exact ⟨inv.vector.counts c,inv.vector.lowest c⟩

/- Two cores with the idle threads 0 and 1, and two more threads. -/
def idlePair (c : Fin 2) : Fin 4 := c.castLE (by decide)

theorem idle_pair_distinct : Function.Injective idlePair := Fin.castLE_injective (by decide)

/- Both a received byte and the end of the time slice, of which the latter is handled first. -/
def raisedTwice : List (Action 2 (Fin 4)) :=
  [.picRaise 0 .serialRxReady, .picSend false, .picRaise 0 .alarm, .picSend true, .deliver 0,
    .step 0, .step 0]

set_option maxRecDepth 4000 in
theorem interrupts_conserved_alarm : ∃ s : Vm 2 (Fin 4), (vmSystem idlePair).Reach s ∧
    s.taken 0 = [(.alarm,6)] ∧ s.irqRaised 0 .serialRxReady =
      (s.taken 0).countP (·.1 = .serialRxReady) +
        if Has (s.intrPending 0) Interrupt.serialRxReady.number then 1 else 0 := by
  have reach := play_reach (m := vmSystem idlePair) rfl raisedTwice rfl
  exact ⟨_,reach,rfl,((interrupts_conserved idle_pair_distinct).2 _ reach 0).1 .serialRxReady⟩

/- Every dispatch_interrupts compares the cores on the core that it is for. -/
def Stays (s : Vm n Thread) (a : Action n Thread) : Prop :=
  ∀ c core halting, a = .step c → s.place (s.running c) = .dispatch core halting .compare → c = core

theorem dispatch_left {c core : Fin n} {t : Thread} {halting : Bool} {loop : Loop}
    (run : dispatchStep s c t core halting loop = some s') :
    s'.left = s.left ∨ loop = .compare ∧ c ≠ core := by
  cases loop with
  | exchange v =>
    simp only [dispatchStep, fetchLowest, Option.bind_eq_bind, Option.bind_eq_some_iff] at run
    obtain ⟨irq,is,run⟩ := run
    split at run
    · simp only [Option.some.injEq] at run
      exact .inl (run ▸ rfl)
    · split at run <;> simp only [Option.some.injEq] at run <;> exact .inl (run ▸ rfl)
  | compare =>
    simp only [dispatchStep] at run
    split at run
    · simp only [Option.some.injEq] at run
      exact .inl (run ▸ rfl)
    · rename_i other
      exact .inr ⟨rfl,other⟩
  | done =>
    simp only [dispatchStep] at run
    split at run <;> simp only [Option.some.injEq] at run <;> exact .inl (run ▸ rfl)
  | look | call _ | handler _ =>
    simp only [dispatchStep, Option.some.injEq] at run
    exact .inl (run ▸ rfl)

theorem step_left {a : Action n Thread} (run : act s a = some s') :
    s'.left = s.left ∨ ∃ c core halting, a = .step c ∧
      s.place (s.running c) = .dispatch core halting .compare ∧ c ≠ core := by
  cases a with
  | step c =>
    simp only [act, threadStep] at run
    split at run
    · cases run
    · rename_i core halting loop here
      rcases dispatch_left run with same | ⟨is,other⟩
      · exact .inl same
      · exact .inr ⟨c,core,halting,rfl,is ▸ here,other⟩
    all_goals
      simp only [Option.some.injEq] at run
      exact .inl (run ▸ rfl)
  | picRaise core intno | ici c core =>
    simp only [act, raiseInterrupt, Option.some.injEq] at run
    subst run
    split <;> exact .inl rfl
  | restart c core =>
    simp only [act, coreRestart, Option.some.injEq] at run
    subst run
    split <;> exact .inl rfl
  | picSend merged =>
    simp only [act, Option.bind_eq_bind, Option.bind_eq_some_iff, Option.some.injEq] at run
    obtain ⟨core,_,rfl⟩ := run
    exact .inl rfl
  | send c merged | eintr c | deliver c =>
    simp only [act] at run
    split at run
    all_goals cases run
    all_goals exact .inl rfl
  | disable | enable | install | switch | halt =>
    simp only [act, Option.some.injEq] at run
    exact .inl (run ▸ rfl)

theorem stays_left (left : ∀ c, s.left c = false) {a : Action n Thread}
    (move : ((vmSystem idle).restrict Stays).Step s a s') : ∀ c, s'.left c = false := by
  obtain ⟨move,stays⟩ := restrict_step move
  rcases step_left move.2 with same | ⟨c,core,halting,is,here,other⟩
  · exact fun c => same ▸ left c
  · exact absurd (stays c core halting is here) other

theorem stays_reach (reach : ((vmSystem idle).restrict Stays).Reach s) :
    ∀ c, s.left c = false := by
  induction reach with
  | start first =>
    cases first
    exact fun _ => rfl
  | step before move ih => exact stays_left ih move

/-- One core has no other to run a thread on. -/
theorem alone_reach (alone : n = 1) (reach : (vmSystem idle).Reach s) :
    ((vmSystem idle).restrict Stays).Reach s := by
  subst alone
  induction reach with
  | start first => exact .start first
  | step before move ih =>
    exact .step ih ⟨⟨move.1,fun _ _ _ _ _ => Subsingleton.elim _ _⟩,move.2⟩

/-- A pending interrupt is announced by a signal, or a loop on the vector is going to see it, as
    long as no such loop has been left because its thread is on another core. -/
theorem interrupts_seen (distinct : Function.Injective idle) :
    (∀ s, (vmSystem idle).Reach s → ∀ c, s.intrPending c ≠ 0 →
      Signalled s c ∨ Watched s c ∨ s.left c = true) ∧
    (∀ s, ((vmSystem idle).restrict Stays).Reach s → ∀ c, s.intrPending c ≠ 0 →
      Signalled s c ∨ Watched s c) ∧
    (n = 1 → ∀ s, (vmSystem idle).Reach s → ∀ c, s.intrPending c ≠ 0 →
      Signalled s c ∨ Watched s c) := by
  have seen {s : Vm n Thread} (reach : (vmSystem idle).Reach s) : DeliveryInv s :=
    (inductive_reach (inv_inductive distinct) reach).delivery
  have stayed (s : Vm n Thread) (reach : ((vmSystem idle).restrict Stays).Reach s) (c : Fin n)
      (pending : s.intrPending c ≠ 0) : Signalled s c ∨ Watched s c := by
    refine (seen (restrict_reach reach) c pending).imp_right (·.resolve_right ?_)
    rw [stays_reach reach c]
    exact Bool.false_ne_true
  exact ⟨fun s reach => seen reach,stayed,fun alone s reach => stayed s (alone_reach alone reach)⟩

set_option maxRecDepth 4000 in
theorem interrupts_seen_alarm : ∃ s : Vm 2 (Fin 4), (vmSystem idlePair).Reach s ∧
    s.usr1 0 = 0 ∧ (Signalled s 0 ∨ Watched s 0 ∨ s.left 0 = true) := by
  have reach := play_reach (m := vmSystem idlePair) rfl raisedTwice rfl
  exact ⟨_,reach,rfl,(interrupts_seen idle_pair_distinct).1 _ reach 0 (by decide)⟩

/- Thread 2 is interrupted on core 0, switched out by the handler of ALARM and resumed on core 1,
   where it leaves the vector of core 0 with SERIAL_RX_READY in it. -/
def leftRun : List (Action 2 (Fin 4)) :=
  [.install 0 .alarm true, .disable 0, .switch 0 2, .enable 0, .picRaise 0 .serialRxReady,
    .picSend false, .picRaise 0 .alarm, .picSend true, .deliver 0, .step 0, .step 0, .step 0,
    .switch 0 3, .disable 1, .switch 1 2, .step 1, .step 1, .step 1]

set_option maxRecDepth 4000 in
theorem left_interrupt_unseen : ∃ s : Vm 2 (Fin 4), (vmSystem idlePair).Reach s ∧
    s.intrPending 0 = 4 ∧ ¬ Signalled s 0 ∧ ¬ Watched s 0 := by
  have reach := play_reach (m := vmSystem idlePair) rfl leftRun rfl
  refine ⟨_,reach,rfl,?_,?_⟩
  · unfold Signalled Owed
    decide
  · unfold Watched
    decide

theorem halt_inductive (distinct : Function.Injective idle) (cores : n ≤ maxCores) :
    (vmSystem idle).Inductive fun s => PlaceInv idle s ∧ HaltInv idle s where
  start s first := by
    refine ⟨((inv_inductive distinct).start s first).place,fun k has => ?_,fun c here => ?_⟩
    · subst first
      exact absurd has (eq_zero_iff.mp rfl k)
    · subst first
      cases here
  step s a s' inv move :=
    have did := step_did move
    ⟨place_did inv.1 did,halt_did cores inv.1 inv.2 did⟩

/-- A bit of halt_vector is that of a core whose idle thread is in cpu_core_halt; a core that waits
    there runs its idle thread, and if its bit has been cleared by a restart, the signal that ends
    the wait has been sent or is about to be. -/
theorem restarts_not_lost (distinct : Function.Injective idle) (cores : n ≤ maxCores)
    (reach : (vmSystem idle).Reach s) :
    (∀ k, Has s.haltVector k → ∃ c : Fin n, k = c ∧
      (s.place (idle c)).halts = some c ∧ (s.place (idle c)).Marked = true) ∧
    ∀ c, s.place (idle c) = .waitSignal c → s.running c = idle c ∧
      (Has s.haltVector c ∨ Signalled s c) := by
  obtain ⟨place,halt⟩ := inductive_reach (halt_inductive distinct cores) reach
  exact ⟨halt.marked,fun c here => ⟨waiting_runs place here,halt.awake c here⟩⟩

/- Core 1 halts and core 0 restarts it. -/
def restartRun : List (Action 2 (Fin 4)) := [.halt 1, .step 1, .restart 0 1]

theorem restarts_not_lost_pair : ∃ s : Vm 2 (Fin 4), (vmSystem idlePair).Reach s ∧
    s.usr1 1 = 0 ∧ s.running 1 = idlePair 1 ∧ (Has s.haltVector (1 : Fin 2) ∨ Signalled s 1) := by
  have reach := play_reach (m := vmSystem idlePair) rfl restartRun rfl
  exact ⟨_,reach,rfl,(restarts_not_lost idle_pair_distinct (by decide) reach).2 1 rfl⟩

end Bios
