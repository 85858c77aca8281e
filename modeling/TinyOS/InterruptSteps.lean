import TinyOS.Interrupts

/- What a step of the interrupt machinery does, where threads are, and what is in the pending
   vectors. -/
namespace Bios
open Transition Bits
variable {n : Nat} {Thread : Type}

/- The core for which it is in cpu_core_halt. -/
def Place.halts : Place n → Option (Fin n)
  | .setHalt core | .waitSignal core | .clearHalt core | .unblock core => some core
  | .dispatch core halting _ => if halting then some core else none
  | .code => none

attribute [grind =] Place.halts Place.Free Place.Waiting

/- Where threads are. -/
structure PlaceInv (idle : Fin n → Thread) (s : Vm n Thread) : Prop where
  apart : ∀ c d, s.running c = s.running d → c = d
  home : ∀ c d, s.running c = idle d → c = d
  resting : ∀ t, (∀ c, s.running c ≠ t) → (s.place t).Free = true
  blocked : ∀ t, s.place t ≠ .code → s.blocked t = true
  halting : ∀ t c, (s.place t).halts = some c → t = idle c

/- What is in the vectors and what has been in them. -/
structure VectorInv (s : Vm n Thread) : Prop where
  known : ∀ c j, Has (s.intrPending c) j → (interruptOf j).isSome
  held : ∀ t c halting v, s.place t = .dispatch c halting (.exchange v) →
    v ≠ 0 ∧ ∀ j, Has v j → (interruptOf j).isSome
  counts : ∀ c i, s.irqRaised c i =
    (s.taken c).countP (·.1 = i) + if Has (s.intrPending c) i.number then 1 else 0
  lowest : ∀ c, ∀ entry ∈ s.taken c,
    Has entry.2 entry.1.number ∧ ∀ j, Has entry.2 j → entry.1.number ≤ j

theorem number_of_interrupt {k : Nat} {irq : Interrupt} (is : interruptOf k = some irq) :
    irq.number = k := by
  unfold interruptOf at is
  split at is <;> simp_all [Interrupt.number] <;> (subst is; rfl)

theorem interrupt_of_number (irq : Interrupt) : interruptOf irq.number = some irq := by
  cases irq <;> rfl

theorem number_lt (irq : Interrupt) : irq.number < 32 := by
  cases irq <;> decide

theorem number_inj {i j : Interrupt} (same : i.number = j.number) : i = j := by
  have := interrupt_of_number j
  rw [← same, interrupt_of_number] at this
  exact Option.some.inj this

variable {idle : Fin n → Thread} {s s' : Vm n Thread}

theorem set_known {v : BitVec 32} (known : ∀ j, Has v j → (interruptOf j).isSome)
    (intno : Interrupt) : ∀ j, Has (set v intno.number) j → (interruptOf j).isSome := by
  intro j has
  rcases (has_set (number_lt intno)).mp has with old | rfl
  · exact known j old
  · rw [interrupt_of_number]
    rfl

/-- A raise that finds the bit clear. -/
theorem raise_vector (inv : VectorInv s) {core : Fin n} {intno : Interrupt}
    (fresh : ¬ Has (s.intrPending core) intno.number) :
    VectorInv { s with
      intrPending := Function.update s.intrPending core (set (s.intrPending core) intno.number)
      irqRaised := Function.update s.irqRaised core
        (Function.update (s.irqRaised core) intno (s.irqRaised core intno + 1)) } := by
  obtain ⟨known,held,counts,lowest⟩ := inv
  refine ⟨fun c j => ?_,held,fun c i => ?_,lowest⟩ <;> by_cases here : c = core
  · subst here
    simp only [Function.update_self]
    exact set_known (known c) intno j
  · simpa only [Function.update_of_ne here] using known c j
  · subst here
    simp only [Function.update_self, has_set (number_lt intno)]
    have count := counts c i
    by_cases same : i = intno
    · subst same
      rw [if_neg fresh] at count
      simp [count]
    · have other : i.number ≠ intno.number := fun eq => same (number_inj eq)
      simpa only [Function.update_of_ne same, other, or_false] using count
  · simpa only [Function.update_of_ne here] using counts c i

theorem again_vector (inv : VectorInv s) {core : Fin n} {intno : Interrupt}
    (old : Has (s.intrPending core) intno.number) :
    VectorInv { s with
      intrPending := Function.update s.intrPending core
        (set (s.intrPending core) intno.number) } := by
  have same : set (s.intrPending core) intno.number = s.intrPending core := by
    refine BitVec.eq_of_getLsbD_eq fun j _ => Bool.eq_iff_iff.mpr ?_
    have := has_set (number_lt intno) (v := s.intrPending core) (j := j)
    exact this.trans ⟨fun either => either.elim id fun is => is ▸ old,.inl⟩
  rw [same, Function.update_eq_self]
  exact { inv with }

variable [DecidableEq Thread]

/- What a step does. `moved` are the steps of dispatch_interrupts that change nothing else. -/
inductive Did (idle : Fin n → Thread) (s : Vm n Thread) : Vm n Thread → Prop where
  | again (core : Fin n) (intno : Interrupt) (old : Has (s.intrPending core) intno.number) :
    Did idle s { s with
      intrPending := Function.update s.intrPending core (set (s.intrPending core) intno.number) }
  | picRaised (core : Fin n) (intno : Interrupt) (idle' : s.picOwed = none)
      (fresh : ¬ Has (s.intrPending core) intno.number) :
    Did idle s { s with
      intrPending := Function.update s.intrPending core (set (s.intrPending core) intno.number)
      irqRaised := Function.update s.irqRaised core
        (Function.update (s.irqRaised core) intno (s.irqRaised core intno + 1))
      picOwed := some core }
  | raised (t : Thread) (core : Fin n) (intno : Interrupt)
      (fresh : ¬ Has (s.intrPending core) intno.number) :
    Did idle s { s.owe t core with
      intrPending := Function.update s.intrPending core (set (s.intrPending core) intno.number)
      irqRaised := Function.update s.irqRaised core
        (Function.update (s.irqRaised core) intno (s.irqRaised core intno + 1)) }
  | picSent (core : Fin n) (merged : Bool) (owes : s.picOwed = some core) :
    Did idle s (interruptCore { s with picOwed := none } core merged)
  | sent (t : Thread) (core : Fin n) (rest : List (Fin n)) (merged : Bool)
      (owes : s.owed t = core :: rest) :
    Did idle s (interruptCore { s with owed := Function.update s.owed t rest } core merged)
  | restarted (t : Thread) (core : Fin n) :
    Did idle s { s.owe t core with haltVector := clear s.haltVector core }
  | unmarked (core : Fin n) (out : test s.haltVector core = false) :
    Did idle s { s with haltVector := clear s.haltVector core }
  | masked (t : Thread) (blocked : Bool) (here : s.place t = .code) :
    Did idle s { s with blocked := Function.update s.blocked t blocked }
  | installed (intvec : Fin n → Interrupt → Bool) : Did idle s { s with intvec := intvec }
  | switched (c : Fin n) (next : Thread) (free : (s.place (s.running c)).Free = true)
      (off : ∀ d, s.running d ≠ next) (own : ∀ d, next = idle d → c = d) :
    Did idle s { s with running := Function.update s.running c next }
  | delivered (c : Fin n) (here : s.place (s.running c) = .code) (some : 0 < s.usr1 c) :
    Did idle s { s.goto (s.running c) (.dispatch c false .look) with
      blocked := Function.update s.blocked (s.running c) true
      usr1 := Function.update s.usr1 c (s.usr1 c - 1) }
  | halted (c : Fin n) (here : s.place (s.running c) = .code) (own : s.running c = idle c) :
    Did idle s { s.goto (s.running c) (.setHalt c) with
      blocked := Function.update s.blocked (s.running c) true }
  | marked (c core : Fin n) (here : s.place (s.running c) = .setHalt core) :
    Did idle s { s.goto (s.running c) (.waitSignal core) with
      haltVector := set s.haltVector core }
  | woken (c core : Fin n) (here : s.place (s.running c) = .waitSignal core)
      (some : 0 < s.usr1 c) :
    Did idle s { s.goto (s.running c) (.dispatch core true .look) with
      usr1 := Function.update s.usr1 c (s.usr1 c - 1) }
  | interrupted (c core : Fin n) (here : s.place (s.running c) = .waitSignal core) :
    Did idle s (s.goto (s.running c) (.clearHalt core))
  | cleared (c core : Fin n) (here : s.place (s.running c) = .clearHalt core) :
    Did idle s { s.goto (s.running c) (.unblock core) with
      haltVector := clear s.haltVector core }
  | unblocked (c core : Fin n) (here : s.place (s.running c) = .unblock core) :
    Did idle s { s.goto (s.running c) .code with
      blocked := Function.update s.blocked (s.running c) false }
  | moved (c core : Fin n) (halting : Bool) (loop loop' : Loop)
      (here : s.place (s.running c) = .dispatch core halting loop) (going : loop ≠ .done)
      (ends : loop' = .done → s.intrPending core = 0)
      (holds : ∀ v, loop' = .exchange v → v = s.intrPending core ∧ v ≠ 0) :
    Did idle s (s.goto (s.running c) (.dispatch core halting loop'))
  | took (c core : Fin n) (halting : Bool) (irq : Interrupt)
      (here : s.place (s.running c) = .dispatch core halting (.exchange (s.intrPending core)))
      (is : interruptOf (lowest (s.intrPending core)) = some irq) :
    Did idle s { s.goto (s.running c) (.dispatch core halting (.call irq)) with
      intrPending := Function.update s.intrPending core (clear (s.intrPending core) irq.number)
      taken := Function.update s.taken core (s.taken core ++ [(irq,s.intrPending core)]) }
  | deserted (c core : Fin n) (halting : Bool)
      (here : s.place (s.running c) = .dispatch core halting .compare) (other : c ≠ core) :
    Did idle s { s.goto (s.running c) (.dispatch core halting .done) with
      left := Function.update s.left core true }
  | finished (c core : Fin n) (here : s.place (s.running c) = .dispatch core true .done) :
    Did idle s (s.goto (s.running c) (.clearHalt core))
  | returned (c core : Fin n) (here : s.place (s.running c) = .dispatch core false .done) :
    Did idle s { s.goto (s.running c) .code with
      blocked := Function.update s.blocked (s.running c) false }

theorem dispatch_did {c core : Fin n} {halting : Bool} {loop : Loop}
    (here : s.place (s.running c) = .dispatch core halting loop)
    (run : dispatchStep s c (s.running c) core halting loop = some s') : Did idle s s' := by
  cases loop with
  | look =>
    simp only [dispatchStep, Option.some.injEq] at run
    subst run
    exact .moved c core halting .look _ here (by simp) (by split <;> simp_all)
      (by split <;> simp_all)
  | exchange v =>
    simp only [dispatchStep, fetchLowest, Option.bind_eq_bind, Option.bind_eq_some_iff] at run
    obtain ⟨irq,is,run⟩ := run
    split at run
    · rename_i same
      subst same
      simp only [Option.some.injEq] at run
      subst run
      exact .took c core halting irq here is
    · split at run <;> simp only [Option.some.injEq] at run <;> subst run
      · exact .moved c core halting (.exchange v) _ here (by simp) (fun _ => by assumption)
          (by simp)
      · exact .moved c core halting (.exchange v) _ here (by simp) (by simp) (by simp_all)
  | call irq =>
    simp only [dispatchStep, Option.some.injEq] at run
    subst run
    exact .moved c core halting (.call irq) _ here (by simp) (by split <;> simp)
      (by split <;> simp)
  | handler irq =>
    simp only [dispatchStep, Option.some.injEq] at run
    subst run
    exact .moved c core halting (.handler irq) _ here (by simp) (by simp) (by simp)
  | compare =>
    simp only [dispatchStep] at run
    split at run <;> simp only [Option.some.injEq] at run <;> subst run
    · exact .moved c core halting .compare _ here (by simp) (by simp) (by simp)
    · exact .deserted c core halting here (by assumption)
  | done =>
    simp only [dispatchStep] at run
    cases halting with
    | true =>
      simp only [if_true, Option.some.injEq] at run
      subst run
      exact .finished c core here
    | false =>
      simp only [Bool.false_eq_true, if_false, Option.some.injEq] at run
      subst run
      exact .returned c core here

theorem thread_did {c : Fin n} (ready : (s.place (s.running c)).Waiting = true → 0 < s.usr1 c)
    (run : threadStep s c (s.running c) = some s') : Did idle s s' := by
  unfold threadStep at run
  split at run
  · cases run
  · rename_i core halting loop here
    exact dispatch_did here run
  all_goals
    rename_i core here
    simp only [Option.some.injEq] at run
    subst run
  · exact .marked c core here
  · exact .woken c core here (ready (by rw [here]; rfl))
  · exact .cleared c core here
  · exact .unblocked c core here

theorem raise_did (core : Fin n) (intno : Interrupt) (t : Thread) :
    Did idle s (if (raiseInterrupt s core intno).2 then
      (raiseInterrupt s core intno).1.owe t core else (raiseInterrupt s core intno).1) := by
  have tested := test_iff (v := s.intrPending core) (number_lt intno)
  by_cases old : Has (s.intrPending core) intno.number
  · simpa [raiseInterrupt, tested.mpr old] using Did.again core intno old
  · have none : test (s.intrPending core) intno.number = false := by
      simpa using mt tested.mp old
    simp only [raiseInterrupt, none, Bool.false_eq_true, if_false, if_true]
    exact .raised t core intno old

theorem step_did {a : Action n Thread} (move : (vmSystem idle).Step s a s') : Did idle s s' := by
  obtain ⟨enabled,run⟩ := move
  cases a with
  | picRaise core intno =>
    have tested := test_iff (v := s.intrPending core) (number_lt intno)
    simp only [vmSystem, act, raiseInterrupt, Option.some.injEq] at run
    subst run
    by_cases old : Has (s.intrPending core) intno.number
    · simpa [tested.mpr old] using Did.again core intno old
    · simpa [mt tested.mp old] using Did.picRaised core intno enabled old
  | picSend merged =>
    simp only [vmSystem, act, Option.bind_eq_bind, Option.bind_eq_some_iff,
      Option.some.injEq] at run
    obtain ⟨core,owes,rfl⟩ := run
    exact .picSent core merged owes
  | ici c core =>
    simp only [vmSystem, act, Option.some.injEq] at run
    subst run
    exact raise_did core .ici (s.running c)
  | restart c core =>
    simp only [vmSystem, act, coreRestart, Option.some.injEq] at run
    subst run
    split
    · exact .restarted (s.running c) core
    · rename_i out
      exact .unmarked core (by simpa using out)
  | send c merged =>
    simp only [vmSystem, act] at run
    split at run
    · cases run
    · rename_i core rest owes
      simp only [Option.some.injEq] at run
      subst run
      exact .sent (s.running c) core rest merged owes
  | disable c =>
    simp only [vmSystem, act, Option.some.injEq] at run
    subst run
    exact .masked (s.running c) true enabled
  | enable c =>
    simp only [vmSystem, act, Option.some.injEq] at run
    subst run
    exact .masked (s.running c) false enabled
  | install c interrupt present =>
    simp only [vmSystem, act, Option.some.injEq] at run
    subst run
    exact .installed _
  | switch c next =>
    simp only [vmSystem, act, Option.some.injEq] at run
    subst run
    exact .switched c next enabled.1 enabled.2.2.1 enabled.2.2.2
  | deliver c =>
    simp only [vmSystem, act] at run
    split at run
    · rename_i here
      simp only [Option.some.injEq] at run
      subst run
      exact .delivered c here enabled.2
    · cases run
  | halt c =>
    simp only [vmSystem, act, Option.some.injEq] at run
    subst run
    exact .halted c enabled.1 enabled.2
  | eintr c =>
    simp only [vmSystem, act] at run
    split at run
    · rename_i core here
      simp only [Option.some.injEq] at run
      subst run
      exact .interrupted c core here
    · cases run
  | step c => exact thread_did enabled.2 run

theorem place_did (inv : PlaceInv idle s) (did : Did idle s s') : PlaceInv idle s' := by
  obtain ⟨apart,home,resting,blocked,halting⟩ := inv
  cases did with
  | again | picRaised | raised | picSent | sent | restarted | unmarked | installed =>
    exact ⟨apart,home,resting,blocked,halting⟩
  | masked t blocked' here =>
    refine ⟨apart,home,resting,fun u => ?_,halting⟩
    have := blocked u
    simp only [Function.update_apply]
    grind -ring -linarith
  | switched c next free off own =>
    constructor <;> simp only [Function.update_apply]
    case resting =>
      intro t out
      by_cases same : t = s.running c
      · exact same ▸ free
      · refine resting t fun d => ?_
        by_cases here : d = c
        · exact fun is => same (here ▸ is.symm)
        · simpa [here] using out d
    all_goals grind -ring -linarith
  | _ =>
    constructor <;> simp only [Vm.goto, Function.update_apply]
    all_goals grind -ring -linarith

/-- An exchange takes the lowest interrupt out of the vector. -/
theorem took_vector (inv : VectorInv s) {c core : Fin n} {halting : Bool} {irq : Interrupt}
    (here : s.place (s.running c) = .dispatch core halting (.exchange (s.intrPending core)))
    (is : interruptOf (lowest (s.intrPending core)) = some irq) :
    VectorInv { s.goto (s.running c) (.dispatch core halting (.call irq)) with
      intrPending := Function.update s.intrPending core (clear (s.intrPending core) irq.number)
      taken := Function.update s.taken core (s.taken core ++ [(irq,s.intrPending core)]) } := by
  obtain ⟨known,held,counts,low⟩ := inv
  have first := has_lowest (held _ _ _ _ here).1
  have number := number_of_interrupt is
  rw [← number] at first
  constructor
  case known =>
    intro d j has
    by_cases at' : d = core
    · subst at'
      simp only [Function.update_self, has_clear (number_lt irq)] at has
      exact known d j has.1
    · simp only [Function.update_of_ne at'] at has
      exact known d j has
  case held =>
    intro t d halting' v at'
    simp only [Vm.goto, Function.update_apply] at at'
    split at at'
    · cases at'
    · exact held t d halting' v at'
  case counts =>
    intro d i
    have count := counts d i
    by_cases at' : d = core
    · subst at'
      simp only [Vm.goto, Function.update_self, has_clear (number_lt irq), List.countP_append,
        List.countP_singleton]
      by_cases same : i = irq
      · subst same
        rw [if_pos first] at count
        simp [count]
      · have other : i.number ≠ irq.number := fun eq => same (number_inj eq)
        simp [count, other, Ne.symm same]
    · simpa only [Vm.goto, Function.update_of_ne at'] using count
  case lowest =>
    intro d entry member
    by_cases at' : d = core
    · subst at'
      simp only [Function.update_self, List.mem_append, List.mem_singleton] at member
      rcases member with old | rfl
      · exact low d entry old
      · exact ⟨first,fun j has => number ▸ lowest_le has⟩
    · simp only [Function.update_of_ne at'] at member
      exact low d entry member

theorem goto_vector (inv : VectorInv s) {t : Thread} {place : Place n}
    (held : ∀ c halting v, place = .dispatch c halting (.exchange v) →
      v ≠ 0 ∧ ∀ j, Has v j → (interruptOf j).isSome) : VectorInv (s.goto t place) := by
  refine ⟨inv.known,fun u c halting v here => ?_,inv.counts,inv.lowest⟩
  simp only [Vm.goto, Function.update_apply] at here
  split at here
  · exact held c halting v here
  · exact inv.held u c halting v here

theorem vector_did (inv : VectorInv s) (did : Did idle s s') : VectorInv s' := by
  have went {t : Thread} {place : Place n}
      (other : ∀ c halting v, place ≠ .dispatch c halting (.exchange v)) :
      VectorInv (s.goto t place) := goto_vector inv fun c halting v is => absurd is (other _ _ _)
  cases did with
  | again core intno old => exact again_vector inv old
  | picRaised core intno idle' fresh => exact { raise_vector inv fresh with }
  | raised t core intno fresh => exact { raise_vector inv fresh with }
  | took c core halting irq here is => exact took_vector inv here is
  | moved c core halting loop loop' here going ends holds =>
    refine goto_vector inv fun d halting' v is => ?_
    cases is
    obtain ⟨rfl,some⟩ := holds v rfl
    exact ⟨some,inv.known core⟩
  | picSent | sent | restarted | unmarked | masked | installed | switched => exact { inv with }
  | finished | interrupted => exact went (by simp)
  | delivered | halted | marked | woken | cleared | unblocked | deserted | returned =>
    exact { went (by simp) with }

end Bios
