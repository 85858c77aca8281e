import TinyOS.TimeSlices

/- The time slice of every core comes to an end, unless the bios_cancel_timer of a yield, which runs
   before preemption is off, has cancelled the timer of a core that its thread has left. -/
namespace TimeSlices
open Transition KernelSched
variable {Core : Type}

/- A frame of yield and gain, and one of dispatch_interrupts and cpu_core_halt. -/
def Frame.Yields : Frame Core → Bool
  | .look _ _ | .compare _ _ | .waits _ | .unblock => false
  | _ => true

/- Not going to enable interrupts. -/
def Frame.Masked : Frame Core → Bool
  | .inside preempt | .out preempt | .on preempt => !preempt
  | _ => true

/- What a thread can be in, and its signal mask: a yield, a dispatch_interrupts above that, whose
   signals are blocked, and the yield of a handler above that. -/
inductive Shape : Bool → List (Frame Core) → Prop where
  | work (enabled : Bool) : Shape enabled []
  | yields (enabled : Bool) (f : Frame Core) (yields : f.Yields = true) : Shape enabled [f]
  | loop (d : Frame Core) (loop : d.Yields = false) : Shape false [d]
  | handler (f : Frame Core) (core : Core) (halting : Bool) (yields : f.Yields = true)
      (masked : f.Masked = true) : Shape false [f,.compare core halting]
  | pushed (d g : Frame Core) (loop : d.Yields = false) (below : g.Yields = true)
      (here : g.Out = false) : Shape false [d,g]
  | nested (f : Frame Core) (core : Core) (halting : Bool) (g : Frame Core)
      (yields : f.Yields = true) (masked : f.Masked = true) (below : g.Yields = true)
      (here : g.Out = false) : Shape false [f,.compare core halting,g]

/- The core whose interrupts it is about to take, or to wait for. -/
def Frame.core : Frame Core → Option Core
  | .look core _ | .waits core => some core
  | _ => none

theorem yields_core {f : Frame Core} (yields : f.Yields = true) : f.core = none := by
  cases f <;> first | rfl | cases yields

theorem shape_yield {enabled enabled' : Bool} {f g : Frame Core} {rest : List (Frame Core)}
    (shape : Shape enabled (f :: rest)) (yields : f.Yields = true) (yields' : g.Yields = true)
    (kept : f.Masked = true → enabled = false → enabled' = false ∧ g.Masked = true) :
    Shape enabled' (g :: rest) := by
  cases shape with
  | yields => exact .yields _ g yields'
  | handler _ core halting _ masked =>
    obtain ⟨off,masked'⟩ := kept masked rfl
    exact off ▸ .handler g core halting yields' masked'
  | nested _ core halting h _ masked below here =>
    obtain ⟨off,masked'⟩ := kept masked rfl
    exact off ▸ .nested g core halting h yields' masked' below here
  | loop _ loop | pushed _ _ loop =>
    rw [loop] at yields
    cases yields

/- The end of a yield leads to work or to a comparison of the cores. -/
theorem shape_return {enabled : Bool} {f : Frame Core} {rest : List (Frame Core)}
    (shape : Shape enabled (f :: rest)) (yields : f.Yields = true) :
    Shape enabled rest ∧ rest.head?.any Frame.Out = false ∧ rest.head?.bind Frame.core = none := by
  cases shape with
  | yields => exact ⟨.work _,rfl,rfl⟩
  | handler _ core halting => exact ⟨.loop _ rfl,rfl,rfl⟩
  | nested _ core halting h _ _ below here => exact ⟨.pushed _ h rfl below here,rfl,rfl⟩
  | loop _ loop | pushed _ _ loop =>
    rw [loop] at yields
    cases yields

theorem shape_loop {enabled : Bool} {d e : Frame Core} {rest : List (Frame Core)}
    (shape : Shape enabled (d :: rest)) (loop : d.Yields = false) (loop' : e.Yields = false) :
    Shape enabled (e :: rest) := by
  cases shape with
  | loop => exact .loop e loop'
  | pushed _ g _ below here => exact .pushed e g loop' below here
  | yields _ _ yields | handler _ _ _ yields | nested _ _ _ _ yields =>
    rw [loop] at yields
    cases yields

/- The end of a dispatch_interrupts, or of cpu_core_halt, enables interrupts. -/
theorem shape_end {enabled : Bool} {d : Frame Core} {rest : List (Frame Core)}
    (shape : Shape enabled (d :: rest)) (loop : d.Yields = false) :
    Shape true rest ∧ rest.head?.any Frame.Out = false ∧ rest.head?.bind Frame.core = none := by
  cases shape with
  | loop => exact ⟨.work _,rfl,rfl⟩
  | pushed _ g _ below here => exact ⟨.yields _ g below,here,yields_core below⟩
  | yields _ _ yields | handler _ _ _ yields | nested _ _ _ _ yields =>
    rw [loop] at yields
    cases yields

theorem shape_call {enabled : Bool} {d f : Frame Core} {rest : List (Frame Core)} (core : Core)
    (halting : Bool) (shape : Shape enabled (d :: rest)) (loop : d.Yields = false)
    (yields : f.Yields = true) (masked : f.Masked = true) :
    Shape enabled (f :: .compare core halting :: rest) := by
  cases shape with
  | loop => exact .handler f core halting yields masked
  | pushed _ g _ below here => exact .nested f core halting g yields masked below here
  | yields _ _ yields' | handler _ _ _ yields' | nested _ _ _ _ yields' =>
    rw [loop] at yields'
    cases yields'

/- A signal comes in while the signal mask of the thread lets it. -/
theorem shape_signal {d : Frame Core} {stack : List (Frame Core)} (shape : Shape true stack)
    (here : stack.head?.any Frame.Out = false) (loop : d.Yields = false) :
    Shape false (d :: stack) := by
  cases shape with
  | work => exact .loop d loop
  | yields _ g yields => exact .pushed d g loop yields here

theorem shape_length {enabled : Bool} {stack : List (Frame Core)} (shape : Shape enabled stack) :
    stack.length ≤ 3 := by
  cases shape <;> simp

theorem unkept (s : Slices Core) (c : Core) : ∀ d, d ≠ c → s.done d = s.done d ∧
    (s.lost d = true ∨ s.timer d = true → s.lost d = true ∨ s.timer d = true) ∧
    s.expired d = s.expired d ∧ s.alarm d = s.alarm d :=
  fun _ _ => ⟨rfl,id,rfl,rfl⟩

variable [DecidableEq Core]

/- Sets the timer of the core before it returns. -/
def Frame.WillSet (c : Core) : Frame Core → Bool
  | .cancel | .cancelOf _ | .off | .inside _ | .out _ | .on _ | .set => true
  | .setOf core => core = c
  | .ret | .look _ _ | .compare _ _ | .waits _ | .unblock => false

/- The slice of the core's thread is going to end: its timer is armed, or has gone off and ALARM is
   to be raised or pending, or the thread is going to set it. -/
def Slices.Ends (s : Slices Core) (c : Core) : Prop :=
  s.timer c = true ∨ s.expired c = true ∨ s.alarm c = true ∨
    (s.stack (s.currentThread c)).any (Frame.WillSet c) = true

theorem loop_unset {d : Frame Core} (loop : d.Yields = false) (c : Core)
    (rest : List (Frame Core)) : (d :: rest).any (Frame.WillSet c) = rest.any (Frame.WillSet c) := by
  cases d <;> first | rfl | cases loop

structure SliceInv (s : Slices Core) : Prop where
  apart : ∀ c d, s.currentThread c = s.currentThread d → c = d
  here : ∀ c, (s.stack (s.currentThread c)).head?.any Frame.Out = false
  shape : ∀ t, Shape (s.enabled t) (s.stack t)
  home : ∀ c, ∀ core ∈ (s.stack (s.currentThread c)).head?.bind Frame.core, core = c
  ends : ∀ c, s.done c = false → s.lost c = true ∨ s.Ends c

variable {s s' : Slices Core}

/- What a step of core c does, on which its thread stays. -/
structure Goes (s s' : Slices Core) (c : Core) : Prop where
  current : s'.currentThread = s.currentThread
  others : ∀ t, t ≠ s.currentThread c → s'.stack t = s.stack t ∧ s'.enabled t = s.enabled t
  shape : Shape (s'.enabled (s.currentThread c)) (s'.stack (s.currentThread c))
  here : (s'.stack (s.currentThread c)).head?.any Frame.Out = false
  home : ∀ core ∈ (s'.stack (s.currentThread c)).head?.bind Frame.core, core = c
  own : s'.lost c = true → s.lost c = true
  kept : ∀ d, d ≠ c → s'.done d = s.done d ∧
    (s.lost d = true ∨ s.timer d = true → s'.lost d = true ∨ s'.timer d = true) ∧
    s'.expired d = s.expired d ∧ s'.alarm d = s.alarm d
  ends : s'.done c = false → s'.lost c = true ∨ s'.Ends c

theorem goes_inv {c : Core} (inv : SliceInv s) (goes : Goes s s' c) : SliceInv s' where
  apart := by rw [goes.current]; exact inv.apart
  here d := by
    rw [goes.current]
    by_cases same : s.currentThread d = s.currentThread c
    · rw [same]
      exact goes.here
    · rw [(goes.others _ same).1]
      exact inv.here d
  shape t := by
    by_cases same : t = s.currentThread c
    · exact same ▸ goes.shape
    · rw [(goes.others t same).1, (goes.others t same).2]
      exact inv.shape t
  home d core is := by
    rw [goes.current] at is
    by_cases same : s.currentThread d = s.currentThread c
    · cases inv.apart d c same
      exact goes.home core is
    · exact inv.home d core ((goes.others _ same).1 ▸ is)
  ends d live := by
    by_cases same : d = c
    · subst same
      exact goes.ends live
    · have apart : s.currentThread d ≠ s.currentThread c := fun eq => same (inv.apart d c eq)
      obtain ⟨done,timer,expired,alarm⟩ := goes.kept d same
      have before := inv.ends d (done ▸ live)
      simp only [Slices.Ends, goes.current, (goes.others _ apart).1, expired, alarm] at before ⊢
      rw [← or_assoc] at before ⊢
      exact before.imp_left timer

theorem goes_to {c : Core} {stack : List (Frame Core)} {enabled : Bool}
    (current : s'.currentThread = s.currentThread)
    (now : s'.stack = Function.update s.stack (s.currentThread c) stack)
    (mask : s'.enabled = Function.update s.enabled (s.currentThread c) enabled)
    (shape : Shape enabled stack) (here : stack.head?.any Frame.Out = false)
    (home : ∀ core ∈ stack.head?.bind Frame.core, core = c)
    (own : s'.lost c = true → s.lost c = true)
    (kept : ∀ d, d ≠ c → s'.done d = s.done d ∧
      (s.lost d = true ∨ s.timer d = true → s'.lost d = true ∨ s'.timer d = true) ∧
      s'.expired d = s.expired d ∧ s'.alarm d = s.alarm d)
    (ends : s'.done c = false → s'.lost c = true ∨ s'.timer c = true ∨ s'.expired c = true ∨
      s'.alarm c = true ∨ stack.any (Frame.WillSet c) = true) : Goes s s' c where
  current := current
  others t other := by
    rw [now, mask]
    exact ⟨Function.update_of_ne other _ _,Function.update_of_ne other _ _⟩
  shape := by rw [now, mask, Function.update_self, Function.update_self]; exact shape
  here := by rw [now, Function.update_self]; exact here
  home := by rw [now, Function.update_self]; exact home
  own := own
  kept := kept
  ends live := by
    rw [Slices.Ends, current, now, Function.update_self]
    exact ends live

theorem same_mask (s : Slices Core) (t : TcbRef Core) :
    s.enabled = Function.update s.enabled t (s.enabled t) :=
  (Function.update_eq_self _ _).symm

theorem deliver_goes {c : Core} (inv : SliceInv s)
    (enabled : s.enabled (s.currentThread c) = true) :
    Goes s ((s.goto (s.currentThread c)
      (.look c false :: s.stack (s.currentThread c))).mask (s.currentThread c) false) c := by
  have shape := inv.shape (s.currentThread c)
  rw [enabled] at shape
  refine goes_to rfl rfl rfl (shape_signal shape (inv.here c) rfl) rfl ?_ id (unkept s c) ?_
  · intro core is
    cases is
    rfl
  · exact inv.ends c

theorem call_goes (s : Slices Core) (c : Core) : Goes s (s.goto (s.currentThread c) [.cancel]) c :=
  goes_to rfl rfl (same_mask s _) (.yields _ _ rfl) rfl (by simp [Frame.core]) id (unkept s c)
    fun _ => .inr (.inr (.inr (.inr rfl)))

theorem preempt_goes {c : Core} (inv : SliceInv s) (on : Bool)
    (work : s.stack (s.currentThread c) = []) : Goes s (s.mask (s.currentThread c) on) c := by
  have now : s.stack = Function.update s.stack (s.currentThread c) [] :=
    work ▸ (Function.update_eq_self _ _).symm
  refine goes_to rfl now rfl (.work on) rfl (by simp) id (unkept s c) ?_
  intro live
  have before := inv.ends c live
  rwa [Slices.Ends, work] at before

theorem halt_goes {c : Core} (inv : SliceInv s) (work : s.stack (s.currentThread c) = []) :
    Goes s ((s.goto (s.currentThread c) [.waits c]).mask (s.currentThread c) false) c := by
  refine goes_to rfl rfl rfl (.loop _ rfl) rfl ?_ id (unkept s c) ?_
  · intro core is
    cases is
    rfl
  · intro live
    have before := inv.ends c live
    rwa [Slices.Ends, work] at before

theorem signal_goes {c : Core} {got : Bool} (inv : SliceInv s)
    (run : signalled s (s.currentThread c) got = some s') : Goes s s' c := by
  unfold signalled at run
  split at run
  · rename_i core rest is
    cases run
    have shape := inv.shape (s.currentThread c)
    have home := inv.home c
    have before := inv.ends c
    rw [is] at shape home
    rw [Slices.Ends, is] at before
    refine goes_to rfl rfl (same_mask s _) (shape_loop shape rfl ?_) ?_ ?_ id (unkept s c) ?_
    · cases got <;> rfl
    · cases got <;> rfl
    · cases got
      · simp [Frame.core]
      · exact home
    · cases got <;> exact before
  · cases run

/- A thread goes on in yield or gain. -/
theorem yield_goes {c : Core} {f g : Frame Core} {rest : List (Frame Core)} {enabled : Bool}
    (inv : SliceInv s) (is : s.stack (s.currentThread c) = f :: rest)
    (yields : f.Yields = true) (yields' : g.Yields = true) (here : g.Out = false)
    (kept : f.Masked = true → s.enabled (s.currentThread c) = false →
      enabled = false ∧ g.Masked = true) (ends : g.WillSet c = true) :
    Goes s ((s.goto (s.currentThread c) (g :: rest)).mask (s.currentThread c) enabled) c := by
  have shape := inv.shape (s.currentThread c)
  rw [is] at shape
  refine goes_to rfl rfl rfl (shape_yield shape yields yields' kept) here ?_ id (unkept s c) ?_
  · simp [yields_core yields']
  · exact fun _ => .inr (.inr (.inr (.inr (by rw [List.any_cons, ends]; rfl))))

/- yield cancels a timer, which is that of its core unless its thread has been preempted. -/
theorem cancel_goes {c core : Core} {rest : List (Frame Core)} (inv : SliceInv s)
    (is : s.stack (s.currentThread c) = .cancelOf core :: rest) :
    Goes s
      { (s.goto (s.currentThread c) (.off :: rest)).setTimer core false with
        lost := Function.update s.lost core (decide (c ≠ core)) } c := by
  have shape := inv.shape (s.currentThread c)
  rw [is] at shape
  refine goes_to rfl rfl (same_mask s _) (shape_yield shape rfl rfl fun _ off => ⟨off,rfl⟩) rfl ?_
    (fun lost => ?_) (fun d other => ⟨rfl,fun before => ?_,rfl,rfl⟩)
    fun _ => .inr (.inr (.inr (.inr rfl)))
  · simp [Frame.core]
  · by_cases same : c = core
    · simp [← same] at lost
    · exact (Function.update_of_ne same _ s.lost).symm.trans lost
  · show Function.update s.lost core _ d = true ∨ Function.update s.timer core false d = true
    by_cases same : d = core
    · subst same
      exact .inl (by simpa using Ne.symm other)
    · rwa [Function.update_of_ne same, Function.update_of_ne same]

/- gain sets a timer, which is that of its core unless a handler has yielded in between. -/
theorem set_goes {c core : Core} {rest : List (Frame Core)} (inv : SliceInv s)
    (is : s.stack (s.currentThread c) = .setOf core :: rest) :
    Goes s
      { (s.goto (s.currentThread c) (.ret :: rest)).setTimer core true with
        lost := Function.update s.lost core false } c := by
  have shape := inv.shape (s.currentThread c)
  have before := inv.ends c
  rw [is] at shape
  rw [Slices.Ends, is] at before
  have armed (d : Core) (set : s.lost d = true ∨ s.timer d = true) :
      Function.update s.lost core false d = true ∨ Function.update s.timer core true d = true := by
    by_cases same : d = core
    · exact .inr (by rw [same, Function.update_self])
    · rwa [Function.update_of_ne same, Function.update_of_ne same]
  refine goes_to rfl rfl (same_mask s _) (shape_yield shape rfl rfl fun _ off => ⟨off,rfl⟩) rfl ?_
    (fun lost => ?_) (fun d _ => ⟨rfl,armed d,rfl,rfl⟩) fun live => ?_
  · simp [Frame.core]
  · by_cases same : c = core
    · simp [← same] at lost
    · exact (Function.update_of_ne same _ s.lost).symm.trans lost
  · by_cases same : core = c
    · exact .inr (.inl (same ▸ Function.update_self _ _ _))
    · have left := before live
      rw [← or_assoc] at left ⊢
      refine left.imp (armed c) fun others => others.imp id fun others => others.imp id ?_
      simp [Frame.WillSet, same]

theorem return_goes {c : Core} {rest : List (Frame Core)} (inv : SliceInv s)
    (is : s.stack (s.currentThread c) = .ret :: rest) :
    Goes s (s.goto (s.currentThread c) rest) c := by
  have shape := inv.shape (s.currentThread c)
  have before := inv.ends c
  rw [is] at shape
  rw [Slices.Ends, is] at before
  obtain ⟨shape',here,home⟩ := shape_return shape rfl
  refine goes_to rfl rfl (same_mask s _) shape' here ?_ id (unkept s c) before
  rw [home]
  simp

/- A dispatch_interrupts goes on, or cpu_core_halt after it. -/
theorem loop_goes {c : Core} {d e : Frame Core} {rest : List (Frame Core)} (inv : SliceInv s)
    (is : s.stack (s.currentThread c) = d :: rest) (loop : d.Yields = false)
    (loop' : e.Yields = false) (home : ∀ core ∈ e.core, core = c) :
    Goes s (s.goto (s.currentThread c) (e :: rest)) c := by
  have shape := inv.shape (s.currentThread c)
  have before := inv.ends c
  rw [is] at shape
  rw [Slices.Ends, is, loop_unset loop, ← loop_unset loop'] at before
  refine goes_to rfl rfl (same_mask s _) (shape_loop shape loop loop') ?_ home id (unkept s c)
    before
  cases e <;> first | rfl | cases loop'

theorem end_goes {c : Core} {d : Frame Core} {rest : List (Frame Core)} (inv : SliceInv s)
    (is : s.stack (s.currentThread c) = d :: rest) (loop : d.Yields = false) :
    Goes s ((s.goto (s.currentThread c) rest).mask (s.currentThread c) true) c := by
  have shape := inv.shape (s.currentThread c)
  have before := inv.ends c
  rw [is] at shape
  rw [Slices.Ends, is, loop_unset loop] at before
  obtain ⟨shape',here,home⟩ := shape_end shape loop
  refine goes_to rfl rfl rfl shape' here ?_ id (unkept s c) before
  rw [home]
  simp

theorem leave_goes {c : Core} {d : Frame Core} {rest : List (Frame Core)} (inv : SliceInv s)
    (is : s.stack (s.currentThread c) = d :: rest) (loop : d.Yields = false) (halting : Bool) :
    Goes s (leaveLoop s (s.currentThread c) halting rest) c := by
  cases halting with
  | true => exact loop_goes inv is loop rfl (by simp [Frame.core])
  | false => exact end_goes inv is loop

/- The handler of ALARM is called for the core that the thread is on. -/
theorem look_goes {c core : Core} {halting : Bool} {rest : List (Frame Core)} (inv : SliceInv s)
    (is : s.stack (s.currentThread c) = .look core halting :: rest) :
    Goes s (lookUp s (s.currentThread c) core halting rest) c := by
  have home : core = c := inv.home c core (by rw [is]; rfl)
  unfold lookUp
  split
  · have shape := inv.shape (s.currentThread c)
    rw [is] at shape
    refine goes_to rfl rfl (same_mask s _) (shape_call core halting shape rfl rfl rfl) rfl ?_ id ?_
      fun _ => .inr (.inr (.inr (.inr rfl)))
    · simp [Frame.core]
    · exact fun d other => ⟨rfl,id,rfl,Function.update_of_ne (home ▸ other) _ _⟩
  · exact leave_goes inv is rfl halting

theorem mask_same (s : Slices Core) (t : TcbRef Core) : s.mask t (s.enabled t) = s := by
  simp only [Slices.mask, Function.update_eq_self]

/- A thread goes on in yield or gain, with the signal mask that it has. -/
theorem unmasked_goes {c : Core} {f g : Frame Core} {rest : List (Frame Core)} (inv : SliceInv s)
    (is : s.stack (s.currentThread c) = f :: rest) (yields : f.Yields = true)
    (yields' : g.Yields = true) (here : g.Out = false)
    (masked : f.Masked = true → g.Masked = true) (ends : g.WillSet c = true) :
    Goes s (s.goto (s.currentThread c) (g :: rest)) c := by
  have kept (before : f.Masked = true) (off : s.enabled (s.currentThread c) = false) :
      s.enabled (s.currentThread c) = false ∧ g.Masked = true := ⟨off,masked before⟩
  have goes := yield_goes inv is yields yields' here kept ends
  exact mask_same (s.goto (s.currentThread c) (g :: rest)) (s.currentThread c) ▸ goes

theorem step_goes {c : Core} (inv : SliceInv s)
    (run : threadStep s c (s.currentThread c) = some s') : Goes s s' c := by
  unfold threadStep at run
  cases is : s.stack (s.currentThread c) with
  | nil => simp only [is, reduceCtorEq] at run
  | cons f rest =>
    cases f with
    | inside | out | waits => simp only [is, reduceCtorEq] at run
    | cancel =>
      simp only [is, Option.some.injEq] at run
      exact run ▸ unmasked_goes inv is rfl rfl rfl id rfl
    | cancelOf core =>
      simp only [is, Option.some.injEq] at run
      exact run ▸ cancel_goes inv is
    | off =>
      simp only [is, Option.some.injEq] at run
      subst run
      exact yield_goes inv is rfl rfl rfl (fun _ off => ⟨rfl,by simp [Frame.Masked, off]⟩) rfl
    | on preempt =>
      cases preempt <;>
        simp only [is, Bool.false_eq_true, if_false, if_true, Option.some.injEq] at run
      · exact run ▸ unmasked_goes inv is rfl rfl rfl id rfl
      · exact run ▸ yield_goes inv is rfl rfl rfl (fun masked _ => by cases masked) rfl
    | set =>
      simp only [is, Option.some.injEq] at run
      exact run ▸ unmasked_goes inv is rfl rfl rfl id (decide_eq_true rfl)
    | setOf core =>
      simp only [is, Option.some.injEq] at run
      exact run ▸ set_goes inv is
    | ret =>
      simp only [is, Option.some.injEq] at run
      exact run ▸ return_goes inv is
    | look core halting =>
      simp only [is, Option.some.injEq] at run
      exact run ▸ look_goes inv is
    | compare core halting =>
      simp only [is] at run
      split at run <;> rename_i same <;> cases run
      · exact loop_goes inv is rfl rfl fun d there => by cases there; exact same.symm
      · exact leave_goes inv is rfl halting
    | unblock =>
      simp only [is, Option.some.injEq] at run
      exact run ▸ end_goes inv is rfl

/- What is not on the stack of the current thread of core c changes. -/
theorem still_goes {c : Core} (inv : SliceInv s) (current : s'.currentThread = s.currentThread)
    (stack : s'.stack = s.stack) (enabled : s'.enabled = s.enabled) (lost : s'.lost = s.lost)
    (kept : ∀ d, d ≠ c → s'.done d = s.done d ∧
      (s.lost d = true ∨ s.timer d = true → s'.lost d = true ∨ s'.timer d = true) ∧
      s'.expired d = s.expired d ∧ s'.alarm d = s.alarm d)
    (ends : s'.done c = false → s'.expired c = true ∨ s'.alarm c = true) : Goes s s' c where
  current := current
  others t _ := by rw [stack, enabled]; exact ⟨rfl,rfl⟩
  shape := by rw [stack, enabled]; exact inv.shape _
  here := by rw [stack]; exact inv.here c
  home := by rw [stack]; exact inv.home c
  own := by rw [lost]; exact id
  kept := kept
  ends live := .inr (.inr ((ends live).imp id .inl))

theorem expire_goes {c : Core} (inv : SliceInv s) :
    Goes s { s.setTimer c false with expired := Function.update s.expired c true } c := by
  refine still_goes inv rfl rfl rfl rfl (fun d other => ⟨rfl,fun before => ?_,?_,rfl⟩)
    fun _ => .inl (Function.update_self _ _ _)
  · exact before.imp id (Function.update_of_ne other _ _).trans
  · exact Function.update_of_ne other _ _

theorem raise_goes {c : Core} (inv : SliceInv s) :
    Goes s
      { s with
        expired := Function.update s.expired c false
        alarm := Function.update s.alarm c true } c := by
  refine still_goes inv rfl rfl rfl rfl (fun d other => ⟨rfl,id,?_,?_⟩)
    fun _ => .inr (Function.update_self _ _ _)
  · exact Function.update_of_ne other _ _
  · exact Function.update_of_ne other _ _

theorem done_goes {c : Core} (inv : SliceInv s) :
    Goes s { s.setTimer c false with done := Function.update s.done c true } c := by
  refine still_goes inv rfl rfl rfl rfl (fun d other => ⟨?_,fun before => ?_,rfl,rfl⟩)
    fun live => ?_
  · exact Function.update_of_ne other _ _
  · exact before.imp id (Function.update_of_ne other _ _).trans
  · cases (Function.update_self c true s.done).symm.trans live

/- The core goes on with a thread that was switched out. -/
theorem switch_inv {c : Core} {next : TcbRef Core} {preempt preempt' : Bool}
    {rest rest' : List (Frame Core)} (inv : SliceInv s)
    (is : s.stack (s.currentThread c) = .inside preempt :: rest)
    (other : next ≠ s.currentThread c) (is' : s.stack next = .out preempt' :: rest') :
    SliceInv
      { (s.goto (s.currentThread c) (.out preempt :: rest)).goto next (.on preempt' :: rest') with
        currentThread := Function.update s.currentThread c next } := by
  have idle (d : Core) : s.currentThread d ≠ next := by
    intro same
    have here := inv.here d
    rw [same, is'] at here
    cases here
  have left {d : Core} (apart : d ≠ c) :
      Function.update (Function.update s.stack (s.currentThread c) (.out preempt :: rest)) next
        (.on preempt' :: rest') (s.currentThread d) = s.stack (s.currentThread d) := by
    rw [Function.update_of_ne (idle d),
      Function.update_of_ne fun same => apart (inv.apart d c same)]
  constructor
  · intro d e same
    simp only [Function.update_apply] at same
    split at same <;> split at same
    · simp_all
    · exact absurd same.symm (idle e)
    · exact absurd same (idle d)
    · exact inv.apart d e same
  · intro d
    by_cases apart : d = c
    · subst apart
      simp [Slices.goto, Frame.Out]
    · simp only [Slices.goto, Function.update_of_ne apart, left apart]
      exact inv.here d
  · intro t
    by_cases same : t = next
    · subst same
      have shape := inv.shape t
      rw [is'] at shape
      simp only [Slices.goto, Function.update_self]
      exact shape_yield shape rfl rfl fun masked off => ⟨off,masked⟩
    · by_cases same' : t = s.currentThread c
      · subst same'
        have shape := inv.shape (s.currentThread c)
        rw [is] at shape
        simp only [Slices.goto, Function.update_of_ne same, Function.update_self]
        exact shape_yield shape rfl rfl fun masked off => ⟨off,masked⟩
      · simp only [Slices.goto, Function.update_of_ne same, Function.update_of_ne same']
        exact inv.shape t
  · intro d
    by_cases apart : d = c
    · subst apart
      simp [Slices.goto, Frame.core]
    · simp only [Slices.goto, Function.update_of_ne apart, left apart]
      exact inv.home d
  · intro d live
    by_cases apart : d = c
    · subst apart
      simp [Slices.Ends, Slices.goto, Frame.WillSet]
    · have before := inv.ends d live
      simp only [Slices.Ends, Slices.goto, Function.update_of_ne apart, left apart] at before ⊢
      exact before

/- A core does a step of the thread on it, or goes on with another thread. -/
theorem step_kinds {a : Action Core} (inv : SliceInv s) (move : sliceSystem.Step s a s') :
    (∃ c, Goes s s' c) ∨ SliceInv s' ∧ s'.lost = s.lost := by
  obtain ⟨enabled,run⟩ := move
  cases a with
  | expire c => cases run; exact .inl ⟨c,expire_goes inv⟩
  | raise c => cases run; exact .inl ⟨c,raise_goes inv⟩
  | deliver c => cases run; exact .inl ⟨c,deliver_goes inv enabled.2⟩
  | call c => cases run; exact .inl ⟨c,call_goes s c⟩
  | preempt c on => cases run; exact .inl ⟨c,preempt_goes inv on enabled.2⟩
  | halt c => cases run; exact .inl ⟨c,halt_goes inv enabled.2.2⟩
  | signal c got => exact .inl ⟨c,signal_goes inv run⟩
  | leave c => cases run; exact .inl ⟨c,done_goes inv⟩
  | step c => exact .inl ⟨c,step_goes inv run⟩
  | select c next =>
    simp only [sliceSystem, act, switches] at run
    split at run
    · rename_i preempt rest is
      split at run
      · cases run
        exact .inl ⟨c,unmasked_goes inv is rfl rfl rfl id rfl⟩
      · rename_i other
        split at run <;> cases run
        rename_i preempt' rest' is'
        exact .inr ⟨switch_inv inv is other is',rfl⟩
    · cases run

theorem slice_inv : (sliceSystem : Machine (Slices Core) (Action Core)).Inductive SliceInv where
  start s first := by
    subst first
    constructor
    · intro c d same
      cases same
      rfl
    · intro c
      rfl
    · intro t
      cases t <;> exact .yields _ _ rfl
    · intro c core is
      cases is
    · intro c _
      exact .inr (.inr (.inr (.inr rfl)))
  step s a s' inv move := by
    rcases step_kinds inv move with ⟨c,goes⟩ | ⟨inv',_⟩
    · exact goes_inv inv goes
    · exact inv'

/- One core has no other that could cancel its timer. -/
theorem alone_lost [Subsingleton Core] (reach : sliceSystem.Reach s) (c : Core) :
    s.lost c = false := by
  induction reach with
  | start first => cases first; rfl
  | step before move ih =>
    rcases step_kinds (inductive_reach slice_inv before) move with ⟨d,goes⟩ | ⟨_,same⟩
    · cases Subsingleton.elim d c
      by_contra lost
      exact absurd (goes.own (by simpa using lost)) (by simp [ih])
    · exact same ▸ ih

/- The idle thread of a core halts after its first yield. -/
def haltedRun : List (Action Unit) :=
  [.step (),.step (),.step (),.select () (.idle ()),.step (),.step (),.step (),.step (),.halt ()]

def halted : Slices Unit := (sliceSystem.play initial haltedRun).getD initial

theorem halted_reach : sliceSystem.Reach halted := play_reach rfl haltedRun rfl

/-- In all runs, the slice of the thread on each core comes to an end: the core's timer is armed, or
    has gone off and its ALARM is to be raised or pending, or the thread is going to set it, unless
    a bios_cancel_timer on another core has cancelled it since it was set, which does not happen on
    one core. And handlers do not pile up on a stack. -/
theorem slices_end (s : Slices Core) (reach : sliceSystem.Reach s) :
    (∀ c, s.done c = false → s.lost c = true ∨ s.Ends c) ∧
    (Subsingleton Core → ∀ c, s.lost c = false) ∧ ∀ t, (s.stack t).length ≤ 3 := by
  have inv := inductive_reach slice_inv reach
  exact ⟨inv.ends,fun _ c => alone_lost reach c,fun t => shape_length (inv.shape t)⟩

theorem slices_end_halted : halted.stack (.idle ()) = [.waits ()] ∧
    (halted.lost () = true ∨ halted.Ends ()) ∧ halted.lost () = false :=
  have ends := slices_end halted halted_reach
  ⟨rfl,ends.1 () rfl,ends.2.1 inferInstance ()⟩

/- Thread 1, on the core false, is preempted in its yield before timer_settime, and thread 2 is next
   there; on the core true thread 1 goes on. -/
def crossedRun : List (Action Bool) :=
  [.step false,.step false,.step false,.select false (.thread 1),.step false,.step false,
    .step false,.step false,.call false,.step false,.expire false,.raise false,.deliver false,
    .step false,.step false,.step false,.step false,.select false (.thread 2),.step false,
    .step false,.step false,.step false,.step true,.step true,.step true,.select true (.thread 1),
    .step true,.step true,.step true,.step true,.step true,.step true]

def crossed : Slices Bool := (sliceSystem.play initial crossedRun).getD initial

/-- Then thread 2 runs, with preemption on, on a core that nothing is going to interrupt. -/
theorem cancelled_slice_lost : sliceSystem.Reach crossed ∧
    crossed.currentThread false = .thread 2 ∧ crossed.stack (.thread 2) = [] ∧
    crossed.enabled (.thread 2) = true ∧ ¬ crossed.Ends false := by
  refine ⟨play_reach rfl crossedRun rfl,rfl,rfl,rfl,?_⟩
  rintro (timer | expired | alarm | sets)
  · cases timer
  · cases expired
  · cases alarm
  · cases sets

end TimeSlices
