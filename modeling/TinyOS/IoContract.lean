import TinyOS.IoDevice

/- A transfer that fails arms the PIC: an interrupt of the device is raised after it. -/
namespace Bios
open Transition
variable {Thread : Type}

/- No thread is between the failure of a transfer and its clearing of `ready`. -/
def Settled (s : Io Thread) (dev : Device) : Prop :=
  ∀ t, s.caller t ≠ .failed dev ∧ s.caller t ≠ .clearing dev

/- No transfer that has failed is yet to return. -/
def Quiet (s : Io Thread) (dev : Device) : Prop :=
  ∀ t, s.caller t ≠ .failed dev ∧ s.caller t ≠ .clearing dev ∧ s.caller t ≠ .kicking dev

/- The select that comes or goes on has the device. -/
structure Monitored (s : Io Thread) (dev : Device) : Prop where
  adding : ∀ todo, s.pic = .adding todo → dev ∈ todo ∨ s.fds dev = true
  selecting : s.pic = .selecting → s.fds dev = true

/- As Monitored, and the select that has returned has had the device. -/
structure Sure (s : Io Thread) (dev : Device) : Prop extends Monitored s dev where
  draining : s.pic = .draining → s.fds dev = s.seen dev
  checking : ∀ todo, s.pic = .checking todo → dev ∈ todo → s.fds dev = s.seen dev
  raising : ∀ e todo, s.pic = .raising e todo → dev ∈ todo → s.fds dev = s.seen dev

structure IoInv (nterm : Nat) (s : Io Thread) : Prop where
  nodup : ∀ todo, s.pic = .checking todo → todo.Nodup
  nodup' : ∀ dev todo, s.pic = .raising dev todo → todo.Nodup
  cleared : ∀ dev, Settled s dev → s.since dev = false →
    s.ready dev = false ∨ ∃ todo, s.pic = .raising dev todo
  monitored : ∀ dev ∈ addOrder nterm, s.ready dev = false →
    Monitored s dev ∨ s.usr1 = true ∨ ∃ t e, s.caller t = .kicking e
  bounded : ∀ dev ∈ addOrder nterm, Quiet s dev → s.since dev = false →
    s.missed dev ≤ 1 ∧ (s.missed dev = 1 → Sure s dev)
  timely : ∀ dev ∈ addOrder nterm, ∀ todo, s.pic = .checking todo → dev ∉ todo →
    s.clock - s.lastInt dev ≤ serialTimeout
  timely' : ∀ dev ∈ addOrder nterm, ∀ e todo, s.pic = .raising e todo → dev ∉ todo →
    s.clock - s.lastInt dev ≤ serialTimeout

variable {nterm : Nat} {s s' : Io Thread}

theorem mem_order (dev : Device) : dev ∈ checkOrder nterm ↔ dev ∈ addOrder nterm := by
  obtain ⟨term,iodir⟩ := dev
  cases iodir <;> simp [checkOrder, addOrder]

theorem check_order_nodup (nterm : Nat) : (checkOrder nterm).Nodup := by
  refine List.nodup_flatMap.mpr ⟨fun i _ => by simp,?_⟩
  refine List.Pairwise.imp (fun other => ?_) List.nodup_range
  simp [Function.onFun, Ne.symm other]

theorem reset_sure {dev : Device} (member : dev ∈ addOrder nterm) :
    Sure (picReset nterm s) dev := by
  constructor <;> simp [picReset]
  exact ⟨fun todo is => .inl (Pic.adding.inj is ▸ member),fun is => nomatch is⟩

theorem initial_io (possible : Device → Bool) (clock : UInt64) :
    IoInv nterm (initialIo Thread nterm possible clock) := by
  constructor <;> simp [initialIo]
  intro dev member notReady
  exact ⟨fun todo is => .inl (Pic.adding.inj is ▸ member),fun is => nomatch is⟩

/-- Neither the far end of a fifo nor a transfer that succeeds changes what the PIC looks at. -/
theorem possible_io (inv : IoInv nterm s) (possible : Device → Bool) :
    IoInv nterm { s with possible := possible } :=
  { inv with
    monitored := fun dev member notReady => (inv.monitored dev member notReady).imp_left
      fun m => ⟨m.adding,m.selecting⟩
    bounded := fun dev member quiet since => (inv.bounded dev member quiet since).imp_right
      fun sure one => { sure one with } }

theorem away_cleared (inv : IoInv nterm s) (out : ∀ dev todo, s.pic ≠ .raising dev todo)
    {dev : Device} (settled : Settled s dev) (since : s.since dev = false) :
    s.ready dev = false :=
  (inv.cleared dev settled since).resolve_right fun ⟨todo,is⟩ => out dev todo is

theorem quiet_settled {dev : Device} (quiet : Quiet s dev) : Settled s dev :=
  fun t => ⟨(quiet t).1,(quiet t).2.1⟩

theorem reset_io (inv : IoInv nterm s) (out : ∀ dev todo, s.pic ≠ .raising dev todo) :
    IoInv nterm (picReset nterm s) := by
  constructor
  case cleared => exact fun dev settled since => .inl (away_cleared inv out settled since)
  case monitored => exact fun dev member _ => .inl (reset_sure member).toMonitored
  case bounded =>
    exact fun dev member quiet since =>
      ⟨(inv.bounded dev member quiet since).1,fun _ => reset_sure member⟩
  all_goals simp [picReset]

/-- Whether a device is monitored is not a question while the PIC is in none of the two places. -/
theorem busy_monitored {dev : Device} (adding : ∀ todo, s.pic ≠ .adding todo)
    (selecting : s.pic ≠ .selecting) : Monitored s dev :=
  ⟨fun todo is => absurd is (adding todo),fun is => absurd is selecting⟩

theorem select_io (inv : IoInv nterm s) (here : s.pic = .selecting) (clock : UInt64)
    (failed : Bool) : IoInv nterm (picSelect nterm s clock failed) := by
  have out (dev : Device) (todo : List Device) : s.pic ≠ .raising dev todo := by simp [here]
  unfold picSelect
  split
  · exact reset_io inv out
  · constructor
    case cleared => exact fun dev settled since => .inl (away_cleared inv out settled since)
    case monitored => exact fun dev _ _ => .inl (busy_monitored (by simp) (by simp))
    case bounded =>
      intro dev member quiet since
      refine ⟨(inv.bounded dev member quiet since).1,fun one => ?_⟩
      have set := ((inv.bounded dev member quiet since).2 one).selecting here
      exact ⟨busy_monitored (by simp) (by simp),fun _ => by simp [set],by simp,by simp⟩
    all_goals simp

theorem added_io (inv : IoInv nterm s) (here : s.pic = .adding []) :
    IoInv nterm { s with pic := .selecting } := by
  have out (dev : Device) (todo : List Device) : s.pic ≠ .raising dev todo := by simp [here]
  have went {dev : Device} (m : Monitored s dev) : Monitored { s with pic := .selecting } dev :=
    ⟨by simp,fun _ => (m.adding [] here).resolve_left List.not_mem_nil⟩
  constructor
  case cleared => exact fun dev settled since => .inl (away_cleared inv out settled since)
  case monitored =>
    exact fun dev member notReady => (inv.monitored dev member notReady).imp_left went
  case bounded =>
    exact fun dev member quiet since => (inv.bounded dev member quiet since).imp_right
      fun sure one => ⟨went (sure one).toMonitored,by simp,by simp,by simp⟩
  all_goals simp

theorem adding_io (inv : IoInv nterm s) {dev : Device} {todo : List Device}
    (here : s.pic = .adding (dev :: todo)) :
    IoInv nterm { s with
      pic := .adding todo, fds := Function.update s.fds dev (s.fds dev || !s.ready dev) } := by
  have out (d : Device) (todo : List Device) : s.pic ≠ .raising d todo := by simp [here]
  have went {d : Device} (m : Monitored s d) (notReady : s.ready d = false) :
      Monitored { s with
        pic := .adding todo
        fds := Function.update s.fds dev (s.fds dev || !s.ready dev) } d := by
    refine ⟨fun todo' is => ?_,by simp⟩
    cases is
    by_cases same : d = dev
    · subst same
      exact .inr (by simp [notReady])
    · simpa [same] using m.adding _ here
  constructor
  case cleared => exact fun d settled since => .inl (away_cleared inv out settled since)
  case monitored =>
    exact fun d member notReady => (inv.monitored d member notReady).imp_left (went · notReady)
  case bounded =>
    intro d member quiet since
    refine (inv.bounded d member quiet since).imp_right fun sure one => ?_
    have notReady := away_cleared inv out (quiet_settled quiet) since
    exact ⟨went (sure one).toMonitored notReady,by simp,by simp,by simp⟩
  all_goals simp

theorem drained_io (inv : IoInv nterm s) (here : s.pic = .draining) :
    IoInv nterm { s with pic := .checking (checkOrder nterm), usr1 := false } := by
  have out (dev : Device) (todo : List Device) : s.pic ≠ .raising dev todo := by simp [here]
  constructor
  case nodup =>
    intro todo is
    cases is
    exact check_order_nodup nterm
  case cleared => exact fun dev settled since => .inl (away_cleared inv out settled since)
  case monitored => exact fun dev _ _ => .inl (busy_monitored (by simp) (by simp))
  case bounded =>
    exact fun dev member quiet since => (inv.bounded dev member quiet since).imp_right
      fun sure one => ⟨busy_monitored (by simp) (by simp),by simp,
        fun _ _ _ => (sure one).draining here,by simp⟩
  case timely =>
    intro dev member todo is outside
    cases is
    exact absurd ((mem_order dev).mpr member) outside
  all_goals simp

theorem check_io (inv : IoInv nterm s) {dev : Device} {todo : List Device}
    (here : s.pic = .checking (dev :: todo)) : IoInv nterm (termDevCheck s dev todo) := by
  have out (d : Device) (todo : List Device) : s.pic ≠ .raising d todo := by simp [here]
  have distinct := List.nodup_cons.mp (inv.nodup _ here)
  unfold termDevCheck
  split
  · constructor
    case nodup' =>
      intro d todo' is
      cases is
      exact distinct.2
    case cleared =>
      intro d settled since
      by_cases same : d = dev
      · exact .inr ⟨todo,by rw [same]⟩
      · exact .inl (by simpa [same] using away_cleared inv out settled since)
    case monitored => exact fun d _ _ => .inl (busy_monitored (by simp) (by simp))
    case bounded =>
      refine fun d member quiet since => (inv.bounded d member quiet since).imp_right
        fun sure one => ⟨busy_monitored (by simp) (by simp),by simp,by simp,?_⟩
      intro e todo' is inside
      cases is
      exact (sure one).checking _ here (List.mem_cons_of_mem _ inside)
    case timely' =>
      intro d member e todo' is outside
      cases is
      by_cases same : d = dev
      · subst same
        simp
      · simpa [same] using inv.timely d member _ here (by simp [same, outside])
    all_goals simp
  · rename_i neither
    obtain ⟨notSet,inTime⟩ := not_or.mp neither
    constructor
    case nodup =>
      intro todo' is
      cases is
      exact distinct.2
    case cleared => exact fun d settled since => .inl (away_cleared inv out settled since)
    case monitored => exact fun d _ _ => .inl (busy_monitored (by simp) (by simp))
    case bounded =>
      intro d member quiet since
      obtain ⟨few,sure⟩ := inv.bounded d member quiet since
      by_cases same : d = dev
      · subst same
        refine ⟨?_,fun _ => ⟨busy_monitored (by simp) (by simp),by simp,?_,by simp⟩⟩
        · -- A second round that misses it would have had it in its select.
          simp only [Function.update_self]
          by_cases one : s.missed d = 1
          · have set := (sure one).checking _ here List.mem_cons_self
            have unseen : s.seen d = false := by simpa [set] using notSet
            simp [unseen, one]
          · split <;> omega
        · intro todo' is inside
          cases is
          exact absurd inside distinct.1
      · simp only [Function.update_of_ne same]
        refine ⟨few,fun one => ⟨busy_monitored (by simp) (by simp),by simp,?_,by simp⟩⟩
        intro todo' is inside
        cases is
        exact (sure one).checking _ here (List.mem_cons_of_mem _ inside)
    case timely =>
      intro d member todo' is outside
      cases is
      by_cases same : d = dev
      · subst same
        exact UInt64.not_lt.mp inTime
      · exact inv.timely d member _ here (by simp [same, outside])
    all_goals simp

theorem raise_io (inv : IoInv nterm s) {dev : Device} {todo : List Device}
    (here : s.pic = .raising dev todo) :
    IoInv nterm { s with
      pic := .checking todo
      since := Function.update s.since dev true
      missed := Function.update s.missed dev 0 } := by
  have other {d : Device} (since : Function.update s.since dev true d = false) :
      d ≠ dev ∧ s.since d = false := by
    by_cases same : d = dev
    · simp [same] at since
    · exact ⟨same,by simpa [same] using since⟩
  constructor
  case nodup =>
    intro todo' is
    cases is
    exact inv.nodup' _ _ here
  case cleared =>
    intro d settled since
    obtain ⟨away,since⟩ := other since
    refine .inl ((inv.cleared d settled since).resolve_right ?_)
    rintro ⟨todo',is⟩
    rw [here] at is
    cases is
    exact away rfl
  case monitored => exact fun d _ _ => .inl (busy_monitored (by simp) (by simp))
  case bounded =>
    intro d member quiet since
    obtain ⟨away,since⟩ := other since
    simp only [Function.update_of_ne away]
    refine (inv.bounded d member quiet since).imp_right fun sure one =>
      ⟨busy_monitored (by simp) (by simp),by simp,?_,by simp⟩
    intro todo' is inside
    cases is
    exact (sure one).raising _ _ here inside
  case timely =>
    intro d member todo' is outside
    cases is
    exact inv.timely' d member _ _ here outside
  all_goals simp

theorem pic_io (inv : IoInv nterm s) : IoInv nterm (picStep nterm s) := by
  unfold picStep
  split
  · exact added_io inv (by assumption)
  · exact adding_io inv (by assumption)
  · exact inv
  · exact drained_io inv (by assumption)
  · rename_i here
    exact reset_io inv fun dev todo is => by simp [here] at is
  · exact check_io inv (by assumption)
  · exact raise_io inv (by assumption)

variable [DecidableEq Thread]

theorem back_settled {t : Thread} {caller : Caller} {dev : Device}
    (settled : Settled (s.goto t caller) dev)
    (here : s.caller t ≠ .failed dev ∧ s.caller t ≠ .clearing dev) : Settled s dev := by
  intro u
  by_cases same : u = t
  · exact same ▸ here
  · simpa [Io.goto, same] using settled u

theorem back_quiet {t : Thread} {caller : Caller} {dev : Device}
    (quiet : Quiet (s.goto t caller) dev)
    (here : s.caller t ≠ .failed dev ∧ s.caller t ≠ .clearing dev ∧ s.caller t ≠ .kicking dev) :
    Quiet s dev := by
  intro u
  by_cases same : u = t
  · exact same ▸ here
  · simpa [Io.goto, same] using quiet u

theorem kicking_kept {t : Thread} {caller : Caller} (here : ∀ e, s.caller t ≠ .kicking e)
    (kicks : ∃ t e, s.caller t = .kicking e) : ∃ u e, (s.goto t caller).caller u = .kicking e := by
  obtain ⟨u,e,is⟩ := kicks
  refine ⟨u,e,?_⟩
  by_cases same : u = t
  · exact absurd (same ▸ is) (here e)
  · simpa [Io.goto, same] using is

theorem fail_io (inv : IoInv nterm s) {t : Thread} {dev : Device} (here : s.caller t = .outside) :
    IoInv nterm (ioFail s t dev) := by
  have other {d : Device} (away : (ioFail s t dev).caller t ≠ .failed d) : d ≠ dev := by
    rintro rfl
    exact away (by simp [ioFail, Io.goto])
  refine { inv with cleared := ?cleared, monitored := ?monitored, bounded := ?bounded }
  case cleared =>
    intro d settled since
    have away := other (settled t).1
    exact inv.cleared d (back_settled settled (by simp [here]))
      (by simpa [ioFail, away] using since)
  case monitored =>
    intro d member notReady
    exact (inv.monitored d member notReady).imp (fun m => ⟨m.adding,m.selecting⟩)
      (·.imp_right (kicking_kept (by simp [here])))
  case bounded =>
    intro d member quiet since
    have away := other (quiet t).1
    exact (inv.bounded d member (back_quiet quiet (by simp [here]))
      (by simpa [ioFail, away] using since)).imp_right fun sure one => { sure one with }

theorem return_io (inv : IoInv nterm s) {t : Thread} {dev : Device}
    (here : s.caller t = .failed dev ∧ s.ready dev = false ∨ s.caller t = .kicking dev)
    (usr1 : Bool) (kicked : s.usr1 = true ∨ s.caller t = .kicking dev → usr1 = true) :
    IoInv nterm { ioReturn s t dev with usr1 := usr1 } := by
  refine { inv with cleared := ?cleared, monitored := ?monitored, bounded := ?bounded }
  case cleared =>
    intro d settled since
    by_cases same : d = dev ∧ s.ready dev = false
    · exact .inl (same.1 ▸ same.2)
    · refine inv.cleared d (back_settled settled ?_) since
      rcases here with ⟨is,notReady⟩ | is
      · have away : d ≠ dev := fun eq => same ⟨eq,notReady⟩
        simp [is, Ne.symm away]
      · simp [is]
  case monitored =>
    intro d member notReady
    rcases inv.monitored d member notReady with m | pending | kicks
    · exact .inl ⟨m.adding,m.selecting⟩
    · exact .inr (.inl (kicked (.inl pending)))
    · by_cases is : s.caller t = .kicking dev
      · exact .inr (.inl (kicked (.inr is)))
      · refine .inr (.inr (kicking_kept (s := s) (fun e is' => ?_) kicks))
        rcases here with at' | at'
        · rw [at'.1] at is'
          cases is'
        · exact is at'
  case bounded =>
    intro d member quiet since
    by_cases same : d = dev
    · subst same
      simp [ioReturn]
    · have quiet' : Quiet s d := back_quiet quiet (by
        rcases here with at' | at'
        · simp [at'.1, Ne.symm same]
        · simp [at', Ne.symm same])
      simp only [ioReturn, Io.goto, Function.update_of_ne same]
      exact (inv.bounded d member quiet' since).imp_right fun sure one => { sure one with }

theorem caller_io (inv : IoInv nterm s) {t : Thread} : IoInv nterm (callerStep s t) := by
  unfold callerStep
  split
  · exact inv
  · rename_i dev here
    split
    · refine { inv with cleared := ?cleared, monitored := ?monitored, bounded := ?bounded }
      case cleared =>
        intro d settled since
        have away : dev ≠ d := by
          rintro rfl
          exact (settled t).2 (by simp [Io.goto])
        exact inv.cleared d (back_settled settled (by simp [here, away])) since
      case monitored =>
        exact fun d member notReady => (inv.monitored d member notReady).imp
          (fun m => ⟨m.adding,m.selecting⟩) (·.imp_right (kicking_kept (by simp [here])))
      case bounded =>
        intro d member quiet since
        have away : dev ≠ d := by
          rintro rfl
          exact (quiet t).2.1 (by simp [Io.goto])
        exact (inv.bounded d member (back_quiet quiet (by simp [here, away])) since).imp_right
          fun sure one => { sure one with }
    · rename_i notReady
      exact return_io inv (.inl ⟨here,by simpa using notReady⟩) s.usr1 (by simp [here])
  · rename_i dev here
    refine { inv with cleared := ?cleared, monitored := ?monitored, bounded := ?bounded }
    case cleared =>
      intro d settled since
      by_cases same : d = dev
      · exact .inl (by simp [same])
      · simp only [Function.update_of_ne same]
        exact inv.cleared d (back_settled settled (by simp [here, Ne.symm same])) since
    case monitored => exact fun d _ _ => .inr (.inr ⟨t,dev,by simp [Io.goto]⟩)
    case bounded =>
      intro d member quiet since
      have away : dev ≠ d := by
        rintro rfl
        exact (quiet t).2.2 (by simp [Io.goto])
      exact (inv.bounded d member (back_quiet quiet (by simp [here, away])) since).imp_right
        fun sure one => { sure one with }
  · rename_i dev here
    exact return_io inv (.inr here) true fun _ => rfl

theorem io_inductive : (ioSystem Thread nterm).Inductive (IoInv nterm) where
  start s first := by
    obtain ⟨possible,clock,rfl⟩ := first
    exact initial_io possible clock
  step s a s' inv move := by
    obtain ⟨enabled,run⟩ := move
    cases a <;> simp only [ioSystem, ioAct, Option.some.injEq] at run <;> subst run
    case arrive dev => exact possible_io inv _
    case transfer t dev more => exact possible_io inv _
    case fail t dev => exact fail_io inv enabled.1
    case caller t => exact caller_io inv
    case select clock failed => exact select_io inv enabled clock failed
    case pic => exact pic_io inv

theorem mem_add_order {dev : Device} (known : dev.term < nterm) : dev ∈ addOrder nterm := by
  obtain ⟨term,iodir⟩ := dev
  cases iodir <;> simpa [addOrder] using known

/-- A transfer that has failed is followed by an interrupt: until it is raised, the device is not
    ready or the interrupt is about to be raised, a device that is not ready is in the selector or
    the PIC is on its way to put it there, and at most one round of the PIC that has found the
    device ready passes it by. No round leaves the last interrupt of a device further back than the
    timeout. -/
theorem failed_transfer_interrupts (reach : (ioSystem Thread nterm).Reach s) {dev : Device}
    (known : dev.term < nterm) :
    (Quiet s dev → s.since dev = false →
      (s.ready dev = false ∨ ∃ todo, s.pic = .raising dev todo) ∧ s.missed dev ≤ 1) ∧
    (s.ready dev = false → Monitored s dev ∨ s.usr1 = true ∨ ∃ t e, s.caller t = .kicking e) ∧
    ∀ todo, s.pic = .checking todo → dev ∉ todo → s.clock - s.lastInt dev ≤ serialTimeout := by
  have inv := inductive_reach io_inductive reach
  have member := mem_add_order known
  refine ⟨fun quiet since => ⟨?_,?_⟩,inv.monitored dev member,inv.timely dev member⟩
  · exact inv.cleared dev (quiet_settled quiet) since
  · exact (inv.bounded dev member quiet since).1

/- Thread 0 reads the one byte there is and fails at the next. -/
def failedRead : List (IoAction Nat) :=
  [.pic, .pic, .pic, .transfer 0 ⟨0,.rx⟩ false, .fail 0 ⟨0,.rx⟩, .caller 0, .caller 0, .caller 0,
    .arrive ⟨0,.rx⟩, .select 0 false]

theorem failed_transfer_interrupts_missed : ∃ s : Io Nat, (ioSystem Nat 1).Reach s ∧
    s.seen ⟨0,.rx⟩ = true ∧ s.fds ⟨0,.rx⟩ = false ∧ s.ready ⟨0,.rx⟩ = false ∧
      (Monitored s ⟨0,.rx⟩ ∨ s.usr1 = true ∨ ∃ t e, s.caller t = .kicking e) := by
  have reach := play_reach (m := ioSystem Nat 1) ⟨fun _ => true,0,rfl⟩ failedRead rfl
  exact ⟨_,reach,rfl,rfl,rfl,(failed_transfer_interrupts reach (by decide)).2.1 rfl⟩

end Bios
