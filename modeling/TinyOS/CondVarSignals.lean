import TinyOS.CondVarInvariant

/- What Cond_Signal and Cond_Broadcast have done when they release waitset_lock. -/
namespace KernelCC
open ResourceList Rings Transition
variable {Thread : Type}

/- Between the Mutex_Lock and the Mutex_Unlock of Cond_Signal or Cond_Broadcast. -/
def Pc.InSection : Pc Thread → Bool
  | .whileAny | .whileWaiter _ | .takeOut _ _ | .setRemoved _ _ | .wakeup _ _ | .setSignalled _ _
  | .signalUnlock _ => true
  | .outside | .waitLock | .push | .unlockMutex | .sleep | .asleep | .wakeLock | .tidy | .unlock
  | .lockMutex | .return' | .signalLock _ => false

/- The waiter out of the ring that cv_signal is about to wake up or to mark. -/
def Pc.hand : Pc Thread → List Thread
  | .setRemoved _ w | .wakeup _ w | .setSignalled _ w => [w]
  | _ => []

/- A Cond_Signal that has marked no waiter yet. -/
def Pc.Seeks : Pc Thread → Bool
  | .whileWaiter all | .takeOut all _ | .setRemoved all _ | .wakeup all _ | .setSignalled all _ =>
    !all
  | _ => false

/- Not yet back in the section of its cv_wait after its sleep, and what ended that. -/
def CondVar.Signalled (s : CondVar Thread) (u : Thread) : Prop :=
  (s.pc u).Away = true ∧ s.stopped u = false ∧ s.signalled u = true ∧ s.cause u = some .signal

def CondVar.TimedOut (s : CondVar Thread) (u : Thread) : Prop :=
  (s.pc u).Away = true ∧ s.stopped u = false ∧ s.signalled u = false ∧ s.cause u = some .timeout

def Settled (s : CondVar Thread) (u : Thread) : Prop :=
  u ∈ s.marked ∧ s.Signalled u ∨ s.TimedOut u

/- Both last until the owner of waitset_lock releases it. -/
def Keeps (s s' : CondVar Thread) : Prop :=
  ∀ u, (s.Signalled u → s'.Signalled u) ∧ (s.TimedOut u → s'.TimedOut u)

structure Progress (s : CondVar Thread) (pc : Pc Thread) : Prop where
  distinct : s.entered.Nodup
  order : pc.hand ++ s.queue <:+ s.entered
  past : ∀ u ∈ s.entered, u ∈ pc.hand ++ s.queue ∨ Settled s u
  seeks : pc.Seeks = true → s.marked = []
  signal : pc = .signalUnlock false →
    s.marked = [] ∧ s.queue = [] ∨
      ∃ w, s.marked = [w] ∧ s.Signalled w ∧ w :: s.queue <:+ s.entered
  broadcast : pc = .signalUnlock true → s.queue = []

def Progressing (s : CondVar Thread) : Prop :=
  ∀ c, (s.pc c).InSection = true → Progress s (s.pc c)

variable {s s' : CondVar Thread} {t : Thread}

theorem section_owner (inv : Inv s) {c : Thread} (inside : (s.pc c).InSection = true) :
    s.waitsetLock = some c := by
  refine (inv.lock c).mp ?_
  revert inside
  cases s.pc c <;> simp [Pc.InSection, Pc.Owns]

/-- Nobody is in the section. -/
theorem idle_progressing (inv : Inv s) (idle : ∀ c, s.waitsetLock = some c →
    (s.pc c).InSection = false) : Progressing s := by
  intro c inside
  rw [idle c (section_owner inv inside)] at inside
  cases inside

theorem waiter_progressing (inv : Inv s) (owner : s.waitsetLock = some t)
    (outside : (s.pc t).InSection = false) : Progressing s := by
  refine idle_progressing inv fun c same => ?_
  cases owner.symm.trans same
  exact outside

theorem owner_progressing (inv : Inv s) (owner : s.waitsetLock = some t) {pc : Pc Thread}
    (here : s.pc t = pc) (progress : Progress s pc) : Progressing s := by
  intro c inside
  cases owner.symm.trans (section_owner inv inside)
  exact here ▸ progress

/-- The owner goes on with the same waiter in hand. -/
theorem keep_progress {pc pc' : Pc Thread} (progress : Progress s pc) (hand : pc'.hand = pc.hand)
    (seeks : pc'.Seeks = true → pc.Seeks = true)
    (signal : pc' = .signalUnlock false → s.marked = [] ∧ s.queue = [])
    (broadcast : pc' = .signalUnlock true → s.queue = []) : Progress s pc' where
  distinct := progress.distinct
  order := hand ▸ progress.order
  past := hand ▸ progress.past
  seeks same := progress.seeks (seeks same)
  signal same := .inl (signal same)
  broadcast := broadcast

theorem stay_progress {pc pc' : Pc Thread} (progress : Progress s pc) (hand : pc'.hand = pc.hand)
    (seeks : pc'.Seeks = pc.Seeks) (stays : ∀ all, pc' ≠ .signalUnlock all) : Progress s pc' :=
  keep_progress progress hand (fun same => seeks ▸ same) (fun last => absurd last (stays false))
    fun last => absurd last (stays true)

theorem mono_progress {pc : Pc Thread} (progress : Progress s pc) (queue : s'.queue = s.queue)
    (entered : s'.entered = s.entered) (marked : s'.marked = s.marked) (keeps : Keeps s s') :
    Progress s' pc := by
  obtain ⟨distinct,order,past,seeks,signal,broadcast⟩ := progress
  rw [← entered] at distinct order past signal
  rw [← queue] at order past signal broadcast
  rw [← marked] at seeks signal
  refine ⟨distinct,order,fun u member => ?_,seeks,fun here => ?_,broadcast⟩
  · exact (past u member).imp_right
      (Or.imp (fun done => ⟨marked ▸ done.1,(keeps u).1 done.2⟩) (keeps u).2)
  · refine (signal here).imp_right ?_
    rintro ⟨w,single,done,rest⟩
    exact ⟨w,single,(keeps w).1 done,rest⟩

theorem awake_of_cause (inv : Inv s) {u : Thread} (away : (s.pc u).Away = true)
    (cause : s.cause u ≠ none) : s.stopped u = false := by
  have asleep := inv.asleep u
  have late := inv.late u
  cases at' : s.pc u with
  | asleep => simpa [cause] using asleep at'
  | wakeLock => exact (late (by rw [at']; rfl)).1
  | _ =>
    rw [at'] at away
    cases away

theorem cause_of_awake (inv : Inv s) {u : Thread} (away : (s.pc u).Away = true)
    (ready : s.stopped u = false) : s.cause u ≠ none := by
  have asleep := inv.asleep u
  have late := inv.late u
  cases at' : s.pc u with
  | asleep => exact fun none => by simpa [ready] using (asleep at').mpr none
  | wakeLock => exact (late (by rw [at']; rfl)).2
  | _ =>
    rw [at'] at away
    cases away

theorem stays_of_back {pc pc' : Pc Thread} (back : pc.Away = false) (away : pc.Away = true) :
    pc'.Away = true := absurd (back.symm.trans away) Bool.false_ne_true

theorem in_section (progressing : Progressing s) {pc : Pc Thread} (here : s.pc t = pc)
    (inside : pc.InSection = true) : Progress s pc :=
  here ▸ progressing t (by rw [here]; exact inside)

theorem empty_of_null (inv : Inv s) (null : s.waitset = none) : s.queue = [] := by
  have head := inv.waitset.head
  rw [null] at head
  exact List.head?_eq_none_iff.mp head.symm

theorem initial_progressing : Progressing (initial : CondVar Thread) := nofun

/- A cv_wait has returned 1 exactly when a signal ended its sleep. -/
def Truthful (s : CondVar Thread) : Prop :=
  ∀ r ∈ s.returned, r.2.1 = true ↔ r.2.2 = some .signal

theorem told_of_done (inv : Inv s) (here : s.pc t = .return') :
    s.signalled t = true ↔ s.cause t = some .signal := by
  have waits : (s.pc t).Waits = true := by rw [here]; rfl
  refine ⟨fun signalled => (inv.honest t waits signalled).2,fun cause => ?_⟩
  refine (inv.told t waits cause).resolve_right ?_
  rintro ⟨c,all,at'⟩
  have away := (inv.signals c all t at').1
  rw [here] at away
  cases away

/- A Cond_Signal has marked the first of the waiters it found that had not timed out, if any. -/
def SignalsFirst (s : CondVar Thread) : Prop :=
  (∃ before w, s.entered = before ++ w :: s.queue ∧ s.marked = [w] ∧ s.Signalled w ∧
    (∀ u ∈ before, s.TimedOut u) ∧ ∀ u ∈ s.queue, s.signalled u = false) ∨
  s.marked = [] ∧ s.queue = [] ∧ ∀ u ∈ s.entered, s.TimedOut u

/- A Cond_Broadcast has marked all of the waiters it found that had not timed out. -/
def SignalsAll (s : CondVar Thread) : Prop :=
  s.queue = [] ∧ ∀ u ∈ s.entered, u ∈ s.marked ∧ s.Signalled u ∨ s.TimedOut u

theorem signals_first (inv : Inv s) (progress : Progress s (.signalUnlock false)) :
    SignalsFirst s := by
  obtain ⟨distinct,_,past,_,signal,_⟩ := progress
  rcases signal rfl with ⟨unmarked,empty⟩ | ⟨w,marked,done,before,same⟩
  · refine .inr ⟨unmarked,empty,fun u member => ?_⟩
    rcases past u member with left | ⟨mark,_⟩ | late
    · rw [empty] at left
      cases left
    · rw [unmarked] at mark
      cases mark
    · exact late
  · refine .inl ⟨before,w,same.symm,marked,done,fun u member => ?_,fun u => queue_unsignalled inv⟩
    rw [← same] at distinct past
    have apart := List.disjoint_of_nodup_append distinct member
    rcases past u (List.mem_append_left _ member) with left | ⟨mark,_⟩ | late
    · exact absurd (List.mem_cons_of_mem w left) apart
    · rw [marked, List.mem_singleton] at mark
      exact absurd (mark ▸ List.mem_cons_self) apart
    · exact late

theorem signals_all (progress : Progress s (.signalUnlock true)) : SignalsAll s := by
  have empty := progress.broadcast rfl
  refine ⟨empty,fun u member => (progress.past u member).resolve_left fun left => ?_⟩
  rw [empty] at left
  cases left

/-- A waiter in the hand whose thread is not STOPPED has timed out. -/
theorem fail_progress (inv : Inv s) {all : Bool} {w : Thread} (here : s.pc t = .wakeup all w)
    (ready : s.stopped w = false) (progress : Progress s (.wakeup all w)) :
    Progress s (.whileWaiter all) := by
  obtain ⟨distinct,order,past,seeks,_,_⟩ := progress
  obtain ⟨away,_,unsignalled,cause⟩ := inv.wakes t all w here
  have late : s.TimedOut w := by
    refine ⟨away,ready,unsignalled,?_⟩
    have woken := cause_of_awake inv away ready
    cases why : s.cause w with
    | none => exact absurd why woken
    | some cause' =>
      cases cause' with
      | signal => exact absurd why cause
      | timeout => rfl
  refine ⟨distinct,(List.suffix_cons w _).trans order,fun u member => ?_,seeks,by simp,by simp⟩
  rcases past u member with left | settled
  · rcases List.mem_cons.mp left with rfl | left
    · exact .inr (.inr late)
    · exact .inl left
  · exact .inr settled

variable [DecidableEq Thread]

theorem goes_keeps {pc : Pc Thread} (goes : s'.pc = Function.update s.pc t pc)
    (stays : (s.pc t).Away = true → pc.Away = true)
    (flags : ∀ u, (s.pc u).Away = true → s.stopped u = false → s'.stopped u = false ∧
      s'.signalled u = s.signalled u ∧ s'.cause u = s.cause u) : Keeps s s' := by
  intro u
  have still (away : (s.pc u).Away = true) : (s'.pc u).Away = true := by
    rw [goes]
    by_cases same : u = t
    · subst same
      simpa using stays away
    · simpa [same] using away
  constructor <;> rintro ⟨away,ready,signalled,cause⟩
  all_goals
    obtain ⟨ready',signalled',cause'⟩ := flags u away ready
    exact ⟨still away,ready',signalled'.trans signalled,cause'.trans cause⟩

theorem goto_keeps {pc : Pc Thread} (stays : (s.pc t).Away = true → pc.Away = true) :
    Keeps s (s.goto t pc) := goes_keeps rfl stays fun _ _ ready => ⟨ready,rfl,rfl⟩

/-- A step of a thread that has no part in what the owner of waitset_lock does. -/
theorem aside_progressing {pc : Pc Thread} (progressing : Progressing s)
    (outside : pc.InSection = false) (goes : s'.pc = Function.update s.pc t pc)
    (queue : s'.queue = s.queue) (entered : s'.entered = s.entered)
    (marked : s'.marked = s.marked) (keeps : Keeps s s') : Progressing s' := by
  intro c inside
  have other : c ≠ t := by
    intro same
    rw [same, goes, Function.update_self, outside] at inside
    cases inside
  rw [goes, Function.update_of_ne other] at inside ⊢
  exact mono_progress (progressing c inside) queue entered marked keeps

/-- The first waiter of the ring goes into the hand. -/
theorem take_progress (inv : Inv s) {all : Bool} {w : Thread} (here : s.pc t = .takeOut all w)
    (progress : Progress s (.takeOut all w)) (nodes : Heap Thread Unit) (waitset : Option Thread) :
    Progress { s.goto t (.setRemoved all w) with
      nodes := nodes, waitset := waitset, queue := s.queue.erase w } (.setRemoved all w) := by
  obtain ⟨distinct,order,past,seeks,_,_⟩ := progress
  obtain ⟨rest,same⟩ := List.head?_eq_some_iff.mp (takes_head inv here)
  have erased : w :: s.queue.erase w = s.queue := by rw [same, List.erase_cons_head]
  have order' : w :: s.queue.erase w <:+ s.entered := by rwa [erased]
  have first (u : Thread) (left : u ∈ s.queue) : u ∈ w :: s.queue.erase w := by rwa [erased]
  have keeps : Keeps s (s.goto t (.setRemoved all w)) :=
    goto_keeps (stays_of_back (by rw [here]; rfl))
  refine ⟨distinct,order',fun u member => ?_,seeks,by simp,by simp⟩
  exact (past u member).imp (first u) (Or.imp (And.imp_right (keeps u).1) (keeps u).2)

theorem mark_progress (inv : Inv s) {all : Bool} {w : Thread}
    (here : s.pc t = .setSignalled all w) (progress : Progress s (.setSignalled all w))
    {pc : Pc Thread} (next : pc = if all then .whileAny else .signalUnlock all)
    (same : s' = { s.goto t pc with
      signalled := Function.update s.signalled w true, marked := s.marked ++ [w] }) :
    Progress s' pc := by
  obtain ⟨distinct,order,past,seeks,_,_⟩ := progress
  obtain ⟨away,_,cause⟩ := inv.signals t all w here
  have ready := awake_of_cause inv away (by simp [cause])
  have goes : Keeps s (s.goto t pc) := goto_keeps (stays_of_back (by rw [here]; rfl))
  have done : s'.Signalled w := by
    have apart : w ≠ t := by
      rintro rfl
      rw [here] at away
      cases away
    subst same
    refine ⟨?_,ready,Function.update_self ..,cause⟩
    simpa [CondVar.goto, apart] using away
  have keeps : Keeps s s' := by
    intro u
    by_cases is : u = w
    · subst is
      refine ⟨fun _ => done,fun late => ?_⟩
      have := cause.symm.trans late.2.2.2
      cases this
    · have others : Function.update s.signalled w true u = s.signalled u :=
        Function.update_of_ne is ..
      subst same
      simpa only [CondVar.Signalled, CondVar.TimedOut, CondVar.goto, others] using goes u
  have marked : s'.marked = s.marked ++ [w] := by rw [same]
  have queue : s'.queue = s.queue := by rw [same]; rfl
  have entered : s'.entered = s.entered := by rw [same]; rfl
  have hand : pc.hand = [] := by cases all <;> rw [next] <;> rfl
  refine ⟨entered ▸ distinct,?_,fun u member => ?_,?_,fun last => ?_,?_⟩
  · rw [hand, queue, entered]
    exact (List.suffix_cons w _).trans order
  · rw [hand, queue]
    rcases past u (entered ▸ member) with left | ⟨mark,old⟩ | late
    · rcases List.mem_cons.mp left with rfl | left
      · exact .inr (.inl ⟨by simp [marked],done⟩)
      · exact .inl left
    · exact .inr (.inl ⟨by simp [marked, mark],(keeps u).1 old⟩)
    · exact .inr (.inr ((keeps u).2 late))
  · cases all <;> simp [next, Pc.Seeks]
  · cases all with
    | false => exact .inr ⟨w,by rw [marked, seeks rfl]; rfl,done,by rwa [queue, entered]⟩
    | true => exact absurd (next.symm.trans last) (by simp)
  · cases all <;> simp [next]

theorem did_progressing (inv : Inv s) (inv' : Inv s') (progressing : Progressing s)
    (did : Did s t s') : Progressing s' := by
  have goes (pc : Pc Thread) : (s.goto t pc).pc t = pc := Function.update_self ..
  have owner (owns : (s.pc t).Owns = true) : s.waitsetLock = some t := (inv.lock t).mp owns
  cases did with
  | waitLock here free => exact waiter_progressing inv' rfl (congrArg Pc.InSection (goes _))
  | push here nodes waitset ok =>
    exact waiter_progressing inv' (owner (by rw [here]; rfl)) (congrArg Pc.InSection (goes _))
  | unlockMutex here =>
    exact waiter_progressing inv' (owner (by rw [here]; rfl)) (congrArg Pc.InSection (goes _))
  | sleep here => exact idle_progressing inv' (by simp)
  | asleep here ready =>
    exact aside_progressing progressing rfl rfl rfl rfl rfl (goto_keeps fun _ => rfl)
  | wakeLock here free => exact waiter_progressing inv' rfl (congrArg Pc.InSection (goes _))
  | tidy here removed =>
    exact waiter_progressing inv' (owner (by rw [here]; rfl)) (congrArg Pc.InSection (goes _))
  | leave here left nodes waitset ok =>
    exact waiter_progressing inv' (owner (by rw [here]; rfl)) (congrArg Pc.InSection (goes _))
  | unlock here => exact idle_progressing inv' (by simp)
  | lockMutex here =>
    exact aside_progressing progressing rfl rfl rfl rfl rfl
      (goto_keeps (stays_of_back (by rw [here]; rfl)))
  | return' here =>
    exact aside_progressing progressing rfl rfl rfl rfl rfl
      (goes_keeps rfl (stays_of_back (by rw [here]; rfl)) fun _ _ ready => ⟨ready,rfl,rfl⟩)
  | signalLock all here free =>
    refine owner_progressing inv' rfl (goes _) ⟨queue_nodup inv.waitset,?_,?_,fun _ => rfl,?_,?_⟩
    · cases all <;> exact List.suffix_refl _
    · cases all <;> exact fun u member => .inl member
    all_goals cases all <;> simp
  | whileAny here =>
    have progress := in_section progressing here rfl
    refine owner_progressing inv' (owner (by rw [here]; rfl)) (goes _) (mono_progress
      (keep_progress progress ?_ ?_ ?_ ?_) rfl rfl rfl
      (goto_keeps (stays_of_back (by rw [here]; rfl))))
    · split <;> rfl
    · split <;> simp [Pc.Seeks]
    · split <;> simp
    · intro last
      split at last
      · cases last
      · rename_i null
        exact empty_of_null inv (Option.not_isSome_iff_eq_none.mp null)
  | whileWaiter all w here first =>
    have progress : Progress s (.takeOut all w) :=
      stay_progress (in_section progressing here rfl) rfl rfl (by simp)
    exact owner_progressing inv' (owner (by rw [here]; rfl)) (goes _) (mono_progress progress
      rfl rfl rfl (goto_keeps (stays_of_back (by rw [here]; rfl))))
  | whileDone all here null =>
    have progress := in_section progressing here rfl
    have empty := empty_of_null inv null
    refine owner_progressing inv' (owner (by rw [here]; rfl)) (goes _) (mono_progress
      (keep_progress progress ?_ ?_ ?_ fun _ => empty) rfl rfl rfl
      (goto_keeps (stays_of_back (by rw [here]; rfl))))
    · cases all <;> rfl
    · cases all <;> simp [Pc.Seeks]
    · cases all with
      | false => exact fun _ => ⟨progress.seeks rfl,empty⟩
      | true => simp
  | takeOut all w here nodes waitset ok =>
    have progress := in_section progressing here rfl
    exact owner_progressing inv' (owner (by rw [here]; rfl)) (goes _)
      (take_progress inv here progress nodes waitset)
  | setRemoved all w here =>
    have progress : Progress s (.wakeup all w) :=
      stay_progress (in_section progressing here rfl) rfl rfl (by simp)
    have keeps : Keeps s
        { s.goto t (.wakeup all w) with removed := Function.update s.removed w true } :=
      goes_keeps rfl (stays_of_back (by rw [here]; rfl)) fun _ _ ready => ⟨ready,rfl,rfl⟩
    exact owner_progressing inv' (owner (by rw [here]; rfl)) (goes _)
      (mono_progress progress rfl rfl rfl keeps)
  | wakeup all w here stopped =>
    have progress : Progress s (.setSignalled all w) :=
      stay_progress (in_section progressing here rfl) rfl rfl (by simp)
    have keeps : Keeps s ((makeReady s w .signal).goto t (.setSignalled all w)) := by
      refine goes_keeps rfl (stays_of_back (by rw [here]; rfl)) fun u _ ready => ?_
      have other : u ≠ w := by
        rintro rfl
        exact absurd (ready.symm.trans stopped) Bool.false_ne_true
      simpa [makeReady, CondVar.goto, other] using ready
    exact owner_progressing inv' (owner (by rw [here]; rfl)) (goes _)
      (mono_progress progress rfl rfl rfl keeps)
  | wakeupFails all w here ready =>
    have progress := fail_progress inv here ready (in_section progressing here rfl)
    exact owner_progressing inv' (owner (by rw [here]; rfl)) (goes _)
      (mono_progress progress rfl rfl rfl (goto_keeps (stays_of_back (by rw [here]; rfl))))
  | setSignalled all w here =>
    have progress := in_section progressing here rfl
    exact owner_progressing inv' (owner (by rw [here]; rfl)) (goes _)
      (mark_progress inv here progress rfl rfl)
  | signalUnlock all here => exact idle_progressing inv' (by simp)

theorem wait_progressing (progressing : Progressing s) (here : s.pc t = .outside) (timed : Bool) :
    Progressing (beginWait s t timed) := by
  refine aside_progressing progressing rfl rfl rfl rfl rfl
    (goes_keeps rfl (stays_of_back (by rw [here]; rfl)) fun u away ready => ?_)
  have other : u ≠ t := by
    rintro rfl
    rw [here] at away
    cases away
  simpa [beginWait, CondVar.goto, other] using ready

theorem signal_progressing (progressing : Progressing s) (here : s.pc t = .outside) (all : Bool) :
    Progressing (s.goto t (.signalLock all)) :=
  aside_progressing progressing rfl rfl rfl rfl rfl (goto_keeps (stays_of_back (by rw [here]; rfl)))

theorem timeout_progressing (progressing : Progressing s) (stopped : s.stopped t = true) :
    Progressing (makeReady s t .timeout) := by
  refine fun c inside => mono_progress (progressing c inside) rfl rfl rfl
    (goes_keeps (Function.update_eq_self t s.pc).symm id fun u _ ready => ?_)
  have other : u ≠ t := by
    rintro rfl
    exact absurd (ready.symm.trans stopped) Bool.false_ne_true
  simpa [makeReady, other] using ready

theorem did_truthful (inv : Inv s) (truthful : Truthful s) (did : Did s t s') : Truthful s' := by
  cases did with
  | return' here =>
    intro r member
    rcases List.mem_append.mp member with old | new
    · exact truthful r old
    · cases List.mem_singleton.mp new
      exact told_of_done inv here
  | _ => exact truthful

/- What holds whenever no step is under way. -/
structure Condition (s : CondVar Thread) : Prop where
  inv : Inv s
  progressing : Progressing s
  truthful : Truthful s

theorem act_condition (condition : Condition s) {a : Action Thread} (enabled : Enabled s a) :
    ∃ s', act s a = some s' ∧ Condition s' := by
  obtain ⟨inv,progressing,truthful⟩ := condition
  obtain ⟨s',done,inv'⟩ := act_spec inv enabled
  refine ⟨s',done,inv',?_,?_⟩
  · cases a with
    | wait t timed => exact Option.some.inj done ▸ wait_progressing progressing enabled timed
    | signal t all => exact Option.some.inj done ▸ signal_progressing progressing enabled all
    | step t =>
      obtain ⟨s'',same,did⟩ := exec_did inv enabled
      cases Option.some.inj (same.symm.trans done)
      exact did_progressing inv inv' progressing did
    | timeout t => exact Option.some.inj done ▸ timeout_progressing progressing enabled.2.1
  · cases a with
    | wait t timed => exact Option.some.inj done ▸ truthful
    | signal t all => exact Option.some.inj done ▸ truthful
    | step t =>
      obtain ⟨s'',same,did⟩ := exec_did inv enabled
      cases Option.some.inj (same.symm.trans done)
      exact did_truthful inv truthful did
    | timeout t => exact Option.some.inj done ▸ truthful

theorem condition_inductive :
    (condSystem : Machine (CondVar Thread) (Action Thread)).Inductive Condition where
  start s first := first ▸ ⟨initial_inv,initial_progressing,nofun⟩
  step s a s' condition move := by
    obtain ⟨s'',done,condition'⟩ := act_condition condition move.1
    exact Option.some.inj (done.symm.trans move.2) ▸ condition'

/- The owner of waitset_lock is between the two statements that take a waiter out of the ring and
   set removed. -/
def TakenOut (s : CondVar Thread) (t : Thread) : Prop := ∃ c all, s.pc c = .setRemoved all t

/-- In every interleaving: the ring holds the waiters with removed = 0 in the order of arrival, no
    assertion fails and no waiter is touched after its cv_wait, and signal, broadcast and cv_wait
    have done what they should. -/
theorem condition_variable (reach : condSystem.Reach s) :
    WaitsetOk s.nodes s.waitset s.queue ∧
    (∀ t, t ∈ s.queue ↔ (s.pc t).Pushed = true ∧ s.removed t = false ∧ ¬ TakenOut s t) ∧
    (s.waitsetLock = none → ∀ t, ¬ TakenOut s t) ∧
    (∀ a, Enabled s a → (act s a).isSome) ∧
    (∀ c, s.pc c = .signalUnlock false → SignalsFirst s) ∧
    (∀ c, s.pc c = .signalUnlock true → SignalsAll s) ∧
    ∀ r ∈ s.returned, r.2.1 = true ↔ r.2.2 = some .signal := by
  have ⟨inv,progressing,truthful⟩ := inductive_reach condition_inductive reach
  refine ⟨inv.waitset,fun t => ?_,fun free t => ?_,fun a enabled => ?_,fun c here => ?_,
    fun c here => ?_,truthful⟩
  · simpa [TakenOut] using inv.mem t
  · rintro ⟨c,all,here⟩
    have owner := (inv.lock c).mp (by rw [here]; rfl)
    rw [free] at owner
    cases owner
  · obtain ⟨s',done,_⟩ := act_spec inv enabled
    rw [done]
    rfl
  · exact signals_first inv (in_section progressing here rfl)
  · exact signals_all (in_section progressing here rfl)

/- Thread 1 times out before thread 3 signals. -/
def timedOutRun : List (Action Nat) :=
  [.wait 1 true,.step 1,.step 1,.step 1,.step 1,.wait 2 false,.step 2,.step 2,.step 2,.step 2,
   .timeout 1,.signal 3 false] ++ List.replicate 10 (.step 3)

theorem condition_variable_timed_out : ∃ s : CondVar Nat, condSystem.Reach s ∧
    s.entered = [1,2] ∧ s.pc 3 = .signalUnlock false ∧ SignalsFirst s := by
  have reach := play_reach (m := (condSystem : Machine (CondVar Nat) _)) rfl timedOutRun rfl
  exact ⟨_,reach,rfl,rfl,(condition_variable reach).2.2.2.2.1 3 rfl⟩

end KernelCC
