import TinyOS.KernelLock

/- The kernel is taken at most once, and a thread that waits for it is not forgotten. -/
namespace KernelCC
open ResourceList Rings Transition Monitor
variable {Thread : Type}

/- It has kernel_mutex locked in a cv_wait on kernel_sem_cv (outside: as it is called, or has
   returned). -/
def Pc.Holds : Pc Thread → Bool
  | .outside | .waitLock | .push | .unlockMutex | .return' => true
  | .sleep | .asleep | .wakeLock | .tidy | .unlock | .lockMutex | .signalLock _ | .whileAny
  | .whileWaiter _ | .takeOut _ _ | .setRemoved _ _ | .wakeup _ _ | .setSignalled _ _
  | .signalUnlock _ => false

/- After its next step. -/
def Pc.HoldsNext : Pc Thread → Bool
  | .unlockMutex => false
  | .lockMutex => true
  | pc => pc.Holds

/- It has not released kernel_mutex since it has found kernel_sem at 0. -/
def Pc.Before : Pc Thread → Bool
  | .waitLock | .push | .unlockMutex => true
  | .outside | .sleep | .asleep | .wakeLock | .tidy | .unlock | .lockMutex | .return'
  | .signalLock _ | .whileAny | .whileWaiter _ | .takeOut _ _ | .setRemoved _ _ | .wakeup _ _
  | .setSignalled _ _ | .signalUnlock _ => false

def Pc.Signalling : Pc Thread → Bool
  | .signalLock all | .whileWaiter all | .takeOut all _ | .setRemoved all _ | .wakeup all _
  | .setSignalled all _ | .signalUnlock all => !all
  | .outside | .waitLock | .push | .unlockMutex | .sleep | .asleep | .wakeLock | .tidy | .unlock
  | .lockMutex | .return' | .whileAny => false

def Place.Holds (pc : Pc Thread) : Place → Bool
  | .whileSem | .decrement | .mutexUnlock | .increment _ | .condSignal _ | .handOver _ => true
  | .condWait => pc.Holds
  | .user | .mutexLock | .inside | .releaseLock _ | .onChannel | .exited => false

/- It will test kernel_sem, or a signal of its own is still to come. -/
def Takes (s : KernelLock Thread) (u : Thread) : Prop :=
  s.place u = .whileSem ∨ s.place u = .decrement ∨
    s.place u = .condWait ∧ s.kernelSemCv.cause u = some .signal ∨
    (s.kernelSemCv.pc u).Signalling = true

structure KernelInv (s : KernelLock Thread) : Prop where
  condition : Condition s.kernelSemCv
  calls : ∀ t, s.kernelSemCv.pc t = .outside ∨
    (s.kernelSemCv.pc t).Waits = true ∧ s.place t = .condWait ∨
    (s.kernelSemCv.pc t).Signalling = true ∧ ∃ r, s.place t = .condSignal r
  mutex : ∀ t, (s.place t).Holds (s.kernelSemCv.pc t) = true ↔ s.kernelMutex = some t
  sem : s.kernelSem = 1 ∧ (∀ t, (s.place t).Inside = false) ∨
    s.kernelSem = 0 ∧ ∃ t, (s.place t).Inside = true ∧ ∀ u, (s.place u).Inside = true → u = t
  free : ∀ t, s.place t = .decrement → s.kernelSem = 1
  taken : ∀ t, (s.kernelSemCv.pc t).Before = true → s.kernelSem = 0
  handOff : s.kernelSem = 1 → s.kernelSemCv.queue ≠ [] → ∃ u, Takes s u

/- Made READY by a signal, and marked. -/
def CondVar.Woken (s : CondVar Thread) (u : Thread) : Prop :=
  s.signalled u = true ∧ s.cause u = some .signal

/- What a step of a thread in a function of a CondVar does, as far as the kernel lock sees it. -/
structure Seen (s : CondVar Thread) (t : Thread) (s' : CondVar Thread) : Prop where
  others : ∀ u, u ≠ t → s'.pc u = s.pc u
  cause : ∀ u, s.cause u = some .signal → s'.cause u = some .signal
  queue : s'.queue ≠ [] → s.queue ≠ [] ∨ s.pc t = .push
  waits : (s.pc t).Waits = true → (s'.pc t).Waits = true ∨ s'.pc t = .outside
  signals : (s.pc t).Signalling = true → (s'.pc t).Signalling = true ∨
    s.pc t = .signalUnlock false ∧ s'.pc t = .outside
  before : (s.pc t).Waits = true → (s'.pc t).Before = true → (s.pc t).Before = true
  holds : (s.pc t).Waits = true → (s'.pc t).Holds = (s.pc t).HoldsNext

attribute [grind =] Pc.Holds Pc.HoldsNext Pc.Before Pc.Signalling Place.Holds Place.Inside

@[grind →] theorem signalling_apart {pc : Pc Thread} (signalling : pc.Signalling = true) :
    pc.Waits = false ∧ pc.Before = false ∧ pc ≠ .outside := by
  cases pc <;> simp_all [Pc.Signalling, Pc.Waits, Pc.Before]

@[grind →] theorem before_waits {pc : Pc Thread} (before : pc.Before = true) :
    pc.Waits = true ∧ pc.Holds = true := by
  cases pc <;> simp_all [Pc.Before, Pc.Waits, Pc.Holds]

variable {s s' : KernelLock Thread} {t : Thread}

theorem mutex_owned (inv : KernelInv s) :
    Owned (fun t => (s.place t).Holds (s.kernelSemCv.pc t)) s.kernelMutex := inv.mutex

theorem mutex_alone (inv : KernelInv s) (owns : (s.place t).Holds (s.kernelSemCv.pc t) = true)
    {u : Thread} (same : (s.place u).Holds (s.kernelSemCv.pc u) = true) : u = t :=
  owned_alone (mutex_owned inv) owns same

/-- A Cond_Signal that is done has woken a waiter up, or the ring is empty. -/
theorem signalled_takes (inv : KernelInv s) (here : s.kernelSemCv.pc t = .signalUnlock false)
    (waiting : s.kernelSemCv.queue ≠ []) :
    ∃ u, s.place u = .condWait ∧ s.kernelSemCv.cause u = some .signal := by
  obtain ⟨cv,progressing,_⟩ := inv.condition
  have first := signals_first cv (in_section progressing here rfl)
  obtain ⟨_,u,_,_,⟨away,_,_,cause⟩,_⟩ := first.resolve_right fun none => waiting none.2.1
  have waits := pushed_waits (away_pushed away).1
  have calls := inv.calls u
  exact ⟨u,by grind -ring -linarith,cause⟩

theorem out_of_place (inv : KernelInv s) (wait : s.place t ≠ .condWait)
    (signal : ∀ r, s.place t ≠ .condSignal r) : s.kernelSemCv.pc t = .outside := by
  rcases inv.calls t with out | ⟨_,here⟩ | ⟨_,r,here⟩
  · exact out
  · exact absurd here wait
  · exact absurd here (signal r)

theorem kernel_initial_inv : KernelInv (kernelInitial : KernelLock Thread) where
  condition := ⟨initial_inv,initial_progressing,nofun⟩
  calls _ := .inl rfl
  mutex _ := ⟨nofun,nofun⟩
  sem := .inl ⟨rfl,fun _ => rfl⟩
  free := nofun
  taken := nofun
  handOff _ waiting := absurd rfl waiting

/-- Nobody that will take the semaphore has kernel_mutex locked. -/
theorem woken_taker (inv : KernelInv s) (free : s.kernelMutex = none) (up : s.kernelSem = 1)
    (waiting : s.kernelSemCv.waitset ≠ none) :
    ∃ u, s.place u = .condWait ∧ s.kernelSemCv.Woken u ∧ u ∉ s.kernelSemCv.queue := by
  have cv := inv.condition.inv
  have idle : ∀ t, (s.place t).Holds (s.kernelSemCv.pc t) = false :=
    owned_free (free ▸ mutex_owned inv)
  have some' : s.kernelSemCv.queue ≠ [] := by
    intro none
    rw [cv.waitset.head, none] at waiting
    exact waiting rfl
  obtain ⟨u,takes⟩ := inv.handOff up some'
  have idle' := idle u
  have calls := inv.calls u
  have asleep : (s.kernelSemCv.pc u).Waits = true ∧ s.place u = .condWait ∧
      s.kernelSemCv.cause u = some .signal := by
    unfold Takes at takes
    grind -ring -linarith
  obtain ⟨waits,here,cause⟩ := asleep
  have signalled : s.kernelSemCv.signalled u = true := by
    refine (cv.told u waits cause).resolve_right ?_
    rintro ⟨c,all,marks⟩
    have idle' := idle c
    have calls := inv.calls c
    grind -ring -linarith
  refine ⟨u,here,⟨signalled,cause⟩,fun member => ?_⟩
  have unsignalled := queue_unsignalled cv member
  rw [signalled] at unsignalled
  cases unsignalled

variable [DecidableEq Thread]

theorem did_goes {s s' : CondVar Thread} {t : Thread} (did : Did s t s') :
    s'.pc = Function.update s.pc t (s'.pc t) := by
  cases did <;> simp [CondVar.goto, makeReady]

theorem did_seen {s s' : CondVar Thread} {t : Thread} (did : Did s t s') : Seen s t s' where
  others u other := by rw [did_goes did, Function.update_of_ne other]
  cause u signal := by
    cases did with
    | wakeup all w here stopped =>
      by_cases same : u = w <;> simp [makeReady, CondVar.goto, same, signal]
    | _ => exact signal
  queue := by
    cases did with
    | push here => exact fun _ => .inr here
    | leave | takeOut => exact fun some => .inl fun none => some (by simp [none])
    | _ => exact .inl
  waits := by
    cases did <;> simp_all [CondVar.goto, makeReady, Pc.Waits]
  signals := by
    cases did <;> simp_all [CondVar.goto, makeReady, Pc.Signalling]
  before := by
    cases did <;> simp_all [CondVar.goto, makeReady, Pc.Before, Pc.Waits]
  holds := by
    cases did <;> simp_all [CondVar.goto, makeReady, Pc.Holds, Pc.HoldsNext, Pc.Waits]

/-- A step that changes only the place of a thread and perhaps who owns kernel_mutex. -/
theorem go_inv (inv : KernelInv s) (out : s.kernelSemCv.pc t = .outside) {place : Place}
    {owner : Option Thread}
    (holds : Owned (fun u => (Function.update s.place t place u).Holds (s.kernelSemCv.pc u)) owner)
    (inside : place.Inside = (s.place t).Inside)
    (free : place = .decrement → s.kernelSem = 1)
    (takes : s.place t = .whileSem ∨ s.place t = .decrement ∨ s.place t = .condWait →
      place = .whileSem ∨ place = .decrement) :
    KernelInv { s.go t place with kernelMutex := owner } := by
  obtain ⟨condition,calls,mutex,sem,free',taken,handOff⟩ := inv
  constructor <;> simp only [KernelLock.go]
  case condition => exact condition
  case mutex => exact holds
  case taken => exact taken
  case calls =>
    intro u
    have := calls u
    simp only [Function.update_apply]
    grind -ring -linarith
  case sem =>
    simp only [Function.update_apply]
    grind -ring -linarith
  case free =>
    intro u
    have := free' u
    simp only [Function.update_apply]
    grind -ring -linarith
  case handOff =>
    intro up waiting
    obtain ⟨u,takes'⟩ := handOff up waiting
    refine ⟨u,?_⟩
    simp only [Takes, Function.update_apply] at takes' ⊢
    grind -ring -linarith

theorem decrement_inv (inv : KernelInv s) (out : s.kernelSemCv.pc t = .outside)
    (here : s.place t = .decrement) :
    KernelInv { s.go t .mutexUnlock with kernelSem := s.kernelSem - 1 } := by
  have alone {u : Thread} := mutex_alone inv (by rw [here]; rfl) (u := u)
  have up := inv.free t here
  obtain ⟨condition,calls,mutex,sem,free,taken,handOff⟩ := inv
  constructor <;> simp only [KernelLock.go, up, Function.update_apply]
  case condition => exact condition
  all_goals grind -ring -linarith

theorem increment_inv (inv : KernelInv s) (out : s.kernelSemCv.pc t = .outside) {r : Release}
    (here : s.place t = .increment r)
    (condition : Condition (s.kernelSemCv.goto t (.signalLock false))) :
    KernelInv { s.go t (.condSignal r) with
      kernelSem := s.kernelSem + 1, kernelSemCv := s.kernelSemCv.goto t (.signalLock false) } := by
  have alone {u : Thread} := mutex_alone inv (by rw [here]; rfl) (u := u)
  obtain ⟨_,calls,mutex,sem,free,taken,handOff⟩ := inv
  have down : s.kernelSem = 0 := by grind -ring -linarith
  constructor <;> simp only [KernelLock.go, CondVar.goto, down, Function.update_apply]
  case condition => exact condition
  case handOff =>
    exact fun _ _ => ⟨t,by simp [Takes, Pc.Signalling]⟩
  all_goals grind -ring -linarith

theorem begin_wait_inv (inv : KernelInv s)
    (here : s.place t = .whileSem) (down : s.kernelSem ≤ 0)
    (condition : Condition (beginWait s.kernelSemCv t false)) :
    KernelInv { s.go t .condWait with kernelSemCv := beginWait s.kernelSemCv t false } := by
  obtain ⟨_,calls,mutex,sem,free,taken,handOff⟩ := inv
  have down : s.kernelSem = 0 := by omega
  constructor <;> simp only [KernelLock.go, beginWait, CondVar.goto, down, Function.update_apply]
  case condition => exact condition
  all_goals grind -ring -linarith

theorem cond_inv (inv : KernelInv s) {cv : CondVar Thread} (busy : s.kernelSemCv.pc t ≠ .outside)
    (did : Did s.kernelSemCv t cv) (condition : Condition cv)
    (unlocked : s.kernelSemCv.pc t = .lockMutex → s.kernelMutex = none) :
    KernelInv { s with kernelSemCv := cv, kernelMutex := condMutex s t } := by
  obtain ⟨others,cause,queue,waits,signals,before,holds⟩ := did_seen did
  have seen := signalled_takes inv (t := t)
  obtain ⟨_,calls,mutex,sem,free,taken,handOff⟩ := inv
  have call := calls t
  constructor <;> simp only []
  case condition => exact condition
  case sem => exact sem
  case free => exact free
  case calls =>
    intro u
    by_cases same : u = t
    · grind -ring -linarith
    · rw [others u same]
      exact calls u
  case taken =>
    intro u early
    by_cases same : u = t
    · have := taken t
      grind -ring -linarith
    · rw [others u same] at early
      exact taken u early
  case mutex =>
    intro u
    have owner := mutex t
    unfold condMutex
    by_cases same : u = t
    · subst same
      split <;> grind -ring -linarith
    · rw [others u same, mutex u]
      split <;> grind -ring -linarith
  case handOff =>
    intro up waiting
    have still : s.kernelSemCv.queue ≠ [] := by
      refine (queue waiting).resolve_right fun push => ?_
      have down := taken t (by rw [push]; rfl)
      omega
    obtain ⟨u,takes⟩ := handOff up still
    simp only [Takes] at takes ⊢
    by_cases same : u = t
    · subst same
      rcases takes with here | here | ⟨here,signal⟩ | signalling
      · grind -ring -linarith
      · grind -ring -linarith
      · exact ⟨u,.inr (.inr (.inl ⟨here,cause u signal⟩))⟩
      · rcases signals signalling with still' | ⟨last,_⟩
        · exact ⟨u,.inr (.inr (.inr still'))⟩
        · obtain ⟨w,here,signal⟩ := seen last still
          exact ⟨w,.inr (.inr (.inl ⟨here,cause w signal⟩))⟩
    · refine ⟨u,?_⟩
      rw [others u same]
      have := cause u
      grind -ring -linarith

theorem keep_mutex (inv : KernelInv s) {place : Place}
    (same : place.Holds (s.kernelSemCv.pc t) = (s.place t).Holds (s.kernelSemCv.pc t)) :
    Owned (fun u => (Function.update s.place t place u).Holds (s.kernelSemCv.pc u))
      s.kernelMutex := by
  refine owned_keep (mutex_owned inv) fun u => ?_
  by_cases here : u = t <;> simp [here, same]

theorem acquire_mutex (inv : KernelInv s) {place : Place} (free : s.kernelMutex = none)
    (holds : place.Holds (s.kernelSemCv.pc t) = true) :
    Owned (fun u => (Function.update s.place t place u).Holds (s.kernelSemCv.pc u)) (some t) :=
  owned_acquire (free ▸ mutex_owned inv) (by simpa using holds) fun u other => by simp [other]

theorem release_mutex (inv : KernelInv s) {place : Place}
    (owns : (s.place t).Holds (s.kernelSemCv.pc t) = true)
    (holds : place.Holds (s.kernelSemCv.pc t) = false) :
    Owned (fun u => (Function.update s.place t place u).Holds (s.kernelSemCv.pc u)) none :=
  owned_release (mutex_owned inv) owns (by simpa using holds) fun u other => by simp [other]

theorem kernel_step_spec (inv : KernelInv s) (enabled : KernelEnabled s (.step t)) :
    ∃ s', kernelStep s t = some s' ∧ KernelInv s' := by
  obtain ⟨away,apart,alive,cond,free⟩ := enabled
  unfold kernelStep
  split
  · rename_i busy
    obtain ⟨cv,done,condition⟩ := act_condition inv.condition (cond busy)
    obtain ⟨cv',done',did⟩ := exec_did inv.condition.inv (cond busy)
    cases Option.some.inj (done.symm.trans done')
    exact ⟨_,by rw [condStep, done']; rfl,
      cond_inv inv busy did condition fun here => free (.inl here)⟩
  · rename_i out
    have out : s.kernelSemCv.pc t = .outside := not_not.mp out
    cases here : s.place t with
    | user => exact absurd here away
    | inside => exact absurd here apart
    | exited => exact absurd here alive
    | mutexLock =>
      have free := free (.inr (by rw [here]; rfl))
      exact ⟨_,rfl,go_inv inv out (acquire_mutex inv free rfl) (by rw [here]; rfl) nofun
        fun _ => .inl rfl⟩
    | whileSem =>
      by_cases down : s.kernelSem ≤ 0
      · obtain ⟨_,done,condition⟩ :=
          act_condition inv.condition (a := .wait t false) out
        cases done
        exact ⟨_,if_pos down,begin_wait_inv inv here down condition⟩
      · have up : s.kernelSem = 1 := by
          have := inv.sem
          omega
        exact ⟨_,if_neg down,go_inv inv out (keep_mutex inv (by rw [here]; rfl)) (by rw [here]; rfl)
          (fun _ => up) fun _ => .inr rfl⟩
    | condWait =>
      exact ⟨_,rfl,go_inv inv out (keep_mutex inv (by rw [here, out]; rfl)) (by rw [here]; rfl)
        nofun fun _ => .inl rfl⟩
    | decrement => exact ⟨_,rfl,decrement_inv inv out here⟩
    | mutexUnlock =>
      exact ⟨_,rfl,go_inv inv out (release_mutex inv (by rw [here]; rfl) rfl) (by rw [here]; rfl)
        nofun (by rw [here]; nofun)⟩
    | releaseLock r =>
      have free := free (.inr (by rw [here]; rfl))
      exact ⟨_,rfl,go_inv inv out (acquire_mutex inv free rfl) (by rw [here]; rfl) nofun
        (by rw [here]; nofun)⟩
    | increment r =>
      obtain ⟨_,done,condition⟩ := act_condition inv.condition (a := .signal t false) out
      cases done
      exact ⟨_,rfl,increment_inv inv out here condition⟩
    | condSignal r =>
      exact ⟨_,rfl,go_inv inv out (keep_mutex inv (by rw [here]; rfl)) (by rw [here]; rfl) nofun
        (by rw [here]; nofun)⟩
    | handOver r =>
      refine ⟨_,rfl,go_inv inv out (release_mutex inv (by rw [here]; rfl) ?_) ?_ ?_
        (by rw [here]; nofun)⟩
      · cases r <;> rfl
      · cases r <;> rw [here] <;> rfl
      · cases r <;> nofun
    | onChannel =>
      exact ⟨_,rfl,go_inv inv out (keep_mutex inv (by rw [here]; rfl)) (by rw [here]; rfl) nofun
        (by rw [here]; nofun)⟩

theorem kernel_act_spec (inv : KernelInv s) {a : KernelAction Thread}
    (enabled : KernelEnabled s a) : ∃ s', kernelAct s a = some s' ∧ KernelInv s' := by
  cases a with
  | lock t =>
    have here : s.place t = .user := enabled
    have out := out_of_place inv (t := t) (by rw [here]; nofun) (by rw [here]; nofun)
    exact ⟨_,rfl,go_inv inv out (keep_mutex inv (by rw [here]; rfl)) (by rw [here]; rfl) nofun
      (by rw [here]; nofun)⟩
  | release t r =>
    have here : s.place t = .inside := enabled
    have out := out_of_place inv (t := t) (by rw [here]; nofun) (by rw [here]; nofun)
    exact ⟨_,rfl,go_inv inv out (keep_mutex inv (by rw [here]; rfl)) (by rw [here]; rfl) nofun
      (by rw [here]; nofun)⟩
  | step t => exact kernel_step_spec inv enabled

theorem kernel_inductive :
    (kernelSystem : Machine (KernelLock Thread) (KernelAction Thread)).Inductive KernelInv where
  start s first := first ▸ kernel_initial_inv
  step s a s' inv move := by
    obtain ⟨s'',done,inv'⟩ := kernel_act_spec inv move.1
    exact Option.some.inj (done.symm.trans move.2) ▸ inv'

/-- At most one thread is inside, no step faults, and when kernel_mutex is free, kernel_sem is 1
    and a thread is in the ring, then another one that has been signalled has not tested kernel_sem
    since. -/
theorem kernel_lock_monitor (reach : kernelSystem.Reach s) :
    (s.kernelSem = 1 ∧ (∀ t, (s.place t).Inside = false) ∨
      s.kernelSem = 0 ∧ ∃! t, (s.place t).Inside = true) ∧
    (∀ a, KernelEnabled s a → (kernelAct s a).isSome) ∧
    (s.kernelMutex = none → s.kernelSem = 1 → s.kernelSemCv.waitset ≠ none →
      ∃ u, s.place u = .condWait ∧ s.kernelSemCv.Woken u ∧ u ∉ s.kernelSemCv.queue) := by
  have inv := inductive_reach kernel_inductive reach
  refine ⟨inv.sem,fun a enabled => ?_,fun free up waiting => ?_⟩
  · obtain ⟨s',done,_⟩ := kernel_act_spec inv enabled
    rw [done]
    rfl
  · exact woken_taker inv free up waiting

/- Thread 1 gives the kernel up while threads 2 and 3 wait for it. -/
def contendedRun : List (KernelAction Nat) :=
  .lock 1 :: List.replicate 4 (.step 1) ++ .lock 2 :: List.replicate 6 (.step 2) ++
    .lock 3 :: List.replicate 6 (.step 3) ++ .release 1 .unlock :: List.replicate 11 (.step 1)

theorem kernel_lock_monitor_contended : ∃ s : KernelLock Nat, kernelSystem.Reach s ∧
    s.kernelMutex = none ∧ s.kernelSem = 1 ∧ s.kernelSemCv.queue = [3] ∧
      ∃ u, s.place u = .condWait ∧ s.kernelSemCv.Woken u ∧ u ∉ s.kernelSemCv.queue := by
  have reach := play_reach (m := (kernelSystem : Machine (KernelLock Nat) _)) rfl contendedRun rfl
  exact ⟨_,reach,rfl,rfl,rfl,(kernel_lock_monitor reach).2.2 rfl rfl (by decide)⟩

end KernelCC
