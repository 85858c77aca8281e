import TinyOS.Spinlocks
import TinyOS.Monitor

/- Who waits for whom at the two spinlocks, and what active_threads_spinlock is for. -/
namespace Spinlocks
open Transition KernelSched Monitor
variable {Core : Type}

/- It has active_threads_spinlock, in spawn_thread. -/
def Work.Holds : Work → Bool
  | .spawnRead | .spawnWrite _ | .spawnUnlock => true
  | .user | .spawnLock => false

def Place.work : Place Core → Work
  | .on work | .wakeupLock work _ | .wakeupInside work _ | .yieldLock work | .yieldInside work
  | .out work | .gainLock work | .gainInside work | .releaseLock work | .releaseRead work
  | .releaseWrite work _ | .releaseUnlock work | .gainUnlock work => work
  | .sleepLock _ | .sleepInside _ => .user

def Place.HoldsSched : Place Core → Bool
  | .wakeupInside _ _ | .sleepInside _ | .yieldInside _ | .gainInside _ | .releaseLock _
  | .releaseRead _ | .releaseWrite _ _ | .releaseUnlock _ | .gainUnlock _ => true
  | .on _ | .wakeupLock _ _ | .sleepLock _ | .yieldLock _ | .out _ | .gainLock _ => false

/- It has active_threads_spinlock, in release_TCB. -/
def Place.Releases : Place Core → Bool
  | .releaseRead _ | .releaseWrite _ _ | .releaseUnlock _ => true
  | .on _ | .wakeupLock _ _ | .wakeupInside _ _ | .sleepLock _ | .sleepInside _ | .yieldLock _
  | .yieldInside _ | .out _ | .gainLock _ | .gainInside _ | .releaseLock _ | .gainUnlock _ => false

def Place.HoldsActive (place : Place Core) : Bool := place.work.Holds || place.Releases

/- It spins with preemption off. -/
def Spins (s : Spin Core) (t : TcbRef Core) : Prop :=
  (s.place t).LocksSched = true ∧ s.schedSpinlock ≠ none ∨
    (∃ work, s.place t = .releaseLock work) ∧ s.activeThreadsSpinlock ≠ none

/- The thread that has active_threads_spinlock was interrupted in spawn_thread. -/
def Interrupted (s : Spin Core) : Prop :=
  ∃ t, s.activeThreadsSpinlock = some t ∧ (s.place t).On = false ∧ (s.place t).work.Holds = true

/- What active_threads was read as, by a thread that is going to write it. -/
def Place.readAs : Place Core → Option UInt32
  | .releaseWrite _ active => some active
  | place => match place.work with | .spawnWrite active => some active | _ => none

/- No interrupt is taken by a thread that has active_threads_spinlock in spawn_thread. -/
def Masked (s : Spin Core) : Action Core → Prop
  | .call c _ | .yield c => (s.place (s.currentThread c)).work.Holds = false
  | .step _ | .enter _ | .leave _ | .spawn _ _ | .sleep _ _ | .select _ _ => True

/- No thread is in a function of the scheduler, or switched out, with active_threads_spinlock. -/
def Calm (s : Spin Core) : Prop :=
  ∀ t, (s.place t).On = false → (s.place t).work.Holds = false

structure SpinInv (s : Spin Core) : Prop where
  distinct : Function.Injective s.currentThread
  there : ∀ c, (s.place (s.currentThread c)).Out = false
  out : ∀ t, (s.place t).Out = false → ∃ c, s.currentThread c = t
  unborn : ∀ t, s.state t = none → s.place t = .out .user
  sched : Owned (fun t => (s.place t).HoldsSched) s.schedSpinlock
  active : Owned (fun t => (s.place t).HoldsActive) s.activeThreadsSpinlock
  apart : ∀ t, (s.place t).Releases = true → (s.place t).work.Holds = false
  fresh : ∀ t active, (s.place t).readAs = some active → active = s.activeThreads
  count : s.activeThreads = UInt32.ofNat s.spawned - UInt32.ofNat s.released

/- What a step does that leaves its thread t on its core. -/
structure Goes (s s' : Spin Core) (c : Core) (t : TcbRef Core) (place : Place Core) : Prop where
  here : s.currentThread c = t
  cores : s'.currentThread = s.currentThread
  now : s'.place t = place
  others : ∀ u, u ≠ t → s'.place u = s.place u
  stays : place.Out = false
  exist : ∀ u, s'.state u = none → s.state u = none
  sched : Passes t (s.place t).HoldsSched place.HoldsSched s.schedSpinlock s'.schedSpinlock
  active : Passes t (s.place t).HoldsActive place.HoldsActive s.activeThreadsSpinlock
    s'.activeThreadsSpinlock
  apart : place.Releases = true → place.work.Holds = false
  fresh : ∀ active, place.readAs = some active →
    active = s.activeThreads ∨ (s.place t).readAs = some active
  counts : s'.activeThreads = s.activeThreads ∧ s'.spawned = s.spawned ∧ s'.released = s.released ∨
    (s.place t).HoldsActive = true ∧ place.readAs = none ∧
      ((∃ active, (s.place t).readAs = some active ∧ s'.activeThreads = active + 1) ∧
          s'.spawned = s.spawned + 1 ∧ s'.released = s.released ∨
        (∃ active, (s.place t).readAs = some active ∧ s'.activeThreads = active - 1) ∧
          s'.spawned = s.spawned ∧ s'.released = s.released + 1)

variable {s s' : Spin Core}

/-- What a thread has read active_threads as, it holds the lock for. -/
theorem read_holds {place : Place Core} {active : UInt32} (read : place.readAs = some active) :
    place.HoldsActive = true := by
  cases place with
  | releaseWrite work value => simp [Place.HoldsActive, Place.Releases]
  | _ =>
    simp only [Place.readAs] at read
    split at read
    · rename_i held
      simp [Place.HoldsActive, held, Work.Holds]
    · cases read

theorem goes_inv {c : Core} {t : TcbRef Core} {place : Place Core} (inv : SpinInv s)
    (goes : Goes s s' c t place) : SpinInv s' := by
  have alive : s.state t ≠ none := fun gone => by
    have there := inv.there c
    rw [goes.here, inv.unborn t gone] at there
    cases there
  constructor
  case distinct => exact goes.cores ▸ inv.distinct
  case there =>
    intro d
    rw [goes.cores]
    by_cases same : s.currentThread d = t
    · rw [same, goes.now]
      exact goes.stays
    · rw [goes.others _ same]
      exact inv.there d
  case out =>
    intro u inside
    rw [goes.cores]
    by_cases same : u = t
    · exact ⟨c,goes.here.trans same.symm⟩
    · exact inv.out u (goes.others u same ▸ inside)
  case unborn =>
    intro u gone
    have before := goes.exist u gone
    have other : u ≠ t := fun same => alive (same ▸ before)
    exact (goes.others u other).trans (inv.unborn u before)
  case sched =>
    exact owned_passes inv.sched (goes.now ▸ goes.sched) fun u other => by rw [goes.others u other]
  case active =>
    exact owned_passes inv.active (goes.now ▸ goes.active) fun u other => by rw [goes.others u other]
  case apart =>
    intro u
    by_cases same : u = t
    · rw [same, goes.now]
      exact goes.apart
    · rw [goes.others u same]
      exact inv.apart u
  case fresh =>
    intro u active read
    by_cases same : u = t
    · rw [same, goes.now] at read
      rcases goes.counts with ⟨kept,_⟩ | ⟨_,none,_⟩
      · rw [kept]
        exact (goes.fresh active read).elim id (inv.fresh t active)
      · rw [none] at read
        cases read
    · rw [goes.others u same] at read
      rcases goes.counts with ⟨kept,_⟩ | ⟨holds,_⟩
      · exact kept ▸ inv.fresh u active read
      · exact absurd (owned_alone inv.active holds (read_holds read)) same
  case count =>
    rcases goes.counts with ⟨kept,up,down⟩ | ⟨_,_,⟨⟨active,read,is⟩,up,down⟩ | ⟨⟨active,read,is⟩,up,down⟩⟩
    · rw [kept, up, down]
      exact inv.count
    · rw [is, up, down, inv.fresh t active read, inv.count, UInt32.ofNat_add]
      grind
    · rw [is, up, down, inv.fresh t active read, inv.count, UInt32.ofNat_add]
      grind

/-- yield goes on to another thread. -/
theorem switch_inv [DecidableEq Core] {c : Core} {next : TcbRef Core} {work work' : Work}
    (inv : SpinInv s) (here : s.place (s.currentThread c) = .yieldInside work)
    (there : s.place next = .out work') (ready : s.state next = some .ready)
    (state : TcbRef Core → Option ThreadState) (exist : ∀ u, state u = none → s.state u = none)
    (previous : Core → TcbRef Core) :
    SpinInv { s with
      schedSpinlock := none
      currentThread := Function.update s.currentThread c next
      previousThread := previous
      state := state
      place := Function.update (Function.update s.place (s.currentThread c) (.out work)) next
        (.gainLock work') } := by
  have other : next ≠ s.currentThread c := by
    rintro rfl
    rw [here] at there
    cases there
  have away (d : Core) : s.currentThread d ≠ next := by
    intro same
    have inside := inv.there d
    rw [same, there] at inside
    cases inside
  have places (P : TcbRef Core → Place Core → Prop) (u : TcbRef Core)
      (up : P next (.gainLock work')) (down : P (s.currentThread c) (.out work))
      (rest : u ≠ next → u ≠ s.currentThread c → P u (s.place u)) :
      P u (Function.update (Function.update s.place (s.currentThread c) (.out work)) next
        (.gainLock work') u) := by
    by_cases first : u = next
    · rw [first, Function.update_self]
      exact up
    · rw [Function.update_of_ne first]
      by_cases second : u = s.currentThread c
      · rw [second, Function.update_self]
        exact down
      · rw [Function.update_of_ne second]
        exact rest first second
  constructor
  case distinct =>
    intro d d' same
    simp only [Function.update_apply] at same
    split at same <;> split at same
    · simp_all
    · exact absurd same.symm (away d')
    · exact absurd same (away d)
    · exact inv.distinct same
  case there =>
    intro d
    by_cases same : d = c
    · rw [same]
      simp [Place.Out]
    · simp only [Function.update_of_ne same, Function.update_of_ne (away d)]
      rw [Function.update_of_ne fun eq => same (inv.distinct eq)]
      exact inv.there d
  case out =>
    intro u inside
    by_cases first : u = next
    · exact ⟨c,by simp [first]⟩
    · by_cases second : u = s.currentThread c
      · simp [second, Ne.symm other, Place.Out] at inside
      · obtain ⟨d,is⟩ := inv.out u (by simpa [first, second] using inside)
        have apart : d ≠ c := fun eq => second (eq ▸ is.symm)
        exact ⟨d,by simpa [apart] using is⟩
  case unborn =>
    intro u gone
    have before := exist u gone
    have first : u ≠ next := fun eq => by simp [eq, ready] at before
    have second : u ≠ s.currentThread c := fun eq => by
      have idle := inv.unborn u before
      rw [eq, here] at idle
      cases idle
    simpa [first, second] using inv.unborn u before
  case sched =>
    refine owned_release (t := s.currentThread c) inv.sched (by simp [here, Place.HoldsSched])
      (by simp [Ne.symm other, Place.HoldsSched]) fun u apart => ?_
    refine places (fun u pl => u ≠ s.currentThread c → pl.HoldsSched = (s.place u).HoldsSched) u
      (fun _ => ?_) (fun no => absurd rfl no) (fun _ _ _ => rfl) apart
    rw [there]
    rfl
  case active =>
    refine owned_keep inv.active fun u => ?_
    refine places (fun u pl => pl.HoldsActive = (s.place u).HoldsActive) u ?_ ?_ (fun _ _ => rfl)
    · rw [there]
      rfl
    · rw [here]
      rfl
  case apart =>
    intro u
    exact places (fun _ pl => pl.Releases = true → pl.work.Holds = false) u (by simp [Place.Releases])
      (by simp [Place.Releases]) fun _ _ => inv.apart u
  case fresh =>
    intro u active
    refine places (fun _ pl => pl.readAs = some active → active = s.activeThreads) u ?_ ?_
      fun _ _ => inv.fresh u active
    · exact fun read => inv.fresh next active (there ▸ read)
    · exact fun read => inv.fresh (s.currentThread c) active (here ▸ read)
  case count => exact inv.count

theorem initial_spin_inv : SpinInv (initial : Spin Core) where
  distinct c d same := TcbRef.idle.inj same
  there c := rfl
  out t inside := by
    cases t with
    | idle c => exact ⟨c,rfl⟩
    | thread addr => cases inside
  unborn t gone := by
    cases t with
    | idle c => cases gone
    | thread addr => rfl
  sched t := by cases t <;> simp [initial, Place.HoldsSched]
  active t := by
    cases t <;> simp [initial, Place.HoldsActive, Place.work, Work.Holds, Place.Releases]
  apart t is := by cases t <;> cases is
  fresh t active is := by cases t <;> cases is
  count := by simp [initial]

theorem sched_holder (inv : SpinInv s) (taken : s.schedSpinlock ≠ none) :
    ∃ d, s.schedSpinlock = some (s.currentThread d) ∧
      (s.place (s.currentThread d)).HoldsSched = true := by
  obtain ⟨t,has⟩ := Option.ne_none_iff_exists'.mp taken
  have holds := (inv.sched t).mpr has
  obtain ⟨d,rfl⟩ := inv.out t (by cases is : s.place t <;> simp_all [Place.HoldsSched, Place.Out])
  exact ⟨d,has,holds⟩

theorem active_holder (inv : SpinInv s) (taken : s.activeThreadsSpinlock ≠ none)
    (calm : ¬ Interrupted s) : ∃ d, s.activeThreadsSpinlock = some (s.currentThread d) ∧
      ¬ Spins s (s.currentThread d) := by
  obtain ⟨t,has⟩ := Option.ne_none_iff_exists'.mp taken
  have holds := (inv.active t).mpr has
  have where' : (s.place t).On = true ∧ (s.place t).work.Holds = true ∨
      (s.place t).Releases = true := by
    by_cases releases : (s.place t).Releases = true
    · exact .inr releases
    · have held : (s.place t).work.Holds = true := by
        simpa [Place.HoldsActive, releases] using holds
      refine .inl ⟨?_,held⟩
      by_contra off
      exact calm ⟨t,has,by simpa using off,held⟩
  obtain ⟨d,rfl⟩ := inv.out t (by
    cases is : s.place t <;> simp_all [Place.On, Place.Releases, Place.Out])
  refine ⟨d,has,?_⟩
  rintro (⟨locks,_⟩ | ⟨⟨work,is⟩,_⟩)
  · cases is : s.place (s.currentThread d) <;>
      simp_all [Place.LocksSched, Place.On, Place.Releases]
  · simp_all [Place.On, Place.Releases]

section Steps
variable [DecidableEq Core] {c : Core} {old place : Place Core}

/-- A step that changes a place, the locks and the threads' states only. -/
theorem moved_inv (inv : SpinInv s) (here : s.place (s.currentThread c) = old)
    (frame : s'.currentThread = s.currentThread ∧
      s'.place = Function.update s.place (s.currentThread c) place)
    (exist : ∀ u, s'.state u = none → s.state u = none)
    (counts : s'.activeThreads = s.activeThreads ∧ s'.spawned = s.spawned ∧
      s'.released = s.released) (stays : place.Out = false)
    (sched : Passes (s.currentThread c) old.HoldsSched place.HoldsSched s.schedSpinlock
      s'.schedSpinlock)
    (active : Passes (s.currentThread c) old.HoldsActive place.HoldsActive s.activeThreadsSpinlock
      s'.activeThreadsSpinlock)
    (apart : place.Releases = true → place.work.Holds = false)
    (fresh : ∀ active, place.readAs = some active →
      active = s.activeThreads ∨ old.readAs = some active) : SpinInv s' := by
  subst here
  have goes : Goes s s' c (s.currentThread c) place :=
    { here := rfl, cores := frame.1, now := by rw [frame.2, Function.update_self]
      others := fun u other => by rw [frame.2, Function.update_of_ne other]
      stays, exist, sched, active, apart, fresh, counts := .inl counts }
  exact goes_inv inv goes

theorem set_exist {t : TcbRef Core} {state : ThreadState} (u : TcbRef Core)
    (gone : Function.update s.state t (some state) u = none) : s.state u = none := by
  by_cases same : u = t
  · simp [same] at gone
  · simpa [same] using gone

/-- active_threads is written by the thread that has its lock. -/
theorem written_inv (inv : SpinInv s) {active : UInt32}
    (here : s.place (s.currentThread c) = old) (read : old.readAs = some active)
    (frame : s'.currentThread = s.currentThread ∧
      s'.place = Function.update s.place (s.currentThread c) place)
    (same : s'.state = s.state ∧ s'.schedSpinlock = s.schedSpinlock ∧
      s'.activeThreadsSpinlock = s.activeThreadsSpinlock) (stays : place.Out = false)
    (sched : place.HoldsSched = old.HoldsSched) (holds : place.HoldsActive = true)
    (apart : place.Releases = true → place.work.Holds = false) (none : place.readAs = none)
    (counts : s'.activeThreads = active + 1 ∧ s'.spawned = s.spawned + 1 ∧
        s'.released = s.released ∨
      s'.activeThreads = active - 1 ∧ s'.spawned = s.spawned ∧
        s'.released = s.released + 1) : SpinInv s' := by
  subst here
  have held := read_holds read
  have goes : Goes s s' c (s.currentThread c) place :=
    { here := rfl, cores := frame.1, now := by rw [frame.2, Function.update_self]
      others := fun u other => by rw [frame.2, Function.update_of_ne other]
      stays, exist := fun u gone => same.1 ▸ gone, sched := .inl ⟨sched,same.2.1⟩
      active := .inl ⟨holds.trans held.symm,same.2.2⟩, apart
      fresh := fun a is => by rw [none] at is; cases is
      counts := .inr ⟨held,none,counts.imp (fun ⟨is,rest⟩ => ⟨⟨active,read,is⟩,rest⟩)
        (fun ⟨is,rest⟩ => ⟨⟨active,read,is⟩,rest⟩)⟩ }
  exact goes_inv inv goes

theorem spawn_step_inv (inv : SpinInv s) {work : Work}
    (here : s.place (s.currentThread c) = .on work)
    (free : work = .spawnLock → s.activeThreadsSpinlock = none)
    (run : coreStep s c = some s') : SpinInv s' := by
  cases work with simp only [coreStep, here, Option.some.injEq, reduceCtorEq] at run <;> subst run
  | spawnLock =>
    exact moved_inv inv here ⟨rfl,rfl⟩ (fun _ => id) ⟨rfl,rfl,rfl⟩ rfl (.inl ⟨rfl,rfl⟩)
      (.inr (.inl ⟨free rfl,rfl,rfl⟩)) (by simp [Place.Releases])
      (by simp [Place.readAs, Place.work])
  | spawnRead =>
    exact moved_inv inv here ⟨rfl,rfl⟩ (fun _ => id) ⟨rfl,rfl,rfl⟩ rfl (.inl ⟨rfl,rfl⟩)
      (.inl ⟨rfl,rfl⟩) (by simp [Place.Releases]) (by simp [Place.readAs, Place.work])
  | spawnWrite active =>
    exact written_inv inv here rfl ⟨rfl,rfl⟩ ⟨rfl,rfl,rfl⟩ rfl rfl rfl (by simp [Place.Releases])
      rfl (.inl ⟨rfl,rfl,rfl⟩)
  | spawnUnlock =>
    exact moved_inv inv here ⟨rfl,rfl⟩ (fun _ => id) ⟨rfl,rfl,rfl⟩ rfl (.inl ⟨rfl,rfl⟩)
      (.inr (.inr ⟨rfl,rfl,rfl⟩)) (by simp [Place.Releases]) (by simp [Place.readAs, Place.work])

theorem lock_sched_inv (inv : SpinInv s) (here : s.place (s.currentThread c) = old)
    (free : s.schedSpinlock = none) (stays : place.Out = false) (takes : place.HoldsSched = true)
    (kept : place.HoldsActive = old.HoldsActive) (apart : place.Releases = false)
    (fresh : place.readAs = old.readAs) :
    SpinInv { s.go (s.currentThread c) place with schedSpinlock := some (s.currentThread c) } :=
  moved_inv inv here ⟨rfl,rfl⟩ (fun _ => id) ⟨rfl,rfl,rfl⟩ stays (.inr (.inl ⟨free,takes,rfl⟩))
    (.inl ⟨kept,rfl⟩) (by simp [apart]) fun active is => .inr (fresh ▸ is)

theorem gains_inv (inv : SpinInv s) {work : Work}
    (here : s.place (s.currentThread c) = .gainInside work) :
    SpinInv (gains s c (s.currentThread c) work) := by
  simp only [gains, takeCare]
  split
  · exact moved_inv inv here ⟨rfl,rfl⟩ set_exist ⟨rfl,rfl,rfl⟩ rfl (.inl ⟨rfl,rfl⟩) (.inl ⟨rfl,rfl⟩)
      (by simp [Place.Releases]) (fun _ => .inr)
  · split
    · exact moved_inv inv here ⟨rfl,rfl⟩ set_exist ⟨rfl,rfl,rfl⟩ rfl (.inl ⟨rfl,rfl⟩)
        (.inl ⟨rfl,rfl⟩) (by simp [Place.Releases]) (fun _ => .inr)
    · exact moved_inv inv here ⟨rfl,rfl⟩ set_exist ⟨rfl,rfl,rfl⟩ rfl (.inl ⟨rfl,rfl⟩)
        (.inl ⟨rfl,rfl⟩) (by simp [Place.Releases]) (fun _ => .inr)

theorem core_step_inv (inv : SpinInv s) (enabled : Enabled s (.step c))
    (run : coreStep s c = some s') : SpinInv s' := by
  obtain ⟨_,_,freeSched,freeActive⟩ := enabled
  have apart := inv.apart (s.currentThread c)
  cases here : s.place (s.currentThread c) with rw [here] at freeSched freeActive apart
  | on work => exact spawn_step_inv inv here (fun is => freeActive (is ▸ rfl)) run
  | yieldInside work | out work => simp [coreStep, here] at run
  | wakeupLock | sleepLock | yieldLock | gainLock =>
    simp only [coreStep, here, Option.some.injEq] at run
    subst run
    exact lock_sched_inv inv here (freeSched rfl) rfl rfl rfl rfl rfl
  | wakeupInside work tcb =>
    simp only [coreStep, here, Option.some.injEq] at run
    subst run
    unfold wakes
    split
    · exact moved_inv inv here ⟨rfl,rfl⟩ set_exist ⟨rfl,rfl,rfl⟩ rfl (.inr (.inr ⟨rfl,rfl,rfl⟩))
        (.inl ⟨rfl,rfl⟩) (by simp [Place.Releases]) (fun _ => .inr)
    · exact moved_inv inv here ⟨rfl,rfl⟩ (fun _ => id) ⟨rfl,rfl,rfl⟩ rfl
        (.inr (.inr ⟨rfl,rfl,rfl⟩)) (.inl ⟨rfl,rfl⟩) (by simp [Place.Releases]) (fun _ => .inr)
  | sleepInside state =>
    simp only [coreStep, here, Option.some.injEq] at run
    subst run
    exact moved_inv inv here ⟨rfl,rfl⟩ set_exist ⟨rfl,rfl,rfl⟩ rfl (.inr (.inr ⟨rfl,rfl,rfl⟩))
      (.inl ⟨rfl,rfl⟩) (by simp [Place.Releases]) (fun _ => .inr)
  | gainInside work =>
    simp only [coreStep, here, Option.some.injEq] at run
    exact run ▸ gains_inv inv here
  | releaseLock work =>
    simp only [coreStep, here, Option.some.injEq] at run
    subst run
    have free : s.activeThreadsSpinlock = none := freeActive rfl
    have clear : work.Holds = false := by
      have none := owned_free (free ▸ inv.active) (s.currentThread c)
      simpa [here, Place.HoldsActive, Place.work, Place.Releases] using none
    exact moved_inv inv here ⟨rfl,rfl⟩ (fun _ => id) ⟨rfl,rfl,rfl⟩ rfl (.inl ⟨rfl,rfl⟩)
      (.inr (.inl ⟨free,by simp [Place.HoldsActive, Place.Releases],rfl⟩)) (fun _ => clear)
      (fun _ => .inr)
  | releaseRead work =>
    simp only [coreStep, here, Option.some.injEq] at run
    subst run
    exact moved_inv inv here ⟨rfl,rfl⟩ (fun _ => id) ⟨rfl,rfl,rfl⟩ rfl (.inl ⟨rfl,rfl⟩)
      (.inl ⟨rfl,rfl⟩) (fun _ => apart rfl) (fun active is => .inl (Option.some.inj is).symm)
  | releaseWrite work active =>
    simp only [coreStep, here, Option.some.injEq] at run
    subst run
    have clear : work.Holds = false := apart rfl
    refine written_inv inv here rfl ⟨rfl,rfl⟩ ⟨rfl,rfl,rfl⟩ rfl rfl
      (by simp [Place.HoldsActive, Place.Releases]) (fun _ => clear) ?_ (.inr ⟨rfl,rfl,rfl⟩)
    cases work <;> simp [Place.readAs, Place.work, Work.Holds] at clear ⊢
  | releaseUnlock work =>
    simp only [coreStep, here, Option.some.injEq] at run
    subst run
    have clear : work.Holds = false := apart rfl
    exact moved_inv inv here ⟨rfl,rfl⟩ (fun _ => id) ⟨rfl,rfl,rfl⟩ rfl (.inl ⟨rfl,rfl⟩)
      (.inr (.inr ⟨by simp [Place.HoldsActive, Place.Releases],
        by simpa [Place.HoldsActive, Place.work, Place.Releases] using clear,rfl⟩))
      (by simp [Place.Releases]) (fun _ => .inr)
  | gainUnlock work =>
    simp only [coreStep, here, Option.some.injEq] at run
    subst run
    exact moved_inv inv here ⟨rfl,rfl⟩ (fun _ => id) ⟨rfl,rfl,rfl⟩ rfl (.inr (.inr ⟨rfl,rfl,rfl⟩))
      (.inl ⟨rfl,rfl⟩) (by simp [Place.Releases]) (fun _ => .inr)

theorem select_inv (inv : SpinInv s) {next : TcbRef Core} {work : Work}
    (here : s.place (s.currentThread c) = .yieldInside work)
    (able : Selectable s c (s.currentThread c) next)
    (run : switches s c (s.currentThread c) next work = some s') : SpinInv s' := by
  have exist (u : TcbRef Core) (gone : Function.update s.state (s.currentThread c)
      (yielded (s.state (s.currentThread c))) u = none) : s.state u = none := by
    by_cases same : u = s.currentThread c
    · subst same
      simp only [Function.update_self, yielded] at gone
      split at gone
      · cases gone
      · exact gone
    · simpa [same] using gone
  simp only [switches] at run
  split at run
  · cases run
    exact moved_inv inv here ⟨rfl,rfl⟩ exist ⟨rfl,rfl,rfl⟩ rfl (.inr (.inr ⟨rfl,rfl,rfl⟩))
      (.inl ⟨rfl,rfl⟩) (by simp [Place.Releases]) (fun _ => .inr)
  · rename_i other
    obtain ⟨_,ready,_⟩ := able.resolve_left fun same => other same.1
    split at run
    · rename_i work' there
      cases run
      exact switch_inv inv here there ready _ exist _
    · cases run

theorem spin_act_inv (inv : SpinInv s) {a : Action Core} (enabled : Enabled s a)
    (run : act s a = some s') : SpinInv s' := by
  cases a with
  | step c => exact core_step_inv inv enabled run
  | enter | leave =>
    cases run
    exact { inv with }
  | spawn c addr =>
    obtain ⟨here,_,fresh⟩ := enabled
    simp only [act, Option.some.injEq] at run
    subst run
    have unborn : Function.update s.place (.thread addr) (.out .user) = s.place :=
      Function.update_eq_self_iff.mpr (inv.unborn _ fresh).symm
    have places : Function.update (Function.update s.place (.thread addr) (.out .user))
        (s.currentThread c) (.on .spawnLock) =
          Function.update s.place (s.currentThread c) (.on .spawnLock) := by rw [unborn]
    exact moved_inv inv here ⟨rfl,places⟩ set_exist
      ⟨rfl,rfl,rfl⟩ rfl (.inl ⟨rfl,rfl⟩) (.inl ⟨rfl,rfl⟩) (by simp [Place.Releases])
      (by simp [Place.readAs, Place.work])
  | call c tcb =>
    simp only [act] at run
    split at run
    · rename_i work here
      cases run
      exact moved_inv inv here ⟨rfl,rfl⟩ (fun _ => id) ⟨rfl,rfl,rfl⟩ rfl (.inl ⟨rfl,rfl⟩)
        (.inl ⟨rfl,rfl⟩) (by simp [Place.Releases]) (fun _ => .inr)
    · cases run
  | sleep c state =>
    simp only [act, Option.some.injEq] at run
    subst run
    exact moved_inv inv enabled.1 ⟨rfl,rfl⟩ (fun _ => id) ⟨rfl,rfl,rfl⟩ rfl (.inl ⟨rfl,rfl⟩)
      (.inl ⟨rfl,rfl⟩) (by simp [Place.Releases]) (fun _ => .inr)
  | yield c =>
    simp only [act] at run
    split at run
    · rename_i work here
      cases run
      exact moved_inv inv here ⟨rfl,rfl⟩ (fun _ => id) ⟨rfl,rfl,rfl⟩ rfl (.inl ⟨rfl,rfl⟩)
        (.inl ⟨rfl,rfl⟩) (by simp [Place.Releases]) (fun _ => .inr)
    · cases run
  | select c next =>
    simp only [act] at run
    split at run
    · rename_i work here
      exact select_inv inv here enabled.2 run
    · cases run

theorem spin_inductive : (spinSystem : Machine (Spin Core) (Action Core)).Inductive SpinInv where
  start _ first := first ▸ initial_spin_inv
  step _ _ _ inv move := spin_act_inv inv move.1 move.2

theorem calm_go (calm : Calm s) {t : TcbRef Core}
    (frame : s'.place = Function.update s.place t place)
    (here : place.On = false → place.work.Holds = false) : Calm s' := by
  intro u off
  rw [frame] at off ⊢
  by_cases same : u = t
  · subst same
    rw [Function.update_self] at off ⊢
    exact here off
  · rw [Function.update_of_ne same] at off ⊢
    exact calm u off

theorem calm_core (calm : Calm s) (run : coreStep s c = some s') : Calm s' := by
  have was := calm (s.currentThread c)
  cases here : s.place (s.currentThread c) with rw [here] at was
  | on work =>
    cases work <;> simp only [coreStep, here, Option.some.injEq, reduceCtorEq] at run
    all_goals subst run
    all_goals exact calm_go calm rfl (by simp [Place.On])
  | yieldInside work | out work => simp [coreStep, here] at run
  | wakeupInside work tcb =>
    simp only [coreStep, here, Option.some.injEq] at run
    subst run
    unfold wakes
    split <;> exact calm_go calm rfl (by simp [Place.On])
  | gainInside work =>
    simp only [coreStep, here, gains, takeCare, Option.some.injEq] at run
    subst run
    split
    · exact calm_go calm rfl was
    · split
      · exact calm_go calm rfl was
      · exact calm_go calm rfl was
  | sleepInside state =>
    simp only [coreStep, here, Option.some.injEq] at run
    subst run
    exact calm_go calm rfl (fun _ => rfl)
  | gainUnlock work =>
    simp only [coreStep, here, Option.some.injEq] at run
    subst run
    exact calm_go calm rfl (by simp [Place.On])
  | wakeupLock | sleepLock | yieldLock | gainLock | releaseLock | releaseRead | releaseWrite
  | releaseUnlock =>
    simp only [coreStep, here, Option.some.injEq] at run
    subst run
    exact calm_go calm rfl was

theorem calm_select (calm : Calm s) {next : TcbRef Core} {work : Work}
    (here : s.place (s.currentThread c) = .yieldInside work)
    (run : switches s c (s.currentThread c) next work = some s') : Calm s' := by
  have was := calm (s.currentThread c)
  rw [here] at was
  simp only [switches] at run
  split at run
  · cases run
    exact calm_go calm rfl was
  · split at run
    · rename_i work' there
      cases run
      have was' : s.place next = .out work' := there
      have went := calm next
      rw [was'] at went
      have left : Calm (s.go (s.currentThread c) (.out work)) := calm_go calm rfl was
      exact calm_go left rfl went
    · cases run

theorem calm_step {a : Action Core}
    (calm : Calm s) (move : (spinSystem.restrict Masked).Step s a s') : Calm s' := by
  obtain ⟨⟨enabled,run⟩,masked⟩ := restrict_step move
  cases a with
  | step c => exact calm_core calm run
  | enter | leave =>
    cases run
    exact calm
  | spawn c addr =>
    simp only [spinSystem, act, Option.some.injEq] at run
    subst run
    have fresh : Calm (s.go (.thread addr) (.out .user)) := calm_go calm rfl (fun _ => rfl)
    exact calm_go fresh rfl (by simp [Place.On])
  | sleep c state =>
    simp only [spinSystem, act, Option.some.injEq] at run
    subst run
    exact calm_go calm rfl (fun _ => rfl)
  | call c tcb =>
    simp only [spinSystem, act] at run
    split at run
    · rename_i work here
      cases run
      simp only [Masked, here] at masked
      exact calm_go calm rfl (fun _ => masked)
    · cases run
  | yield c =>
    simp only [spinSystem, act] at run
    split at run
    · rename_i work here
      cases run
      simp only [Masked, here] at masked
      exact calm_go calm rfl (fun _ => masked)
    · cases run
  | select c next =>
    simp only [spinSystem, act] at run
    split at run
    · rename_i work here
      exact calm_select calm here run
    · cases run

theorem calm_reach (reach : (spinSystem.restrict Masked).Reach s) : Calm s := by
  induction reach with
  | start first =>
    subst first
    intro t off
    cases t with
    | idle c => cases off
    | thread addr => rfl
  | step before move ih => exact calm_step ih move

/-- A core that spins with preemption off waits for a thread that is on a core and does not spin
    itself, at once or through one that spins on active_threads_spinlock, unless the thread that has
    active_threads_spinlock was interrupted in spawn_thread. That never happens where no such thread
    takes an interrupt. And no update of active_threads is lost. -/
theorem spinning_core_waits (reach : spinSystem.Reach s) :
    (∀ c, Spins s (s.currentThread c) → Interrupted s ∨
      ∃ d, ¬ Spins s (s.currentThread d) ∧
        (s.schedSpinlock = some (s.currentThread d) ∨
          s.activeThreadsSpinlock = some (s.currentThread d))) ∧
    ((spinSystem.restrict Masked).Reach s → ¬ Interrupted s) ∧
    s.activeThreads = UInt32.ofNat s.spawned - UInt32.ofNat s.released := by
  have inv := inductive_reach spin_inductive reach
  refine ⟨fun c spins => ?_,fun masked => ?_,inv.count⟩
  · by_cases interrupted : Interrupted s
    · exact .inl interrupted
    · right
      by_cases taken : s.activeThreadsSpinlock ≠ none
      · obtain ⟨d,has,runs⟩ := active_holder inv taken interrupted
        exact ⟨d,runs,.inr has⟩
      · -- sched_spinlock is taken, and its holder does not wait for the other one.
        have sched : s.schedSpinlock ≠ none := by
          rcases spins with ⟨_,sched⟩ | ⟨_,active⟩
          · exact sched
          · exact absurd active taken
        obtain ⟨d,has,holds⟩ := sched_holder inv sched
        refine ⟨d,?_,.inl has⟩
        rintro (⟨locks,_⟩ | ⟨_,active⟩)
        · cases is : s.place (s.currentThread d) <;> simp_all [Place.LocksSched, Place.HoldsSched]
        · exact taken active
  · rintro ⟨t,_,off,holds⟩
    rw [calm_reach masked t off] at holds
    cases holds

end Steps

/- Thread 2, on the core true, has exited and given up the kernel when thread 1, on the core false,
   takes active_threads_spinlock in spawn_thread and is interrupted: its yield needs sched_spinlock,
   which the gain of the other core has while it releases thread 2. -/
def spawnInterrupted : List (Action Bool) :=
  [.enter false,.spawn false 1,.step false,.step false,.step false,.step false,
    .call false (.thread 1),.step false,.step false,.leave false,
    .yield false,.step false,.select false (.thread 1),.step false,.step false,.step false,
    .enter false,.spawn false 2,.step false,.step false,.step false,.step false,
    .call false (.thread 2),.step false,.step false,.leave false,
    .yield true,.step true,.select true (.thread 2),.step true,.step true,.step true,
    .enter true,.leave true,.sleep true .exited,.step true,.step true,
    .enter false,.spawn false 3,.step false,.yield false,
    .step true,.select true (.idle true),.step true,.step true]

def stuck : Spin Bool := (spinSystem.play initial spawnInterrupted).getD initial

theorem stuck_reach : spinSystem.Reach stuck := play_reach rfl spawnInterrupted rfl

/-- No step is possible then. -/
theorem interrupted_spawn_deadlocks : spinSystem.Reach stuck ∧ Interrupted stuck ∧
    ∀ a, ¬ spinSystem.enabled stuck a := by
  have first : stuck.place (stuck.currentThread false) = .yieldLock .spawnRead := rfl
  have second : stuck.place (stuck.currentThread true) = .releaseLock .user := rfl
  refine ⟨stuck_reach,⟨.thread 1,rfl,rfl,rfl⟩,fun a enabled => ?_⟩
  cases a with
  | step c =>
    cases c with
    | false => cases enabled.2.2.1 rfl
    | true => cases enabled.2.2.2 rfl
  | enter c =>
    cases c with
    | false => cases first.symm.trans enabled.1
    | true => cases second.symm.trans enabled.1
  | leave c =>
    cases c with
    | false => cases first.symm.trans enabled.1
    | true => cases second.symm.trans enabled.1
  | spawn c addr =>
    cases c with
    | false => cases first.symm.trans enabled.1
    | true => cases second.symm.trans enabled.1
  | call c tcb => cases c <;> cases enabled.1
  | sleep c state =>
    cases c with
    | false => cases first.symm.trans enabled.1
    | true => cases second.symm.trans enabled.1
  | yield c => cases c <;> cases enabled
  | select c next => cases c <;> cases enabled.1

theorem spinning_core_waits_stuck : Spins stuck (stuck.currentThread false) ∧ (Interrupted stuck ∨
    ∃ d, ¬ Spins stuck (stuck.currentThread d) ∧
      (stuck.schedSpinlock = some (stuck.currentThread d) ∨
        stuck.activeThreadsSpinlock = some (stuck.currentThread d))) := by
  have spins : Spins stuck (stuck.currentThread false) :=
    .inl ⟨rfl,Option.some_ne_none (TcbRef.idle true)⟩
  exact ⟨spins,(spinning_core_waits stuck_reach).1 false spins⟩

end Spinlocks
