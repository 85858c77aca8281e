import TinyOS.MutexLock

/- How long a thread spins in Mutex_Lock: with preemption off on its core until it has the lock,
   with preemption on for MUTEX_SPINS loads; and on one core not at all, or for ever. -/
namespace MutexLock
open Transition

section Spins
variable {Thread Core : Type} {s : Lock Thread Core}

theorem same_thread [Subsingleton Core] {spins : Nat} (inv : LockInv spins s) {t u : Thread}
    (runs : s.core t ≠ none) (runs' : s.core u ≠ none) : t = u := by
  obtain ⟨c,is⟩ := Option.ne_none_iff_exists'.mp runs
  obtain ⟨d,is'⟩ := Option.ne_none_iff_exists'.mp runs'
  exact inv.alone t u c is (Subsingleton.elim d c ▸ is')

structure OneCoreInv (spins : Nat) (s : Lock Thread Core) : Prop extends LockInv spins s where
  held : ∀ t, s.place t = .holding → s.core t ≠ none
  quiet : ∀ t, (∀ spin, s.place t ≠ .loading spin) ∧ s.place t ≠ .yielding

/- On one core whoever comes to the test and set finds the lock free. -/
theorem free_at_test [Subsingleton Core] {spins : Nat} (inv : OneCoreInv spins s) {t : Thread}
    (runs : s.core t ≠ none) (tests : s.place t = .testing) : s.word = false := by
  by_contra taken
  obtain ⟨u,owner⟩ := Option.ne_none_iff_exists'.mp (inv.word.mp (by simpa using taken))
  have holds := (inv.holds u).mpr owner
  have same := same_thread inv.toLockInv runs (inv.held u holds)
  rw [same, holds] at tests
  cases tests

theorem one_core_goes [Subsingleton Core] {spins : Nat} (inv : OneCoreInv spins s) {t : Thread}
    {place : Place} {loads : Nat} (runs : s.core t ≠ none) : ¬ Goes spins s t place loads := by
  intro goes
  cases goes with
  | fail tests word => simp [free_at_test inv runs tests] at word
  | load spin loads => exact (inv.quiet t).1 _ loads
  | rest loads | again loads => exact (inv.quiet t).1 _ loads
  | free spin loads => exact (inv.quiet t).1 _ loads
  | back yields => exact (inv.quiet t).2 yields

variable [DecidableEq Thread] {cores : Nat} {s' : Lock Thread Core}

def Action.stepOf (t : Thread) : Action Thread → Bool
  | .step u => u = t
  | _ => false

theorem step_of_iff {a : Action Thread} {t : Thread} : a.stepOf t = true ↔ a = .step t := by
  cases a <;> simp [Action.stepOf]

/- A thread that spins is moved by its own steps only; with preemption off it stays on its core. -/
theorem spinner_kept {spins : Nat} {a : Action Thread} (did : Did spins s a s') {t : Thread}
    (spinning : (s.place t).Spins = true) : a = .step t ∨
    s'.place t = s.place t ∧ s'.interrupts t = s.interrupts t ∧
      (s.interrupts t = false → s.core t ≠ none → s'.core t = s.core t) := by
  cases did with
  | called u runs out =>
    have other : t ≠ u := fun same => by simp [same, out, Place.Spins] at spinning
    exact .inr ⟨Function.update_of_ne other _ _,rfl,fun _ _ => rfl⟩
  | went u place loads runs goes =>
    by_cases same : u = t
    · exact .inl (same ▸ rfl)
    · exact .inr ⟨Function.update_of_ne (Ne.symm same) _ _,rfl,fun _ _ => rfl⟩
  | took u runs tests word =>
    by_cases same : u = t
    · exact .inl (same ▸ rfl)
    · exact .inr ⟨Function.update_of_ne (Ne.symm same) _ _,rfl,fun _ _ => rfl⟩
  | gave u runs holds =>
    have other : t ≠ u := fun same => by simp [same, holds, Place.Spins] at spinning
    exact .inr ⟨Function.update_of_ne other _ _,rfl,fun _ _ => rfl⟩
  | preempted u on runs free =>
    have other : t ≠ u := by
      intro same
      subst same
      cases is : s.place t <;> simp_all [Place.Spins, Place.Free]
    exact .inr ⟨rfl,Function.update_of_ne other _ _,fun _ _ => rfl⟩
  | switched u next runs idle leaves =>
    refine .inr ⟨rfl,rfl,fun off on => ?_⟩
    have stays : t ≠ u := by
      intro same
      subst same
      simp [leaves spinning] at off
    have had : t ≠ next := fun same => on (same ▸ idle)
    simp only [Function.update_of_ne stays, Function.update_of_ne had]

theorem loader_steps {spins : Nat} {t : Thread} {spin : Nat} (did : Did spins s (.step t) s')
    (loading : s.place t = .loading spin) (on : s.interrupts t = true) :
    s'.place t = .yielding ∨ s'.place t = .testing ∨
      ∃ left, spin = left + 1 ∧ s'.place t = .loading left ∧ s'.interrupts t = true := by
  cases did with
  | took _ runs tests => simp [loading] at tests
  | went _ place loads runs goes =>
    have at_ : ((s.go t place).count t loads).place t = place := Function.update_self _ _ _
    rw [at_]
    cases goes with
    | fail tests => simp [loading] at tests
    | load left loads =>
      rw [loading] at loads
      cases loads
      exact .inr (.inr ⟨left,rfl,rfl,on⟩)
    | rest => exact .inl rfl
    | again _ _ off => simp [on] at off
    | free => exact .inr (.inl rfl)
    | back yields => simp [loading] at yields

theorem spinner_steps {spins : Nat} {t : Thread} (did : Did spins s (.step t) s')
    (spinning : (s.place t).Spins = true) (off : s.interrupts t = false) :
    s'.core t = s.core t ∧ s'.interrupts t = false ∧
      (s'.place t = .holding ∧ s.word = false ∨ (s'.place t).Spins = true ∧ s'.word = s.word) := by
  cases did with
  | took _ runs tests word => exact ⟨rfl,off,.inl ⟨Function.update_self _ _ _,word⟩⟩
  | went _ place loads runs goes =>
    have at_ : ((s.go t place).count t loads).place t = place := Function.update_self _ _ _
    rw [at_]
    cases goes with
    | fail | load | again | free => exact ⟨rfl,off,.inr ⟨rfl,rfl⟩⟩
    | rest _ _ on => simp [off] at on
    | back yields => simp [yields, Place.Spins] at spinning

/- The core is kept, with the spinning, until the lock is taken. -/
def Lock.SpinsOn (s : Lock Thread Core) (t : Thread) (c : Core) : Prop :=
  (s.place t).Spins = true ∧ s.interrupts t = false ∧ s.core t = some c

theorem spins_on_step {spins : Nat} {a : Action Thread} (did : Did spins s a s') {t : Thread}
    {c : Core} (kept : s.SpinsOn t c) :
    (s'.place t = .holding ∧ s'.core t = some c) ∨ s'.SpinsOn t c := by
  obtain ⟨spinning,off,on⟩ := kept
  rcases spinner_kept did spinning with own | ⟨place,same,stays⟩
  · subst own
    obtain ⟨core,off',done | ⟨still,_⟩⟩ := spinner_steps did spinning off
    · exact .inl ⟨done.1,core.trans on⟩
    · exact .inr ⟨still,off',core.trans on⟩
  · refine .inr ⟨place ▸ spinning,same.trans off,?_⟩
    exact (stays off (by simp [on])).trans on

theorem loading_step {a : Action Thread} {t : Thread} {n : Nat}
    (move : (mutexSystem cores).Step s a s')
    (waits : ∃ spin, s.place t = .loading spin ∧ s.interrupts t = true ∧ spin ≤ n) :
    (s'.place t = .yielding ∨ s'.place t = .testing) ∨
      ∃ n', (∃ spin, s'.place t = .loading spin ∧ s'.interrupts t = true ∧ spin ≤ n') ∧
        n' + (if a.stepOf t then 1 else 0) ≤ n := by
  obtain ⟨spin,loading,on,less⟩ := waits
  by_cases own : a.stepOf t = true
  · rw [step_of_iff] at own
    subst own
    rcases loader_steps (step_did move) loading on with yields | tests | ⟨left,is,still,on'⟩
    · exact .inl (.inl yields)
    · exact .inl (.inr tests)
    · refine .inr ⟨left,⟨left,still,on',Nat.le_refl _⟩,?_⟩
      simp only [Action.stepOf, decide_true, if_true]
      omega
  · have spinning : (s.place t).Spins = true := by rw [loading]; rfl
    obtain ⟨place,same,_⟩ := (spinner_kept (step_did move) spinning).resolve_left
      fun is => own (step_of_iff.mpr is)
    exact .inr ⟨n,⟨spin,place.trans loading,same.trans on,less⟩,by simp [own]⟩

theorem spinning_on : spinning.SpinsOn false () := ⟨rfl,rfl,rfl⟩

def loadTwice : Lock Bool Unit :=
  ((mutexSystem 1).play spinning [.step false,.step false]).getD spinning

theorem load_twice_runs : (mutexSystem 1).Runs spinning [.step false,.step false] loadTwice :=
  play_runs (mutexSystem 1) _ spinning loadTwice rfl

/-- The mutex is a spinlock if preemption is off and yields if it is on: a thread that spins in
    Mutex_Lock with preemption off keeps its core until it has the lock; one whose loop has `spin`
    loads left with preemption on has, after more than that many steps of its own, come to yield
    or found the lock free. -/
theorem spins_or_yields (cores : Nat) (t : Thread) (s s' : Lock Thread Core)
    (as : List (Action Thread)) (runs : (mutexSystem cores).Runs s as s') :
    (∀ c, s.SpinsOn t c → s'.SpinsOn t c ∨
      ∃ first rest mid, as = first ++ rest ∧ (mutexSystem cores).Runs s first mid ∧
        (mutexSystem cores).Runs mid rest s' ∧ mid.place t = .holding ∧ mid.core t = some c) ∧
    ∀ spin, s.place t = .loading spin → s.interrupts t = true → spin < as.countP (·.stepOf t) →
      ∃ first rest mid, as = first ++ rest ∧ (mutexSystem cores).Runs s first mid ∧
        (mutexSystem cores).Runs mid rest s' ∧
          (mid.place t = .yielding ∨ mid.place t = .testing) := by
  constructor
  · intro c kept
    exact kept_unless (fun s a s' kept move => spins_on_step (step_did move) kept) runs kept
  · intro spin loading on enough
    exact served_within (fun s a s' n waits move => loading_step move waits) runs spin
      ⟨spin,loading,on,Nat.le_refl _⟩ enough

theorem spins_or_yields_twice : (mutexSystem 1).Runs spinning [.step false,.step false] loadTwice ∧
    (loadTwice.SpinsOn false () ∨ ∃ first rest mid, [.step false,.step false] = first ++ rest ∧
      (mutexSystem 1).Runs spinning first mid ∧ (mutexSystem 1).Runs mid rest loadTwice ∧
        mid.place false = .holding ∧ mid.core false = some ()) :=
  ⟨load_twice_runs,
    (spins_or_yields 1 false spinning loadTwice _ load_twice_runs).1 () spinning_on⟩

/- No thread leaves its core while it has the lock. -/
def KeepsCore (s : Lock Thread Core) : Action Thread → Prop
  | .switch t _ => s.place t ≠ .holding
  | _ => True

instance keepsCoreDecidable (s : Lock Thread Core) (a : Action Thread) :
    Decidable (KeepsCore s a) :=
  match a with
  | .switch t _ => inferInstanceAs (Decidable (s.place t ≠ .holding))
  | .lock _ | .step _ | .unlock _ | .preempt _ _ => inferInstanceAs (Decidable True)

instance keepingDecidable [DecidableEq Core] (s : Lock Thread Core) (a : Action Thread) :
    Decidable (((mutexSystem cores).restrict KeepsCore).enabled s a) :=
  inferInstanceAs (Decidable (Enabled s a ∧ KeepsCore s a))

theorem moved_quiet {t : Thread} {place : Place}
    (quiet : ∀ u, (∀ spin, s.place u ≠ .loading spin) ∧ s.place u ≠ .yielding)
    (free : place.Free = true ∨ place = .testing) (u : Thread) :
    (∀ spin, (s.go t place).place u ≠ .loading spin) ∧ (s.go t place).place u ≠ .yielding := by
  by_cases same : u = t
  · subst same
    rcases free with free | rfl <;> simp only [Lock.go, Function.update_self]
    · cases place <;> simp_all [Place.Free]
    · simp
  · simpa only [Lock.go, Function.update_of_ne same] using quiet u

theorem one_core_inv [Subsingleton Core] :
    ((mutexSystem cores : Machine (Lock Thread Core) (Action Thread)).restrict KeepsCore).Inductive
      (OneCoreInv (mutexSpins cores)) where
  start s first :=
    { lock_inv.start s first with
      held := by simp [first.2.2.2.1]
      quiet := by simp [first.2.2.2.1] }
  step s a s' inv move := by
    obtain ⟨move,keeps⟩ := restrict_step move
    have locked := lock_inv.step s a s' inv.toLockInv move
    cases step_did move with
    | called t runs out =>
      refine { locked with held := ?_, quiet := moved_quiet inv.quiet (.inr rfl) }
      intro u holds
      by_cases same : u = t
      · simp [Lock.go, same] at holds
      · exact inv.held u (by simpa [Lock.go, same] using holds)
    | went t place loads runs goes => exact absurd goes (one_core_goes inv runs)
    | took t runs tests word =>
      refine { locked with held := ?_, quiet := moved_quiet inv.quiet (.inl rfl) }
      intro u holds
      by_cases same : u = t
      · exact same ▸ runs
      · exact inv.held u (by simpa [Lock.go, same] using holds)
    | gave t runs holds =>
      refine { locked with held := ?_, quiet := moved_quiet inv.quiet (.inl rfl) }
      intro u holds
      by_cases same : u = t
      · simp [Lock.go, same] at holds
      · exact inv.held u (by simpa [Lock.go, same] using holds)
    | preempted t on runs free => exact { locked with held := inv.held, quiet := inv.quiet }
    | switched t next runs idle leaves =>
      refine { locked with held := ?_, quiet := inv.quiet }
      intro u holds
      have other : u ≠ t := fun same => keeps (same ▸ holds)
      by_cases same : u = next
      · simpa [same, (same ▸ other : next ≠ t)] using runs
      · simpa [other, same] using inv.held u holds

theorem stuck_step [Subsingleton Core] {spins : Nat} {a : Action Thread} (did : Did spins s a s')
    (inv : LockInv spins s) {t : Thread} {c : Core} (kept : s.SpinsOn t c)
    (taken : s.word = true) : s'.SpinsOn t c ∧ s'.word = true := by
  obtain ⟨spinning,off,on⟩ := kept
  have runs : s.core t ≠ none := by simp [on]
  rcases spinner_kept did spinning with own | ⟨place,same,stays⟩
  · subst own
    obtain ⟨core,off',done | ⟨still,word⟩⟩ := spinner_steps did spinning off
    · exact absurd taken (by simp [done.2])
    · exact ⟨⟨still,off',core.trans on⟩,word.trans taken⟩
  · refine ⟨⟨place ▸ spinning,same.trans off,(stays off runs).trans on⟩,?_⟩
    cases did with
    | called | preempted | switched | went => exact taken
    | took u => rfl
    | gave u runs' holds =>
      have is := same_thread inv runs runs'
      subst is
      simp [holds, Place.Spins] at spinning

/-- On one core no thread ever waits for a mutex, as long as none leaves its core with the lock;
    and a thread that has once found it taken, with preemption off, spins for ever. -/
theorem one_core_mutex (cores : Nat) [Subsingleton Core] :
    (∀ s : Lock Thread Core, ((mutexSystem cores).restrict KeepsCore).Reach s →
      ∀ t, (∀ spin, s.place t ≠ .loading spin) ∧ s.place t ≠ .yielding) ∧
    ∀ (s s' : Lock Thread Core) (as : List (Action Thread)) (t : Thread) (c : Core),
      (mutexSystem cores).Reach s → (mutexSystem cores).Runs s as s' → s.SpinsOn t c →
        s.word = true → s'.SpinsOn t c ∧ s'.word = true := by
  refine ⟨fun s reach => (inductive_reach one_core_inv reach).quiet,?_⟩
  intro s s' as t c reach runs kept taken
  induction runs with
  | nil => exact ⟨kept,taken⟩
  | cons move rest ih =>
    have after := stuck_step (step_did move) (inductive_reach lock_inv reach) kept taken
    exact ih (.step reach move) after.1 after.2

def quietRun : List (Action Bool) :=
  [.lock true,.step true,.unlock true,.switch true false,.lock false,.step false]

theorem quiet_reach : ((mutexSystem 1).restrict KeepsCore).Reach
    (((mutexSystem 1).play twoThreads quietRun).getD twoThreads) :=
  play_reach (m := (mutexSystem 1).restrict KeepsCore) two_threads_started quietRun rfl

theorem one_core_mutex_two :
    (((mutexSystem 1).play twoThreads quietRun).getD twoThreads).place false ≠ .yielding ∧
      loadTwice.SpinsOn false () ∧ loadTwice.word = true :=
  ⟨((one_core_mutex 1).1 _ quiet_reach false).2,
    (one_core_mutex 1).2 spinning loadTwice _ false () spinning_reach load_twice_runs
      spinning_on rfl⟩

end Spins
end MutexLock
