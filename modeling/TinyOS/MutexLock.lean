import TinyOS.Transition

/- Mutex_Lock and Mutex_Unlock of kernel_cc.c, load by load, among threads that share cores: a test
   and set, and after one that fails a loop of loads. A thread with preemption on gives up its core
   when MUTEX_SPINS loads more have failed; one with preemption off spins on. -/
namespace MutexLock
open Transition

/- In the loop of loads with `spin` left, or in the yield of that loop. -/
inductive Place where
  | out | testing | loading (spin : Nat) | yielding | holding
  deriving DecidableEq, Repr

/- `interrupts` says for a thread whether its core takes interrupts while it runs. The last three
   are history: who took the lock last and has not given it back, all that took it, the last first,
   and how many loads of a thread have failed since its last test and set or yield. -/
structure Lock (Thread Core : Type) where
  word : Bool
  core : Thread → Option Core
  interrupts : Thread → Bool
  place : Thread → Place
  owner : Option Thread
  taken : List Thread
  loads : Thread → Nat

/- `step` goes on in Mutex_Lock; `switch` gives the core of one thread to another, and `preempt` is
   cpu_disable_interrupts or cpu_enable_interrupts. -/
inductive Action (Thread : Type) where
  | lock (t : Thread)
  | step (t : Thread)
  | unlock (t : Thread)
  | preempt (t : Thread) (on : Bool)
  | switch (t next : Thread)

def mutexSpins (cores : Nat) : Nat := if cores > 1 then 1000 else 10000

section Steps
variable {Thread Core : Type} [DecidableEq Thread]

def Lock.go (s : Lock Thread Core) (t : Thread) (place : Place) : Lock Thread Core :=
  { s with place := Function.update s.place t place }

def Lock.count (s : Lock Thread Core) (t : Thread) (loads : Nat) : Lock Thread Core :=
  { s with loads := Function.update s.loads t loads }

def testAndSet (s : Lock Thread Core) (spins : Nat) (t : Thread) : Lock Thread Core :=
  if s.word then (s.go t (.loading spins)).count t 0
  else { s.go t .holding with word := true, owner := some t, taken := t :: s.taken }

def loadWord (s : Lock Thread Core) (spins : Nat) (t : Thread) (spin : Nat) : Lock Thread Core :=
  if s.word then
    let s := s.count t (s.loads t + 1)
    if spin > 0 then s.go t (.loading (spin - 1))
    else if s.interrupts t then s.go t .yielding
    else s.go t (.loading spins)
  else s.go t .testing

def mutexLock (s : Lock Thread Core) (spins : Nat) (t : Thread) : Option (Lock Thread Core) :=
  match s.place t with
  | .out | .holding => none
  | .testing => some (testAndSet s spins t)
  | .loading spin => some (loadWord s spins t spin)
  | .yielding => some ((s.go t (.loading spins)).count t 0)

def mutexUnlock (s : Lock Thread Core) (t : Thread) : Lock Thread Core :=
  { s.go t .out with word := false, owner := none }

def act (cores : Nat) (s : Lock Thread Core) : Action Thread → Option (Lock Thread Core)
  | .lock t => some (s.go t .testing)
  | .step t => mutexLock s (mutexSpins cores) t
  | .unlock t => some (mutexUnlock s t)
  | .preempt t on => some { s with interrupts := Function.update s.interrupts t on }
  | .switch t next =>
    some { s with core := Function.update (Function.update s.core next (s.core t)) t none }

/- Between the call of Mutex_Lock and its return, outside of the yield. -/
def Place.Spins : Place → Bool
  | .testing | .loading _ => true
  | _ => false

/- Outside of Mutex_Lock. -/
def Place.Free : Place → Bool
  | .out | .holding => true
  | _ => false

/- A lock is given back by the thread that has it, and is not taken twice by one thread. A thread
   leaves its core in a yield, its own or that of the handler of ALARM. -/
def Enabled (s : Lock Thread Core) : Action Thread → Prop
  | .lock t => s.core t ≠ none ∧ s.place t = .out
  | .step t => s.core t ≠ none ∧ (s.place t).Free = false
  | .unlock t => s.core t ≠ none ∧ s.place t = .holding
  | .preempt t _ => s.core t ≠ none ∧ (s.place t).Free = true
  | .switch t next =>
    s.core t ≠ none ∧ s.core next = none ∧
      ((s.place t).Spins = true → s.interrupts t = true)

instance enabledDecidable [DecidableEq Core] (s : Lock Thread Core) (a : Action Thread) :
    Decidable (Enabled s a) :=
  match a with
  | .lock _ => inferInstanceAs (Decidable (_ ∧ _))
  | .step _ => inferInstanceAs (Decidable (_ ∧ _))
  | .unlock _ => inferInstanceAs (Decidable (_ ∧ _))
  | .preempt _ _ => inferInstanceAs (Decidable (_ ∧ _))
  | .switch _ _ => inferInstanceAs (Decidable (_ ∧ _ ∧ (_ → _)))

/- Every core runs at most one thread, and no thread has called Mutex_Lock. -/
def Started (s : Lock Thread Core) : Prop :=
  s.word = false ∧ s.owner = none ∧ s.taken = [] ∧ (∀ t, s.place t = .out) ∧
    ∀ t t' c, s.core t = some c → s.core t' = some c → t = t'

def mutexSystem (cores : Nat) : Machine (Lock Thread Core) (Action Thread) where
  start := Started
  enabled := Enabled
  exec := act cores

instance mutexSystemDecidable [DecidableEq Core] (cores : Nat) (s : Lock Thread Core)
    (a : Action Thread) : Decidable ((mutexSystem cores).enabled s a) :=
  inferInstanceAs (Decidable (Enabled s a))

end Steps

/- What a lock is for: it has one owner or none, and only the owner gives it back. -/
structure OwnerLock (Thread : Type) where
  owner : Option Thread
  taken : List Thread

inductive LockAction (Thread : Type) where
  | take (t : Thread)
  | give (t : Thread)

def ownerLock {Thread : Type} : Machine (OwnerLock Thread) (LockAction Thread) where
  start l := l.owner = none ∧ l.taken = []
  enabled l
    | .take _ => l.owner = none
    | .give t => l.owner = some t
  exec l
    | .take t => some ⟨some t,t :: l.taken⟩
    | .give _ => some ⟨none,l.taken⟩

section Proofs
variable {Thread Core : Type} {s : Lock Thread Core}

/- The steps in Mutex_Lock that leave the lock alone, with the loads that have failed after them. -/
inductive Goes (spins : Nat) (s : Lock Thread Core) (t : Thread) : Place → Nat → Prop where
  | fail (tests : s.place t = .testing) (word : s.word = true) : Goes spins s t (.loading spins) 0
  | load (spin : Nat) (loads : s.place t = .loading (spin + 1)) (word : s.word = true) :
      Goes spins s t (.loading spin) (s.loads t + 1)
  | rest (loads : s.place t = .loading 0) (word : s.word = true) (on : s.interrupts t = true) :
      Goes spins s t .yielding (s.loads t + 1)
  | again (loads : s.place t = .loading 0) (word : s.word = true)
      (off : s.interrupts t = false) : Goes spins s t (.loading spins) (s.loads t + 1)
  | free (spin : Nat) (loads : s.place t = .loading spin) (word : s.word = false) :
      Goes spins s t .testing (s.loads t)
  | back (yields : s.place t = .yielding) : Goes spins s t (.loading spins) 0

structure LockInv (spins : Nat) (s : Lock Thread Core) : Prop where
  alone : ∀ t t' c, s.core t = some c → s.core t' = some c → t = t'
  word : s.word = true ↔ s.owner ≠ none
  holds : ∀ t, s.place t = .holding ↔ s.owner = some t
  spun : ∀ t spin, s.place t = .loading spin → s.interrupts t = true → s.loads t + spin = spins
  yields : ∀ t, s.place t = .yielding → s.interrupts t = true ∧ s.loads t = spins + 1

theorem goes_place {spins : Nat} {t : Thread} {place : Place} {loads : Nat}
    (goes : Goes spins s t place loads) : s.place t ≠ .holding ∧ place ≠ .holding := by
  cases goes <;> simp_all

theorem goes_spun {spins : Nat} (inv : LockInv spins s) {t : Thread} {place : Place} {loads : Nat}
    (goes : Goes spins s t place loads) (spin : Nat) (is : place = .loading spin)
    (on : s.interrupts t = true) : loads + spin = spins := by
  cases goes with
  | free | rest => cases is
  | fail | back => cases is; omega
  | load spin loads =>
    cases is
    have := inv.spun t _ loads on
    omega
  | again _ _ off => exact absurd on (by simp [off])

theorem goes_yields {spins : Nat} (inv : LockInv spins s) {t : Thread} {place : Place}
    {loads : Nat} (goes : Goes spins s t place loads) (is : place = .yielding) :
    s.interrupts t = true ∧ loads = spins + 1 := by
  cases goes with
  | rest loads _ on => exact ⟨on,by have := inv.spun t 0 loads on; omega⟩
  | fail | load | again | free | back => cases is

variable [DecidableEq Thread] {cores : Nat} {s' : Lock Thread Core}

inductive Did (spins : Nat) (s : Lock Thread Core) : Action Thread → Lock Thread Core → Prop where
  | called (t : Thread) (runs : s.core t ≠ none) (out : s.place t = .out) :
      Did spins s (.lock t) (s.go t .testing)
  | went (t : Thread) (place : Place) (loads : Nat) (runs : s.core t ≠ none)
      (goes : Goes spins s t place loads) : Did spins s (.step t) ((s.go t place).count t loads)
  | took (t : Thread) (runs : s.core t ≠ none) (tests : s.place t = .testing)
      (word : s.word = false) :
      Did spins s (.step t)
        { s.go t .holding with word := true, owner := some t, taken := t :: s.taken }
  | gave (t : Thread) (runs : s.core t ≠ none) (holds : s.place t = .holding) :
      Did spins s (.unlock t) { s.go t .out with word := false, owner := none }
  | preempted (t : Thread) (on : Bool) (runs : s.core t ≠ none) (free : (s.place t).Free = true) :
      Did spins s (.preempt t on) { s with interrupts := Function.update s.interrupts t on }
  | switched (t next : Thread) (runs : s.core t ≠ none) (idle : s.core next = none)
      (leaves : (s.place t).Spins = true → s.interrupts t = true) :
      Did spins s (.switch t next)
        { s with core := Function.update (Function.update s.core next (s.core t)) t none }

@[simp] theorem count_interrupts (s : Lock Thread Core) (t : Thread) (loads : Nat) :
    (s.count t loads).interrupts = s.interrupts := rfl

theorem count_same (s : Lock Thread Core) (t : Thread) : s.count t (s.loads t) = s := by
  simp only [Lock.count, Function.update_eq_self]

theorem test_did {t : Thread} (spins : Nat) (runs : s.core t ≠ none)
    (tests : s.place t = .testing) : Did spins s (.step t) (testAndSet s spins t) := by
  cases word : s.word with
  | false =>
    simp only [testAndSet, word, Bool.false_eq_true, if_false]
    exact .took t runs tests word
  | true =>
    simp only [testAndSet, word, if_true]
    exact .went t _ 0 runs (.fail tests word)

theorem load_did {t : Thread} {spin : Nat} (spins : Nat) (runs : s.core t ≠ none)
    (loads : s.place t = .loading spin) : Did spins s (.step t) (loadWord s spins t spin) := by
  cases word : s.word with
  | false =>
    simp only [loadWord, word, Bool.false_eq_true, if_false]
    have did : Did spins s (.step t) _ := .went t .testing _ runs (.free spin loads word)
    exact (count_same (s.go t .testing) t) ▸ did
  | true =>
    cases spin with
    | succ spin =>
      simp only [loadWord, word, if_true, Nat.zero_lt_succ, Nat.add_sub_cancel]
      exact .went t _ _ runs (.load spin loads word)
    | zero =>
      cases on : s.interrupts t with
      | true =>
        simp only [loadWord, word, if_true, Nat.lt_irrefl, if_false, count_interrupts, on]
        exact .went t _ _ runs (.rest loads word on)
      | false =>
        simp only [loadWord, word, if_true, Nat.lt_irrefl, if_false, count_interrupts, on,
          Bool.false_eq_true]
        exact .went t _ _ runs (.again loads word on)

theorem step_did {a : Action Thread} (move : (mutexSystem cores).Step s a s') :
    Did (mutexSpins cores) s a s' := by
  obtain ⟨enabled,run⟩ := move
  cases a with
  | lock t =>
    cases run
    exact .called t enabled.1 enabled.2
  | step t =>
    simp only [mutexSystem, act, mutexLock] at run
    cases at_ : s.place t with
    | out => simp only [at_, reduceCtorEq] at run
    | holding => simp only [at_, reduceCtorEq] at run
    | testing =>
      simp only [at_, Option.some.injEq] at run
      exact run ▸ test_did _ enabled.1 at_
    | loading spin =>
      simp only [at_, Option.some.injEq] at run
      exact run ▸ load_did _ enabled.1 at_
    | yielding =>
      simp only [at_, Option.some.injEq] at run
      exact run ▸ .went t _ 0 enabled.1 (.back at_)
  | unlock t =>
    cases run
    exact .gave t enabled.1 enabled.2
  | preempt t on =>
    cases run
    exact .preempted t on enabled.1 enabled.2
  | switch t next =>
    cases run
    exact .switched t next enabled.1 enabled.2.1 enabled.2.2

/- Who leaves the places of the lock as they are leaves its invariant. -/
theorem went_inv {spins : Nat} (inv : LockInv spins s) {t : Thread} {place : Place} {loads : Nat}
    (goes : Goes spins s t place loads) : LockInv spins ((s.go t place).count t loads) where
  alone := inv.alone
  word := inv.word
  holds u := by
    by_cases same : u = t
    · subst same
      have held := inv.holds u
      simp only [Lock.go, Lock.count, Function.update_self, (goes_place goes).2, false_iff]
      exact fun owner => (goes_place goes).1 (held.mpr owner)
    · simpa only [Lock.go, Lock.count, Function.update_of_ne same] using inv.holds u
  spun u spin is on := by
    by_cases same : u = t
    · subst same
      simp only [Lock.go, Lock.count, Function.update_self] at is on ⊢
      exact goes_spun inv goes spin is on
    · simp only [Lock.go, Lock.count, Function.update_of_ne same] at is on ⊢
      exact inv.spun u spin is on
  yields u is := by
    by_cases same : u = t
    · subst same
      simp only [Lock.go, Lock.count, Function.update_self] at is ⊢
      exact goes_yields inv goes is
    · simp only [Lock.go, Lock.count, Function.update_of_ne same] at is ⊢
      exact inv.yields u is

theorem called_inv {spins : Nat} (inv : LockInv spins s) {t : Thread} (out : s.place t = .out) :
    LockInv spins (s.go t .testing) where
  alone := inv.alone
  word := inv.word
  holds u := by
    by_cases same : u = t
    · subst same
      have held := inv.holds u
      simp only [out, reduceCtorEq, false_iff] at held
      simpa [Lock.go] using held
    · simpa [Lock.go, same] using inv.holds u
  spun u spin is on := by
    by_cases same : u = t
    · simp [Lock.go, same] at is
    · exact inv.spun u spin (by simpa [Lock.go, same] using is) on
  yields u is := by
    by_cases same : u = t
    · simp [Lock.go, same] at is
    · exact inv.yields u (by simpa [Lock.go, same] using is)

theorem took_inv {spins : Nat} (inv : LockInv spins s) {t : Thread} (word : s.word = false) :
    LockInv spins
      { s.go t .holding with word := true, owner := some t, taken := t :: s.taken } where
  alone := inv.alone
  word := by simp
  holds u := by
    have free : s.owner = none := by
      by_contra owned
      exact absurd (inv.word.mpr owned) (by simp [word])
    by_cases same : u = t
    · simp [Lock.go, same]
    · have held := inv.holds u
      simp only [free, reduceCtorEq, iff_false] at held
      simp [Lock.go, same, held, Ne.symm same]
  spun u spin is on := by
    by_cases same : u = t
    · simp [Lock.go, same] at is
    · exact inv.spun u spin (by simpa [Lock.go, same] using is) on
  yields u is := by
    by_cases same : u = t
    · simp [Lock.go, same] at is
    · exact inv.yields u (by simpa [Lock.go, same] using is)

theorem gave_inv {spins : Nat} (inv : LockInv spins s) {t : Thread} (holds : s.place t = .holding) :
    LockInv spins { s.go t .out with word := false, owner := none } where
  alone := inv.alone
  word := by simp
  holds u := by
    by_cases same : u = t
    · simp [Lock.go, same]
    · have owner := (inv.holds t).mp holds
      have held := inv.holds u
      simp only [owner, Option.some.injEq, Ne.symm same, iff_false] at held
      simp [Lock.go, same, held]
  spun u spin is on := by
    by_cases same : u = t
    · simp [Lock.go, same] at is
    · exact inv.spun u spin (by simpa [Lock.go, same] using is) on
  yields u is := by
    by_cases same : u = t
    · simp [Lock.go, same] at is
    · exact inv.yields u (by simpa [Lock.go, same] using is)

theorem preempted_inv {spins : Nat} (inv : LockInv spins s) {t : Thread} (on : Bool)
    (free : (s.place t).Free = true) :
    LockInv spins { s with interrupts := Function.update s.interrupts t on } :=
  { inv with
    spun := by
      intro u spin is onU
      by_cases same : u = t
      · subst same
        rw [show s.place u = .loading spin from is] at free
        cases free
      · exact inv.spun u spin is (by simpa [same] using onU)
    yields := by
      intro u is
      by_cases same : u = t
      · subst same
        rw [show s.place u = .yielding from is] at free
        cases free
      · simpa [same] using inv.yields u is }

theorem switched_alone (alone : ∀ t t' c, s.core t = some c → s.core t' = some c → t = t')
    (t next u u' : Thread) (c : Core)
    (runs : Function.update (Function.update s.core next (s.core t)) t none u = some c)
    (runs' : Function.update (Function.update s.core next (s.core t)) t none u' = some c) :
    u = u' := by
  have moved : ∀ v, Function.update (Function.update s.core next (s.core t)) t none v = some c →
      v ≠ t ∧ (v = next ∧ s.core t = some c ∨ s.core v = some c) := by
    intro v is
    by_cases left : v = t
    · simp [left] at is
    · by_cases got : v = next
      · subst got
        exact ⟨left,.inl ⟨rfl,by simpa [left] using is⟩⟩
      · exact ⟨left,.inr (by simpa [left, got] using is)⟩
  obtain ⟨left,is⟩ := moved u runs
  obtain ⟨left',is'⟩ := moved u' runs'
  rcases is with ⟨got,had⟩ | is <;> rcases is' with ⟨got',had'⟩ | is'
  · rw [got, got']
  · exact absurd (alone _ _ _ is' had) left'
  · exact absurd (alone _ _ _ is had') left
  · exact alone _ _ _ is is'

theorem lock_inv : (mutexSystem cores : Machine (Lock Thread Core) (Action Thread)).Inductive
    (LockInv (mutexSpins cores)) where
  start s first := by
    obtain ⟨word,owner,_,out,alone⟩ := first
    exact
      { alone := alone
        word := by simp [word, owner]
        holds := by simp [out, owner]
        spun := by simp [out]
        yields := by simp [out] }
  step s a s' inv move := by
    cases step_did move with
    | called t runs out => exact called_inv inv out
    | went t place loads runs goes => exact went_inv inv goes
    | took t runs tests word => exact took_inv inv word
    | gave t runs holds => exact gave_inv inv holds
    | preempted t on runs free => exact preempted_inv inv on free
    | switched t next runs idle leaves =>
      exact { inv with alone := switched_alone inv.alone t next }

/- A step of the lock is one of the lock with an owner, or leaves its owner as it is. -/
theorem step_owner {a : Action Thread} (inv : LockInv (mutexSpins cores) s)
    (move : (mutexSystem cores).Step s a s') :
    (⟨s'.owner,s'.taken⟩ : OwnerLock Thread) = ⟨s.owner,s.taken⟩ ∨
      ∃ b, ownerLock.Step ⟨s.owner,s.taken⟩ b ⟨s'.owner,s'.taken⟩ := by
  cases step_did move with
  | called | went | preempted | switched => exact .inl rfl
  | took t runs tests word =>
    have free : s.owner = none := by
      by_contra owned
      exact absurd (inv.word.mpr owned) (by simp [word])
    exact .inr ⟨.take t,free,rfl⟩
  | gave t runs holds => exact .inr ⟨.give t,(inv.holds t).mp holds,rfl⟩

/- Two threads on one core; the first is preempted with the lock, and the other calls Mutex_Lock
   with preemption off. -/
def twoThreads : Lock Bool Unit where
  word := false
  core t := if t then some () else none
  interrupts _ := true
  place _ := .out
  owner := none
  taken := []
  loads _ := 0

def preemptedOwner : List (Action Bool) :=
  [.lock true,.step true,.switch true false,.preempt false false,.lock false,.step false]

def spinning : Lock Bool Unit := ((mutexSystem 1).play twoThreads preemptedOwner).getD twoThreads

theorem two_threads_started : Started twoThreads :=
  ⟨rfl,rfl,rfl,fun _ => rfl,by decide⟩

theorem spinning_reach : (mutexSystem 1).Reach spinning :=
  play_reach two_threads_started preemptedOwner rfl

/-- Mutex_Lock is a lock with an owner: each step takes it, gives it up or leaves it alone, and a
    thread has returned from it exactly while it owns the lock, in the order in which the lock was
    taken. It yields only with preemption on, and each time after MUTEX_SPINS loads and one more
    have failed. -/
theorem mutex_owner_lock (cores : Nat) (s : Lock Thread Core)
    (reach : (mutexSystem cores).Reach s) :
    ownerLock.Reach ⟨s.owner,s.taken⟩ ∧
      (∀ a s', (mutexSystem cores).Step s a s' →
        (⟨s'.owner,s'.taken⟩ : OwnerLock Thread) = ⟨s.owner,s.taken⟩ ∨
        ∃ b, ownerLock.Step ⟨s.owner,s.taken⟩ b ⟨s'.owner,s'.taken⟩) ∧
      (∀ t, s.place t = .holding ↔ s.owner = some t) ∧
      ∀ t, s.place t = .yielding → s.interrupts t = true ∧ s.loads t = mutexSpins cores + 1 := by
  have inv := inductive_reach lock_inv reach
  refine ⟨?_,fun a s' move => step_owner inv move,inv.holds,inv.yields⟩
  refine project_reach (fun s => (⟨s.owner,s.taken⟩ : OwnerLock Thread)) lock_inv ?_ ?_ reach
  · exact fun s first => ⟨first.2.1,first.2.2.1⟩
  · exact fun s a s' inv move => step_owner inv move

theorem mutex_owner_lock_spinning :
    (mutexSystem 1).Reach spinning ∧ ownerLock.Reach ⟨spinning.owner,spinning.taken⟩ ∧
      spinning.place true = .holding :=
  have owned := mutex_owner_lock 1 spinning spinning_reach
  ⟨spinning_reach,owned.1,(owned.2.2.1 true).mpr rfl⟩

end Proofs
end MutexLock
