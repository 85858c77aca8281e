import TinyOS.Monitor
import TinyOS.Transition

/- The dining philosophers of symposium.c. A philosopher holds the mutex of the table from
   Mutex_Lock to Mutex_Unlock but in Cond_Wait, so each of these sections is a step; thinking
   and eating happen in between. The code numbers them with ints; none is an int that overflows,
   an index outside of an array or an assertion that fails. -/
namespace Symposium
open Monitor Transition

inductive Phil where
  | notHere | thinking | hungry | eating
  deriving DecidableEq

/- Where a philosopher is in SymposiumTable_philosopher, with the variable j of its loop. -/
inductive Place where
  | outside
  | thinking (j : Int)
  | waiting (j : Int)
  | eating (j : Int)
  | gone
  deriving DecidableEq

/- `waits` holds the wait sets of the condition variables hungry[i]. -/
structure SymposiumTable (N : Nat) where
  state : Fin N → Phil
  waits : Waits (Fin N) (Fin N)
  place : Fin N → Place

inductive PhilAction (N : Nat) where
  | arrive (i : Fin N)
  | getHungry (i : Fin N)
  | resume (i : Fin N)
  | finish (i : Fin N)
  | leave (i : Fin N)
  | spurious (i : Fin N)

section System
variable {N : Nat}

/- The value of an int expression. -/
def asInt (n : Int) : Option Int := if -2 ^ 31 ≤ n ∧ n < 2 ^ 31 then some n else none

/- LEFT and RIGHT -/
def left (i N : Int) : Option Int := (asInt (i + 1)).map (·.tmod N)

def right (i N : Int) : Option Int := do
  let k ← asInt (i + N)
  let k ← asInt (k - 1)
  some (k.tmod N)

/- An index of the arrays state and hungry. -/
def seat (N : Nat) (k : Int) : Option (Fin N) :=
  if h : 0 ≤ k ∧ k < N then some ⟨k.toNat,by omega⟩ else none

def SymposiumTable.setState (S : SymposiumTable N) (i : Fin N) (p : Phil) : SymposiumTable N :=
  { S with state := Function.update S.state i p }

def SymposiumTable.goto (S : SymposiumTable N) (i : Fin N) (p : Place) : SymposiumTable N :=
  { S with place := Function.update S.place i p }

/- Attempt to make a (hungry) philosopher i to start eating -/
def tryToEat (S : SymposiumTable N) (i : Int) : Option (SymposiumTable N) := do
  let p ← seat N i
  if S.state p = .hungry then do
    let l ← (left i N).bind (seat N)
    if S.state l = .eating then some S
    else do
      let r ← (right i N).bind (seat N)
      if S.state r = .eating then some S
      else some { S.setState p .eating with waits := S.waits.signal p }
  else some S

/- The loop while(state[i]==HUNGRY) up to its next Cond_Wait or its end, with the assertion after
   it. -/
def waitHungry (S : SymposiumTable N) (i : Fin N) (j : Int) : Option (SymposiumTable N) :=
  if S.state i = .hungry then some { S.goto i (.waiting j) with waits := S.waits.wait i i }
  else if S.state i = .eating then some (S.goto i (.eating j))
  else none

def getHungry (S : SymposiumTable N) (i : Fin N) (j : Int) : Option (SymposiumTable N) := do
  let S ← tryToEat (S.setState i .hungry) i.val
  waitHungry S i j

def finishEating (S : SymposiumTable N) (i : Fin N) (j : Int) : Option (SymposiumTable N) := do
  let l ← left i.val N
  let S ← tryToEat (S.setState i .thinking) l
  let r ← right i.val N
  let S ← tryToEat S r
  some (S.goto i (.thinking (j + 1)))

def PhilEnabled (bites : Int) (S : SymposiumTable N) : PhilAction N → Prop
  | .arrive i => S.place i = .outside
  | .getHungry i => ∃ j, S.place i = .thinking j ∧ j < bites
  | .resume i => (S.waits.woken i).isSome
  | .finish i => ∃ j, S.place i = .eating j
  | .leave i => ∃ j, S.place i = .thinking j ∧ ¬ j < bites
  | .spurious i => i ∈ S.waits.asleep i

def philExec (S : SymposiumTable N) : PhilAction N → Option (SymposiumTable N)
  | .arrive i => some ((S.setState i .thinking).goto i (.thinking 0))
  | .getHungry i =>
    match S.place i with
    | .thinking j => getHungry S i j
    | _ => none
  | .resume i =>
    match S.place i with
    | .waiting j => waitHungry { S with waits := S.waits.resume i } i j
    | _ => none
  | .finish i =>
    match S.place i with
    | .eating j => finishEating S i j
    | _ => none
  | .leave i => some ((S.setState i .notHere).goto i .gone)
  | .spurious i => some { S with waits := S.waits.expire i i }

/- SymposiumTable_init -/
def initTable (N : Nat) : SymposiumTable N :=
  { state := fun _ => .notHere, waits := .empty _ _, place := fun _ => .outside }

def symposium (N : Nat) (bites : Int) : Machine (SymposiumTable N) (PhilAction N) where
  start S := S = initTable N
  enabled := PhilEnabled bites
  exec := philExec

end System

section Neighbours
variable {N : Nat}

/- The neighbours at the round table. -/
def leftOf (i : Fin N) : Fin N := ⟨(i.val + 1) % N,Nat.mod_lt _ i.pos⟩

def rightOf (i : Fin N) : Fin N := ⟨(i.val + N - 1) % N,Nat.mod_lt _ i.pos⟩

theorem as_int {n : Nat} (small : n < 2 ^ 31) : asInt n = some (n : Int) :=
  if_pos ⟨by omega,by omega⟩

theorem seat_val (i : Fin N) : seat N i.val = some i := by
  unfold seat
  rw [dif_pos ⟨by omega,by have bound := i.isLt; omega⟩]
  rfl

theorem left_seat (range : N < 2 ^ 31) (i : Fin N) : left i.val N = some ((leftOf i).val : Int) := by
  have bound := i.isLt
  have sum : (i.val : Int) + 1 = ((i.val + 1 : Nat) : Int) := by omega
  rw [left, sum, as_int (by omega), Option.map_some]
  rfl

theorem right_seat (i : Fin N) (fits : i.val + N < 2 ^ 31) :
    right i.val N = some ((rightOf i).val : Int) := by
  have bound := i.isLt
  have sum : (i.val : Int) + N = ((i.val + N : Nat) : Int) := by omega
  have less : ((i.val + N : Nat) : Int) - 1 = ((i.val + N - 1 : Nat) : Int) := by omega
  simp only [right, sum, as_int fits, less, as_int (show i.val + N - 1 < 2 ^ 31 by omega),
    Option.bind_eq_bind, Option.bind_some]
  rfl

theorem right_overflows (i : Fin N) (large : 2 ^ 31 ≤ i.val + N) : right i.val N = none := by
  have unfit : asInt ((i.val : Int) + N) = none := if_neg (by omega)
  simp only [right, unfit, Option.bind_eq_bind, Option.bind_none]

@[simp] theorem right_left (i : Fin N) : rightOf (leftOf i) = i := by
  apply Fin.ext
  have bound := i.isLt
  simp only [rightOf, leftOf]
  by_cases last : i.val + 1 = N
  · rw [last, Nat.mod_self, Nat.zero_add, Nat.mod_eq_of_lt (by omega)]
    omega
  · rw [Nat.mod_eq_of_lt (a := i.val + 1) (by omega)]
    have shift : i.val + 1 + N - 1 = i.val + N := by omega
    rw [shift, Nat.add_mod_right, Nat.mod_eq_of_lt bound]

@[simp] theorem left_right (i : Fin N) : leftOf (rightOf i) = i := by
  apply Fin.ext
  have bound := i.isLt
  simp only [rightOf, leftOf]
  by_cases first : i.val = 0
  · rw [first, Nat.zero_add, Nat.mod_eq_of_lt (a := N - 1) (by omega), Nat.sub_add_cancel (by omega),
      Nat.mod_self]
  · have shift : i.val + N - 1 = i.val - 1 + N := by omega
    rw [shift, Nat.add_mod_right, Nat.mod_eq_of_lt (a := i.val - 1) (by omega),
      Nat.sub_add_cancel (by omega), Nat.mod_eq_of_lt bound]

theorem left_ne (two : 2 ≤ N) (i : Fin N) : leftOf i ≠ i := by
  intro same
  have value := congrArg Fin.val same
  have bound := i.isLt
  simp only [leftOf] at value
  by_cases last : i.val + 1 = N
  · rw [last, Nat.mod_self] at value
    omega
  · rw [Nat.mod_eq_of_lt (by omega)] at value
    omega

theorem eq_left_iff {i k : Fin N} : k = leftOf i ↔ rightOf k = i := by
  constructor
  · rintro rfl
    exact right_left i
  · rintro rfl
    exact (left_right k).symm

end Neighbours

section Serving
variable {N : Nat} {S : SymposiumTable N}

/- What trytoeat does when no int overflows. -/
def serve (S : SymposiumTable N) (i : Fin N) : SymposiumTable N :=
  if S.state i = .hungry ∧ S.state (leftOf i) ≠ .eating ∧ S.state (rightOf i) ≠ .eating then
    { S.setState i .eating with waits := S.waits.signal i }
  else S

theorem try_to_eat (range : N < 2 ^ 31) (S : SymposiumTable N) (i : Fin N)
    (fits : i.val + N < 2 ^ 31) : tryToEat S i.val = some (serve S i) := by
  have l : (left i.val N).bind (seat N) = some (leftOf i) := by
    rw [left_seat range, Option.bind_some, seat_val]
  have r : (right i.val N).bind (seat N) = some (rightOf i) := by
    rw [right_seat i fits, Option.bind_some, seat_val]
  unfold tryToEat serve
  simp only [seat_val, l, r, Option.bind_eq_bind, Option.bind_some]
  split_ifs <;> simp_all

theorem finish_eating (fits : N ≤ 2 ^ 30) (S : SymposiumTable N) (i : Fin N) (j : Int) :
    finishEating S i j = some ((serve (serve (S.setState i .thinking) (leftOf i))
      (rightOf i)).goto i (.thinking (j + 1))) := by
  have range : N < 2 ^ 31 := by omega
  have inside (k : Fin N) : k.val + N < 2 ^ 31 := by
    have bound := k.isLt
    omega
  simp only [finishEating, left_seat range, right_seat i (inside i),
    try_to_eat range _ _ (inside _), Option.bind_eq_bind, Option.bind_some]

/-- The last philosopher to try does so with an int that does not fit, if there are too many. -/
theorem try_overflows (range : N < 2 ^ 31) {i : Fin N} (large : 2 ^ 31 ≤ i.val + N)
    (hungry : S.state i = .hungry) (free : S.state (leftOf i) ≠ .eating) :
    tryToEat S i.val = none := by
  have l : (left i.val N).bind (seat N) = some (leftOf i) := by
    rw [left_seat range, Option.bind_some, seat_val]
  unfold tryToEat
  simp only [seat_val, hungry, l, free, right_overflows i large, if_true, if_false,
    Option.bind_eq_bind, Option.bind_some, Option.bind_none]

end Serving

section Invariant
variable {N : Nat} {bites : Int} {S S' : SymposiumTable N} {i : Fin N} {unserved : List (Fin N)}
  {running : Option (Fin N)}

def Place.Allows : Place → Phil → Prop
  | .outside, p | .gone, p => p = .notHere
  | .thinking _, p => p = .thinking
  | .waiting _, p => p = .hungry ∨ p = .eating
  | .eating _, p => p = .eating

def Waiting (S : SymposiumTable N) (i : Fin N) : Prop := ∃ j, S.place i = .waiting j

/-- The table inside a section: the philosophers in `unserved` have yet to be tried, and the
    `running` one has yet to be told its place. -/
structure TableOk (S : SymposiumTable N) (unserved : List (Fin N)) (running : Option (Fin N)) :
    Prop where
  apart : ∀ i, S.state i = .eating → S.state (leftOf i) ≠ .eating
  served : ∀ i ∉ unserved, S.state i = .hungry →
    S.state (leftOf i) = .eating ∨ S.state (rightOf i) = .eating
  places : ∀ i, some i ≠ running → (S.place i).Allows (S.state i)
  sound : S.waits.Sound
  asleep : ∀ c, ∀ t ∈ S.waits.asleep c, t = c ∧ S.state c = .hungry ∧ Waiting S c
  awake : ∀ i, some i = running → i ∉ S.waits.asleep i ∧ S.waits.woken i = none
  waiting : ∀ i, some i ≠ running → Waiting S i → i ∈ S.waits.asleep i ∨ (S.waits.woken i).isSome
  woken : ∀ i, (S.waits.woken i).isSome → Waiting S i

theorem apart_right (ok : TableOk S unserved running) (eats : S.state i = .eating) :
    S.state (rightOf i) ≠ .eating := by
  intro other
  have blocked := ok.apart (rightOf i) other
  rw [left_right] at blocked
  exact blocked eats

/-- Nobody but i is asleep on its condition variable. -/
theorem asleep_cases (ok : TableOk S unserved running) (i : Fin N) :
    S.waits.asleep i = [] ∨ S.waits.asleep i = [i] := by
  cases sleepers : S.waits.asleep i with
  | nil => exact Or.inl rfl
  | cons t rest =>
    have only (u : Fin N) (member : u ∈ t :: rest) : u = i :=
      (ok.asleep i u (by rw [sleepers]; exact member)).1
    have distinct := ok.sound.nodup i
    rw [sleepers, List.nodup_cons] at distinct
    have first := only t (List.mem_cons_self ..)
    subst first
    right
    cases rest with
    | nil => rfl
    | cons u rest =>
      have second := only u (by simp)
      exact absurd (second ▸ List.mem_cons_self ..) distinct.1

/-- The wait sets after the signal for i. -/
theorem signal_spec (ok : TableOk S unserved running) (i c : Fin N) :
    (S.waits.signal i).asleep c = (if c = i then [] else S.waits.asleep c) ∧
    (S.waits.signal i).woken c =
      if c = i ∧ i ∈ S.waits.asleep i then some true else S.waits.woken c := by
  rcases asleep_cases ok i with none | one
  · by_cases same : c = i
    · subst same
      simp [Waits.signal, none]
    · simp [Waits.signal, none, same]
  · by_cases same : c = i
    · subst same
      simp [Waits.signal, Waits.wake, one]
    · simp [Waits.signal, Waits.wake, one, same]

/-- The philosopher tried now eats, or has an eating neighbour, or is not hungry. -/
theorem try_ok (two : 2 ≤ N) (ok : TableOk S (i :: unserved) running) :
    TableOk (serve S i) unserved running := by
  by_cases free : S.state i = .hungry ∧ S.state (leftOf i) ≠ .eating ∧ S.state (rightOf i) ≠ .eating
  · obtain ⟨hungry,noLeft,noRight⟩ := free
    have signalled (c : Fin N) := signal_spec ok i c
    simp only [serve, hungry, noLeft, noRight, ne_eq, not_false_eq_true, and_self, if_true]
    constructor
    · intro k eats other
      simp only [SymposiumTable.setState, Function.update_apply] at eats other
      have apart := ok.apart k
      by_cases here : k = i
      · subst here
        simp only [left_ne two, if_false] at other
        exact noLeft other
      · simp only [here, if_false] at eats
        by_cases there : leftOf k = i
        · rw [← there, right_left] at noRight
          exact noRight eats
        · simp only [there, if_false] at other
          exact apart eats other
    · intro k member hungry'
      simp only [SymposiumTable.setState, Function.update_apply] at hungry' ⊢
      have served := ok.served k
      grind
    · intro k other
      have place := ok.places k other
      simp only [SymposiumTable.setState, Function.update_apply]
      split
      · rename_i same
        subst same
        rw [hungry] at place
        cases spot : S.place k <;> simp_all [Place.Allows]
      · exact place
    · exact wakes_sound ok.sound (signal_wakes ok.sound i)
    · intro c t member
      rw [(signalled c).1] at member
      split at member
      · cases member
      · rename_i other
        obtain ⟨own,still,waiting⟩ := ok.asleep c t member
        exact ⟨own,by simpa [SymposiumTable.setState, other] using still,waiting⟩
    · intro k same
      have awake := ok.awake k same
      simp only [signalled]
      grind
    · intro k other waiting
      have before := ok.waiting k other waiting
      simp only [signalled]
      grind
    · intro k woken
      have before := ok.woken k
      simp only [signalled] at woken
      split at woken
      · rename_i here
        obtain ⟨rfl,asleep⟩ := here
        exact (ok.asleep k k asleep).2.2
      · exact before woken
  · have same : serve S i = S := if_neg free
    rw [same]
    refine ⟨ok.apart,fun k member hungry => ?_,ok.places,ok.sound,ok.asleep,ok.awake,ok.waiting,
      ok.woken⟩
    by_cases here : k = i
    · subst here
      by_contra none
      obtain ⟨noLeft,noRight⟩ := not_or.mp none
      exact free ⟨hungry,noLeft,noRight⟩
    · exact ok.served k (by simp [here, member]) hungry

/-- A philosopher that does not wait starts to think or leaves. -/
theorem calm_ok (ok : TableOk S [] none) (still : ¬ Waiting S i) {p : Phil} {place : Place}
    (calm : p = .thinking ∨ p = .notHere) (allows : place.Allows p) (away : ∀ j, place ≠ .waiting j)
    (left_over : ∀ k ∉ unserved, S.state i = .eating → leftOf k ≠ i ∧ rightOf k ≠ i) :
    TableOk ((S.setState i p).goto i place) unserved none := by
  have quiet : p ≠ .eating ∧ p ≠ .hungry := by
    rcases calm with rfl | rfl <;> simp
  have waits (k : Fin N) : Waiting ((S.setState i p).goto i place) k ↔ Waiting S k := by
    by_cases same : k = i
    · subst same
      refine ⟨fun ⟨j,waits⟩ => ?_,fun waits => absurd waits still⟩
      simp only [SymposiumTable.goto, Function.update_self] at waits
      exact absurd waits (away j)
    · simp [Waiting, SymposiumTable.goto, SymposiumTable.setState, same]
  constructor
  · intro k eats other
    simp only [SymposiumTable.goto, SymposiumTable.setState, Function.update_apply] at eats other
    have apart := ok.apart k
    grind
  · intro k member hungry
    simp only [SymposiumTable.goto, SymposiumTable.setState, Function.update_apply] at hungry ⊢
    have served := ok.served k (by simp)
    have apart := left_over k member
    grind
  · intro k _
    have place := ok.places k
    simp only [SymposiumTable.goto, SymposiumTable.setState, Function.update_apply]
    grind
  · exact ok.sound
  · intro c t member
    obtain ⟨own,hungry,waiting⟩ := ok.asleep c t member
    have other : c ≠ i := fun same => still (same ▸ waiting)
    refine ⟨own,?_,(waits c).mpr waiting⟩
    simpa [SymposiumTable.goto, SymposiumTable.setState, other] using hungry
  · exact fun k none => by cases none
  · intro k other waiting
    exact ok.waiting k other ((waits k).mp waiting)
  · intro k woken
    exact (waits k).mpr (ok.woken k woken)

/-- The section of a philosopher that gets hungry begins. -/
theorem hungry_ok (ok : TableOk S [] none) (still : ¬ Waiting S i) (thinks : S.state i ≠ .eating) :
    TableOk (S.setState i .hungry) [i] (some i) := by
  constructor
  · intro k eats other
    simp only [SymposiumTable.setState, Function.update_apply] at eats other
    have apart := ok.apart k
    grind
  · intro k member hungry
    simp only [SymposiumTable.setState, Function.update_apply] at hungry ⊢
    have served := ok.served k (by simp)
    grind
  · intro k other
    have apart : k ≠ i := fun same => other (congrArg some same)
    simpa [SymposiumTable.setState, apart] using ok.places k (by simp)
  · exact ok.sound
  · intro c t member
    obtain ⟨own,hungry,waiting⟩ := ok.asleep c t member
    have other : c ≠ i := fun same => still (same ▸ waiting)
    exact ⟨own,by simpa [SymposiumTable.setState, other] using hungry,waiting⟩
  · intro k same
    cases same
    refine ⟨fun member => still (ok.asleep i i member).2.2,?_⟩
    by_contra woken
    exact still (ok.woken i (Option.isSome_iff_ne_none.mpr woken))
  · exact fun k _ waiting => ok.waiting k (by simp) waiting
  · exact ok.woken

/-- The loop of a hungry philosopher puts it to sleep or lets it eat. -/
theorem wait_ok (ok : TableOk S [] (some i)) (state : S.state i = .hungry ∨ S.state i = .eating)
    (j : Int) : ∃ S', waitHungry S i j = some S' ∧ TableOk S' [] none := by
  obtain ⟨awake,unwoken⟩ := ok.awake i rfl
  have nowhere (c : Fin N) : i ∉ S.waits.asleep c := by
    intro member
    obtain ⟨rfl,_⟩ := ok.asleep c i member
    exact awake member
  by_cases hungry : S.state i = .hungry
  · refine ⟨_,if_pos hungry,ok.apart,ok.served,fun k _ => ?_,
      wait_sound ok.sound i nowhere unwoken,fun c t member => ?_,fun k same => (by cases same),
      fun k _ waiting => ?_,fun k woken => ?_⟩
    · by_cases same : k = i
      · subst same
        simp [SymposiumTable.goto, Place.Allows, hungry]
      · simpa [SymposiumTable.goto, same] using ok.places k (by simpa using same)
    · rcases mem_wait.mp member with old | ⟨rfl,rfl⟩
      · obtain ⟨own,still,j',waits⟩ := ok.asleep c t old
        have other : c ≠ i := by
          rintro rfl
          exact awake (own ▸ old)
        exact ⟨own,still,j',by simpa [SymposiumTable.goto, other] using waits⟩
      · exact ⟨rfl,hungry,j,by simp [SymposiumTable.goto]⟩
    · by_cases same : k = i
      · exact Or.inl (mem_wait.mpr (Or.inr ⟨same,same⟩))
      · have before := ok.waiting k (by simpa using same)
          (by simpa [Waiting, SymposiumTable.goto, same] using waiting)
        exact before.imp (fun old => mem_wait.mpr (Or.inl old)) id
    · by_cases same : k = i
      · exact ⟨j,by simp [SymposiumTable.goto, same]⟩
      · simpa [Waiting, SymposiumTable.goto, same] using ok.woken k woken
  · have eats := state.resolve_left hungry
    refine ⟨_,(if_neg hungry).trans (if_pos eats),ok.apart,ok.served,fun k _ => ?_,ok.sound,
      fun c t member => ?_,fun k same => (by cases same),fun k _ waiting => ?_,fun k woken => ?_⟩
    · by_cases same : k = i
      · subst same
        simp [SymposiumTable.goto, Place.Allows, eats]
      · simpa [SymposiumTable.goto, same] using ok.places k (by simpa using same)
    · obtain ⟨own,still,j',waits⟩ := ok.asleep c t member
      have other : c ≠ i := fun same => hungry (same ▸ still)
      exact ⟨own,still,j',by simpa [SymposiumTable.goto, other] using waits⟩
    · have other : k ≠ i := by
        rintro rfl
        obtain ⟨j',waits⟩ := waiting
        simp [SymposiumTable.goto] at waits
      exact ok.waiting k (by simpa using other)
        (by simpa [Waiting, SymposiumTable.goto, other] using waiting)
    · have other : k ≠ i := by
        rintro rfl
        change (S.waits.woken k).isSome at woken
        simp [unwoken] at woken
      simpa [Waiting, SymposiumTable.goto, other] using ok.woken k woken

theorem not_waiting_of_place {place : Place} (here : S.place i = place)
    (away : ∀ j, place ≠ .waiting j) : ¬ Waiting S i := by
  rintro ⟨j,waits⟩
  exact away j (here.symm.trans waits)

theorem try_goto (S : SymposiumTable N) (i k : Fin N) (place : Place) :
    serve (S.goto i place) k = (serve S k).goto i place := by
  have same : (S.goto i place).state = S.state := rfl
  unfold serve
  rw [same]
  split
  · rfl
  · rfl

/-- The philosophers who were tried are no longer hungry without an eating neighbour, whatever
    became of them. -/
theorem finish_ok (two : 2 ≤ N) (fits : N ≤ 2 ^ 30) (ok : TableOk S [] none) {j : Int}
    (eats : S.place i = .eating j) :
    ∃ S', finishEating S i j = some S' ∧ TableOk S' [] none := by
  have still : ¬ Waiting S i := not_waiting_of_place eats (by simp)
  have begun : TableOk ((S.setState i .thinking).goto i (.thinking (j + 1))) [leftOf i, rightOf i]
      none := by
    refine calm_ok ok still (Or.inl rfl) rfl (by simp) (fun k member _ => ?_)
    simp only [List.mem_cons, List.not_mem_nil, or_false, not_or] at member
    refine ⟨fun same => member.2 ?_,fun same => member.1 (eq_left_iff.mpr same)⟩
    rw [← same, right_left]
  have tried := try_ok two (try_ok two begun)
  rw [try_goto, try_goto] at tried
  exact ⟨_,finish_eating fits S i j,tried⟩

theorem try_state (S : SymposiumTable N) (i : Fin N) (hungry : S.state i = .hungry) :
    (serve S i).state i = .hungry ∨ (serve S i).state i = .eating := by
  unfold serve
  split
  · exact Or.inr (by simp [SymposiumTable.setState])
  · exact Or.inl hungry

theorem resume_ok (ok : TableOk S [] none) (woken : (S.waits.woken i).isSome) :
    ∃ S', philExec S (.resume i) = some S' ∧ TableOk S' [] none := by
  obtain ⟨j,waits⟩ := ok.woken i woken
  have place := ok.places i (by simp)
  rw [waits] at place
  have awake : i ∉ S.waits.asleep i := fun member => by
    simp [ok.sound.unwoken i i member] at woken
  have left : TableOk { S with waits := S.waits.resume i } [] (some i) := by
    refine ⟨ok.apart,ok.served,fun k _ => ok.places k (by simp),resume_sound ok.sound i,ok.asleep,
      fun k same => ?_,fun k other waiting => ?_,fun k still => ?_⟩
    · cases same
      exact ⟨awake,by simp [Waits.resume]⟩
    · have apart : k ≠ i := by simpa using other
      simpa [Waits.resume, apart] using ok.waiting k (by simp) waiting
    · have apart : k ≠ i := by
        rintro rfl
        simp [Waits.resume] at still
      exact ok.woken k (by simpa [Waits.resume, apart] using still)
  obtain ⟨S',run,ok'⟩ := wait_ok left place j
  exact ⟨S',by simpa only [philExec, waits] using run,ok'⟩

theorem spurious_ok (ok : TableOk S [] none) (member : i ∈ S.waits.asleep i) :
    TableOk { S with waits := S.waits.expire i i } [] none := by
  refine ⟨ok.apart,ok.served,ok.places,expire_sound ok.sound member,fun c t here => ?_,
    fun k same => (by cases same),fun k other waiting => ?_,fun k woken => ?_⟩
  · exact ok.asleep c t ((expire_sublist _ _ _ _).subset here)
  · by_cases same : k = i
    · exact Or.inr (by simp [Waits.expire, Waits.wake, same])
    · simpa [Waits.expire, Waits.wake, same] using ok.waiting k other waiting
  · by_cases same : k = i
    · exact same ▸ (ok.asleep i i member).2.2
    · exact ok.woken k (by simpa [Waits.expire, Waits.wake, same] using woken)

theorem arrive_ok (ok : TableOk S [] none) (here : S.place i = .outside) :
    TableOk ((S.setState i .thinking).goto i (.thinking 0)) [] none := by
  have place := ok.places i (by simp)
  rw [here] at place
  refine calm_ok ok (not_waiting_of_place here (by simp)) (Or.inl rfl) rfl (by simp)
    (fun _ _ eats => ?_)
  exact absurd (place.symm.trans eats) (by simp)

theorem leave_ok (ok : TableOk S [] none) {j : Int} (thinks : S.place i = .thinking j) :
    TableOk ((S.setState i .notHere).goto i .gone) [] none := by
  have place := ok.places i (by simp)
  rw [thinks] at place
  refine calm_ok ok (not_waiting_of_place thinks (by simp)) (Or.inr rfl) rfl (by simp)
    (fun _ _ eats => ?_)
  exact absurd (place.symm.trans eats) (by simp)

theorem get_hungry_ok (two : 2 ≤ N) (fits : N ≤ 2 ^ 30) (ok : TableOk S [] none) {j : Int}
    (thinks : S.place i = .thinking j) :
    ∃ S', getHungry S i j = some S' ∧ TableOk S' [] none := by
  have still : ¬ Waiting S i := not_waiting_of_place thinks (by simp)
  have place := ok.places i (by simp)
  rw [thinks] at place
  have begun := hungry_ok ok still (fun eats => absurd (place.symm.trans eats) (by simp))
  obtain ⟨S',run,ok'⟩ := wait_ok (try_ok two begun)
    (try_state _ i (by simp [SymposiumTable.setState])) j
  have tried := try_to_eat (by omega) (S.setState i .hungry) i (by omega)
  exact ⟨S',by simpa only [getHungry, tried, Option.bind_eq_bind, Option.bind_some] using run,ok'⟩

theorem few_step (two : 2 ≤ N) (fits : N ≤ 2 ^ 30) (ok : TableOk S [] none) (a : PhilAction N)
    (enabled : PhilEnabled bites S a) : ∃ S', philExec S a = some S' ∧ TableOk S' [] none := by
  cases a with
  | arrive i => exact ⟨_,rfl,arrive_ok ok enabled⟩
  | getHungry i =>
    obtain ⟨j,thinks,_⟩ := enabled
    simp only [philExec, thinks]
    exact get_hungry_ok two fits ok thinks
  | resume i => exact resume_ok ok enabled
  | finish i =>
    obtain ⟨j,eats⟩ := enabled
    simp only [philExec, eats]
    exact finish_ok two fits ok eats
  | leave i =>
    obtain ⟨j,thinks,_⟩ := enabled
    exact ⟨_,rfl,leave_ok ok thinks⟩
  | spurious i => exact ⟨_,rfl,spurious_ok ok enabled⟩

/- Nobody gets hungry. -/
def Quiet (S : SymposiumTable N) : Prop :=
  ∀ i, S.place i = .outside ∨ S.place i = .thinking 0 ∨ S.place i = .gone

theorem quiet_goto (quiet : Quiet S) {p : Phil} {place : Place}
    (calm : place = .outside ∨ place = .thinking 0 ∨ place = .gone) :
    Quiet ((S.setState i p).goto i place) := by
  intro k
  by_cases same : k = i
  · subst same
    simpa [SymposiumTable.goto] using calm
  · simpa [SymposiumTable.goto, SymposiumTable.setState, same] using quiet k

theorem quiet_step (fasting : bites ≤ 0) (ok : TableOk S [] none) (quiet : Quiet S)
    (a : PhilAction N) (enabled : PhilEnabled bites S a) :
    ∃ S', philExec S a = some S' ∧ TableOk S' [] none ∧ Quiet S' := by
  have calm (i : Fin N) : ¬ Waiting S i := by
    rintro ⟨j,waits⟩
    rcases quiet i with here | here | here <;> cases here.symm.trans waits
  cases a with
  | arrive i => exact ⟨_,rfl,arrive_ok ok enabled,quiet_goto quiet (Or.inr (Or.inl rfl))⟩
  | getHungry i =>
    obtain ⟨j,thinks,more⟩ := enabled
    rcases quiet i with here | here | here
    · cases here.symm.trans thinks
    · cases here.symm.trans thinks
      exact absurd more (not_lt.mpr fasting)
    · cases here.symm.trans thinks
  | resume i => exact absurd (ok.woken i enabled) (calm i)
  | finish i =>
    obtain ⟨j,eats⟩ := enabled
    rcases quiet i with here | here | here <;> cases here.symm.trans eats
  | leave i =>
    obtain ⟨j,thinks,_⟩ := enabled
    exact ⟨_,rfl,leave_ok ok thinks,quiet_goto quiet (Or.inr (Or.inr rfl))⟩
  | spurious i => exact absurd (ok.asleep i i enabled).2.2 (calm i)

theorem init_ok (N : Nat) : TableOk (initTable N) [] none :=
  ⟨by simp [initTable],by simp [initTable],fun _ _ => rfl,empty_sound,
    by simp [initTable, Waits.empty],by simp,by simp [initTable, Waiting],
    by simp [initTable, Waits.empty]⟩

/-- Without a philosopher who gets hungry the table may be of any size. -/
theorem symposium_step (two : 2 ≤ N) (fits : N ≤ 2 ^ 30 ∨ bites ≤ 0) (ok : TableOk S [] none)
    (quiet : bites ≤ 0 → Quiet S) (a : PhilAction N) (enabled : PhilEnabled bites S a) :
    ∃ S', philExec S a = some S' ∧ TableOk S' [] none ∧ (bites ≤ 0 → Quiet S') := by
  by_cases fasting : bites ≤ 0
  · obtain ⟨S',run,ok',quiet'⟩ := quiet_step fasting ok (quiet fasting) a enabled
    exact ⟨S',run,ok',fun _ => quiet'⟩
  · obtain ⟨S',run,ok'⟩ := few_step two (fits.resolve_right fasting) ok a enabled
    exact ⟨S',run,ok',fun none => absurd none fasting⟩

theorem symposium_inductive (two : 2 ≤ N) (fits : N ≤ 2 ^ 30 ∨ bites ≤ 0) :
    (symposium N bites).Inductive fun S => TableOk S [] none ∧ (bites ≤ 0 → Quiet S) := by
  constructor
  · rintro S rfl
    exact ⟨init_ok N,fun _ _ => Or.inl rfl⟩
  · rintro S a S' ⟨ok,quiet⟩ move
    obtain ⟨S'',run,ok'⟩ := symposium_step two fits ok quiet a move.1
    cases run.symm.trans move.2
    exact ok'

def PhilAction.IsSpurious : PhilAction N → Prop
  | .spurious _ => True
  | _ => False

/-- A philosopher that eats can finish, or has been signalled and can go on. -/
theorem eating_enabled (bites : Int) (ok : TableOk S [] none) (eats : S.state i = .eating) :
    ∃ a, ¬ a.IsSpurious ∧ PhilEnabled bites S a := by
  have place := ok.places i (by simp)
  rw [eats] at place
  cases here : S.place i with
  | outside | thinking | gone => simp [here, Place.Allows] at place
  | waiting j =>
    rcases ok.waiting i (by simp) ⟨j,here⟩ with asleep | woken
    · have hungry := (ok.asleep i i asleep).2.1
      exact absurd (eats.symm.trans hungry) (by simp)
    · exact ⟨.resume i,id,woken⟩
  | eating j => exact ⟨.finish i,id,j,here⟩

/-- While a philosopher is still around, one of them can go on. -/
theorem some_enabled (bites : Int) (ok : TableOk S [] none) (around : S.place i ≠ .gone) :
    ∃ a, ¬ a.IsSpurious ∧ PhilEnabled bites S a := by
  cases here : S.place i with
  | outside => exact ⟨.arrive i,id,here⟩
  | thinking j =>
    by_cases more : j < bites
    · exact ⟨.getHungry i,id,j,here,more⟩
    · exact ⟨.leave i,id,j,here,more⟩
  | waiting j =>
    rcases ok.waiting i (by simp) ⟨j,here⟩ with asleep | woken
    · rcases ok.served i (by simp) (ok.asleep i i asleep).2.1 with eats | eats
      · exact eating_enabled bites ok eats
      · exact eating_enabled bites ok eats
    · exact ⟨.resume i,id,woken⟩
  | eating j => exact ⟨.finish i,id,j,here⟩
  | gone => exact absurd here around

/- No step fails, neighbours never eat together, a hungry philosopher always has an eating neighbour,
   only hungry ones sleep unsignalled, and the table never deadlocks. -/
structure Served (N : Nat) (bites : Int) : Prop where
  faultless : (symposium N bites).NeverFaults
  apart : ∀ S, (symposium N bites).Reach S → ∀ i, S.state i = .eating →
    S.state (leftOf i) ≠ .eating ∧ S.state (rightOf i) ≠ .eating
  served : ∀ S, (symposium N bites).Reach S → ∀ i, S.state i = .hungry →
    S.state (leftOf i) = .eating ∨ S.state (rightOf i) = .eating
  asleep : ∀ S, (symposium N bites).Reach S → ∀ i, ∀ t ∈ S.waits.asleep i,
    t = i ∧ S.state i = .hungry
  continues : ∀ S, (symposium N bites).Reach S → (∃ i, S.place i ≠ .gone) →
    ∃ a, ¬ a.IsSpurious ∧ (symposium N bites).enabled S a

theorem few_served (two : 2 ≤ N) (fits : N ≤ 2 ^ 30 ∨ bites ≤ 0) : Served N bites := by
  have table {S : SymposiumTable N} (reach : (symposium N bites).Reach S) : TableOk S [] none :=
    (inductive_reach (symposium_inductive two fits) reach).1
  refine ⟨never_faults_of_inductive (symposium_inductive two fits) ?_,
    fun S reach i eats => ⟨(table reach).apart i eats,apart_right (table reach) eats⟩,
    fun S reach i => (table reach).served i (by simp),fun S reach i t member => ?_,
    fun S reach ⟨i,around⟩ => some_enabled bites (table reach) around⟩
  · rintro S a ⟨ok,quiet⟩ enabled
    obtain ⟨S',run,_⟩ := symposium_step two fits ok quiet a enabled
    change (philExec S a).isSome
    simp [run]
  · obtain ⟨own,hungry,_⟩ := (table reach).asleep i t member
    exact ⟨own,hungry⟩

/-- At a larger table the last philosopher cannot try to eat. -/
theorem last_overflows (two : 2 ≤ N) (range : N < 2 ^ 31) (large : 2 ^ 30 < N)
    (hungry : 0 < bites) : ∃ S, (symposium N bites).Reach S ∧
      ∃ a, (symposium N bites).enabled S a ∧ (symposium N bites).exec S a = none := by
  let last : Fin N := ⟨N - 1,by omega⟩
  let S := ((initTable N).setState last .thinking).goto last (.thinking 0)
  have thinks : S.place last = .thinking 0 := by simp [S, SymposiumTable.goto]
  have free : (S.setState last .hungry).state (leftOf last) ≠ .eating := by
    simp [S, SymposiumTable.goto, SymposiumTable.setState, initTable, left_ne two]
  refine ⟨S,.step (a := .arrive last) (.start rfl) ⟨rfl,rfl⟩,.getHungry last,⟨0,thinks,hungry⟩,?_⟩
  have stuck := try_overflows (S := S.setState last .hungry) range (i := last)
    (by change 2 ^ 31 ≤ N - 1 + N; omega) (by simp [SymposiumTable.setState]) free
  change philExec S (.getHungry last) = none
  simp only [philExec, thinks, getHungry, stuck, Option.bind_eq_bind, Option.bind_none]

theorem not_served (fails : ∃ S, (symposium N bites).Reach S ∧
    ∃ a, (symposium N bites).enabled S a ∧ (symposium N bites).exec S a = none) :
    ¬ Served N bites := by
  intro served
  obtain ⟨S,reach,a,enabled,stuck⟩ := fails
  have runs := served.faultless S a reach enabled
  rw [stuck] at runs
  cases runs

/-- Every hungry philosopher is served, at a table where RIGHT does not overflow. -/
theorem philosophers_served (two : 2 ≤ N) (range : N < 2 ^ 31) (bites : Int) :
    Served N bites ↔ N ≤ 2 ^ 30 ∨ bites ≤ 0 := by
  refine ⟨fun served => ?_,few_served two⟩
  by_contra neither
  obtain ⟨large,hungry⟩ := not_or.mp neither
  exact not_served (last_overflows two range (Nat.not_le.mp large) (not_le.mp hungry)) served

theorem philosophers_served_two : Served 2 3 :=
  (philosophers_served (by decide) (by decide) 3).mpr (Or.inl (by decide))

/-- At the smallest table that is too large it overflows for the last philosopher. -/
theorem last_philosopher_fails : ¬ Served (2 ^ 30 + 1) 1 ∧
    ∃ S, (symposium (2 ^ 30 + 1) 1).Reach S ∧
      ∃ a, (symposium (2 ^ 30 + 1) 1).enabled S a ∧ (symposium (2 ^ 30 + 1) 1).exec S a = none :=
  have fails := last_overflows (by decide) (by decide) (by decide) (by decide)
  ⟨not_served fails,fails⟩

end Invariant
end Symposium
