import TinyOS.IoContract
import TinyOS.SerialDriver

/- What is typed reaches the readers once and in order, what is written reaches the console, and no
   reader sleeps on bytes that nothing is going to tell it of. -/
namespace SerialDriver
open Transition Bios Monitor
variable {Thread : Type} {nterm : Nat}

/- In the kernel. -/
def Pc.Inside : Pc → Bool
  | .reading _ _ _ | .readFailed _ _ _ | .waiting _ _ | .writing _ _ _ | .writeFailed _ _ _ => true
  | .outside | .asleep _ _ => false

/- What it has read from the port and not returned yet. -/
def Pc.got (port : Nat) : Pc → List UInt8
  | .reading p _ buf | .readFailed p _ buf => if p = port then buf else []
  | .outside | .waiting _ _ | .asleep _ _ | .writing _ _ _ | .writeFailed _ _ _ => []

/- What it has written to the port and not returned yet. -/
def Pc.put (port : Nat) : Pc → List UInt8
  | .writing p buf count | .writeFailed p buf count => if p = port then buf.take count else []
  | .outside | .reading _ _ _ | .readFailed _ _ _ | .waiting _ _ | .asleep _ _ => []

def Pc.Fits (nterm : Nat) : Pc → Prop
  | .outside => True
  | .reading port size buf => port < nterm ∧ buf.length ≤ size
  | .readFailed port size buf => port < nterm ∧ buf.length < size
  | .waiting port size | .asleep port size => port < nterm ∧ 0 < size
  | .writing port buf count => port < nterm ∧ count ≤ buf.length
  | .writeFailed port buf count => port < nterm ∧ count < buf.length

attribute [grind =] Pc.Inside Pc.got Pc.put Pc.Fits Pc.Asleep

/- What the call that is in the kernel has read, or written. -/
def Driver.got (s : Driver Thread) (port : Nat) : List UInt8 :=
  match s.owner with
  | some t => (s.pc t).got port
  | none => []

def Driver.put (s : Driver Thread) (port : Nat) : List UInt8 :=
  match s.owner with
  | some t => (s.pc t).put port
  | none => []

/- A read returns a byte at least and no more than its size, unless this is 0; so does a write. -/
def ReadOk (entry : Nat × List UInt8) : Prop :=
  entry.2.length ≤ entry.1 ∧ (0 < entry.1 → entry.2 ≠ [])

def WriteOk (entry : List UInt8 × Nat) : Prop :=
  entry.2 ≤ entry.1.length ∧ (entry.1 ≠ [] → 0 < entry.2)

structure FlowInv (nterm : Nat) (s : Driver Thread) : Prop where
  owned : Owned (fun t => (s.pc t).Inside) s.owner
  fits : ∀ t, (s.pc t).Fits nterm
  typed : ∀ port, s.typed port =
    (s.reads port).flatMap Prod.snd ++ s.got port ++ s.fifo port
  written : ∀ port, s.written port =
    (s.writes port).flatMap (fun entry => entry.1.take entry.2) ++ s.put port
  reads : ∀ port, ∀ entry ∈ s.reads port, ReadOk entry
  writes : ∀ port, ∀ entry ∈ s.writes port, WriteOk entry

/- In a bios_read_serial or bios_write_serial that has failed. -/
def Pc.Failed : Pc → Bool
  | .readFailed _ _ _ | .writeFailed _ _ _ => true
  | .outside | .reading _ _ _ | .waiting _ _ | .asleep _ _ | .writing _ _ _ => false

/- A read of the port has failed and its thread is not asleep yet. -/
def Pc.Falling (port : Nat) : Pc → Bool
  | .readFailed p _ _ | .waiting p _ => p = port
  | .outside | .reading _ _ _ | .asleep _ _ | .writing _ _ _ | .writeFailed _ _ _ => false

attribute [grind =] Pc.Failed Pc.Falling

structure SleepInv (s : Driver Thread) : Prop where
  callers : ∀ t, s.io.caller t ≠ .outside → (s.pc t).Failed = true
  possible : ∀ port, s.io.possible (kbd port) = !(s.fifo port).isEmpty
  sound : s.rxReady.Sound
  asleep : ∀ t port, t ∈ s.rxReady.asleep port → (s.pc t).Asleep = true
  awake : ∀ t, (s.pc t).Asleep = false → s.rxReady.woken t = none
  there : ∀ t port size, s.pc t = .asleep port size → s.rxReady.woken t = none →
    t ∈ s.rxReady.asleep port

/- An interrupt of the port is to come, or it has come and the readers are to be woken. -/
def Told (s : Driver Thread) (port : Nat) : Prop :=
  s.io.since (kbd port) = false ∨ s.rxPending = true ∨ port ∈ s.handler

structure ToldInv (s : Driver Thread) : Prop where
  falling : ∀ t port, (s.pc t).Falling port = true → Told s port
  asleep : ∀ t port size, s.pc t = .asleep port size → s.rxReady.woken t = none → Told s port

/- The handler does not wake the readers of a port between the failure of a read and its sleep, as
   on a single core: serial_read has turned the interrupts off. -/
def NoRace (s : Driver Thread) : Action Thread → Prop
  | .broadcast => ∀ t port rest, s.handler = port :: rest → (s.pc t).Falling port = false
  | .read _ _ _ | .write _ _ _ | .step _ _ | .type _ _ | .drain _ | .pic | .select _ _
  | .handle => True

variable {s s' : Driver Thread}

theorem inside_owner (inv : FlowInv nterm s) {t : Thread} (inside : (s.pc t).Inside = true) :
    s.owner = some t := (inv.owned t).mp inside

/-- What the owner of the kernel has read and written is all that is on the way. -/
theorem owner_flow (inv : FlowInv nterm s) {t : Thread} (inside : (s.pc t).Inside = true)
    (port : Nat) :
    s.typed port = (s.reads port).flatMap Prod.snd ++ (s.pc t).got port ++ s.fifo port ∧
    s.written port = (s.writes port).flatMap (fun entry => entry.1.take entry.2) ++
      (s.pc t).put port := by
  have typed := inv.typed port
  have written := inv.written port
  simp only [Driver.got, Driver.put, inside_owner inv inside] at typed written
  exact ⟨typed,written⟩

theorem free_flow (inv : FlowInv nterm s) (free : s.owner = none) (port : Nat) :
    s.typed port = (s.reads port).flatMap Prod.snd ++ s.fifo port ∧
    s.written port = (s.writes port).flatMap (fun entry => entry.1.take entry.2) := by
  have typed := inv.typed port
  have written := inv.written port
  simp only [Driver.got, Driver.put, free, List.append_nil] at typed written
  exact ⟨typed,written⟩

/-- The calls that have returned, once one more has. -/
theorem returned_mem {α : Type} {past : Nat → List α} {port p : Nat} {x entry : α}
    (member : entry ∈ Function.update past port (past port ++ [x]) p) :
    entry ∈ past p ∨ entry = x := by
  rw [Function.update_apply] at member
  split at member
  · rename_i same
    simpa [same] using member
  · exact .inl member

theorem read_ok (inv : FlowInv nterm s) {t : Thread} {port size : Nat} {buf : List UInt8}
    (here : s.pc t = .reading port size buf ∧ size ≤ buf.length ∨
      s.pc t = .readFailed port size buf ∧ s.io.caller t = .outside ∧ buf ≠ []) :
    ReadOk (size,buf) := by
  have fits := inv.fits t
  rcases here with ⟨here,full⟩ | ⟨here,_,some⟩ <;> rw [here] at fits
  · exact ⟨fits.2,fun pos => List.ne_nil_of_length_pos (Nat.lt_of_lt_of_le pos full)⟩
  · exact ⟨fits.2.le,fun _ => some⟩

theorem write_ok (inv : FlowInv nterm s) {t : Thread} {port : Nat} {buf : List UInt8}
    {count : Nat} (here : s.pc t = .writing port buf count ∧ buf.length ≤ count ∨
      s.pc t = .writeFailed port buf count ∧ s.io.caller t = .outside ∧ count ≠ 0) :
    WriteOk (buf,count) := by
  have fits := inv.fits t
  rcases here with ⟨here,full⟩ | ⟨here,_,some⟩ <;> rw [here] at fits
  · exact ⟨fits.2,fun some => Nat.lt_of_lt_of_le (List.length_pos_of_ne_nil some) full⟩
  · exact ⟨fits.2.le,fun _ => Nat.pos_of_ne_zero some⟩

theorem outside_caller (inv : SleepInv s) {t : Thread} (here : (s.pc t).Failed = false) :
    s.io.caller t = .outside := by
  by_contra inside
  simp [inv.callers t inside] at here

theorem possible_con {possible : Device → Bool} {room : Bool} (port p : Nat) :
    Function.update possible (con port) room (kbd p) = possible (kbd p) :=
  Function.update_of_ne (by simp) room possible

theorem possible_kbd {possible : Device → Bool} {fifo : Nat → List UInt8} {bytes : List UInt8}
    {more : Bool} (was : ∀ port, possible (kbd port) = !(fifo port).isEmpty)
    (is : more = !bytes.isEmpty) (port p : Nat) :
    Function.update possible (kbd port) more (kbd p) =
      !(Function.update fifo port bytes p).isEmpty := by
  by_cases same : p = port
  · simp [same, is]
  · simpa [same] using was p

theorem pic_kept (nterm : Nat) (io : Io Thread) :
    (picStep nterm io).caller = io.caller ∧ (picStep nterm io).possible = io.possible := by
  unfold picStep termDevCheck
  grind [picReset]

theorem pic_since (io : Io Thread) (out : ∀ dev todo, io.pic ≠ .raising dev todo) :
    (picStep nterm io).since = io.since := by
  unfold picStep
  split
  · rfl
  · rfl
  · rfl
  · rfl
  · rfl
  · unfold termDevCheck
    split <;> rfl
  · rename_i dev todo here
    exact absurd here (out dev todo)

theorem select_since (io : Io Thread) (clock : UInt64) (failed : Bool) :
    (picSelect nterm io clock failed).since = io.since := by
  unfold picSelect
  split <;> rfl

theorem falling_fits {pc : Pc} {port : Nat} (falling : pc.Falling port = true)
    (fits : pc.Fits nterm) : port < nterm := by
  cases pc <;> simp [Pc.Falling] at falling
  all_goals exact falling ▸ fits.1

theorem select_kept (nterm : Nat) (io : Io Thread) (clock : UInt64) (failed : Bool) :
    (picSelect nterm io clock failed).caller = io.caller ∧
      (picSelect nterm io clock failed).possible = io.possible := by
  unfold picSelect
  grind [picReset]

theorem initial_flow (room : Nat → Bool) (clock : UInt64) :
    FlowInv nterm (initial Thread nterm room clock) where
  owned t := by simp [initial, Pc.Inside]
  fits t := trivial
  typed port := rfl
  written port := rfl
  reads port entry member := by cases member
  writes port entry member := by cases member

theorem initial_sleep (room : Nat → Bool) (clock : UInt64) :
    SleepInv (initial Thread nterm room clock) where
  callers t inside := absurd rfl inside
  possible port := rfl
  sound := empty_sound
  asleep t port member := by cases member
  awake t out := rfl
  there t port size is := by cases is

theorem initial_told (room : Nat → Bool) (clock : UInt64) :
    ToldInv (initial Thread nterm room clock) where
  falling t port is := by cases is
  asleep t port size is := by cases is

/-- A step that moves no thread. -/
theorem still_told (inv : ToldInv s) (pcs : s'.pc = s.pc)
    (woken : s'.rxReady.woken = s.rxReady.woken)
    (told : ∀ port, port < nterm → Told s port → Told s' port) (flow : FlowInv nterm s) :
    ToldInv s' := by
  refine ⟨fun u port falling => ?_,fun u port size is unwoken => ?_⟩
  · rw [pcs] at falling
    refine told port ?_ (inv.falling u port falling)
    exact falling_fits falling (flow.fits u)
  · rw [pcs] at is
    refine told port ?_ (inv.asleep u port size is (woken ▸ unwoken))
    have fits := flow.fits u
    rw [is] at fits
    exact fits.1

theorem picked_told {port : Nat} (told : Told s port) :
    Told { s with io := picStep nterm s.io, rxPending := s.rxPending || Raises s } port := by
  rcases told with since | pending | waiting
  · by_cases raises : ∃ dev todo, s.io.pic = .raising dev todo
    · obtain ⟨dev,todo,is⟩ := raises
      by_cases rx : dev.iodir = .rx
      · exact .inr (.inl (by simp [Raises, is, rx]))
      · have other : kbd port ≠ dev := fun same => rx (same ▸ rfl)
        exact .inl (by simpa [picStep, is, other] using since)
    · refine .inl ?_
      simpa [pic_since s.io fun dev todo is => raises ⟨dev,todo,is⟩] using since
  · exact .inr (.inl (by simp [pending]))
  · exact .inr (.inr waiting)

variable [DecidableEq Thread]

inductive Did (nterm : Nat) (s : Driver Thread) : Driver Thread → Prop where
  | begun (t : Thread) (pc : Pc) (here : s.pc t = .outside) (free : s.owner = none)
      (starts : (∃ port size, port < nterm ∧ pc = .reading port size []) ∨
        ∃ port buf, port < nterm ∧ pc = .writing port buf 0) :
    Did nterm s { s.goto t pc with owner := some t }
  | got (t : Thread) (port size : Nat) (buf : List UInt8) (byte : UInt8) (rest : List UInt8)
      (here : s.pc t = .reading port size buf) (room : buf.length < size)
      (first : s.fifo port = byte :: rest) :
    Did nterm s { s.goto t (.reading port size (buf ++ [byte])) with
      io := ioTransfer s.io (kbd port) (!rest.isEmpty)
      fifo := Function.update s.fifo port rest }
  | starved (t : Thread) (port size : Nat) (buf : List UInt8)
      (here : s.pc t = .reading port size buf) (room : buf.length < size)
      (empty : s.fifo port = []) :
    Did nterm s { s.goto t (.readFailed port size buf) with io := ioFail s.io t (kbd port) }
  | readReturned (t : Thread) (port size : Nat) (buf : List UInt8)
      (here : s.pc t = .reading port size buf ∧ size ≤ buf.length ∨
        s.pc t = .readFailed port size buf ∧ s.io.caller t = .outside ∧ buf ≠ []) :
    Did nterm s (endRead s t port size buf)
  | called (t : Thread) (inside : s.io.caller t ≠ .outside) :
    Did nterm s { s with io := callerStep s.io t }
  | gaveUp (t : Thread) (port size : Nat) (here : s.pc t = .readFailed port size [])
      (back : s.io.caller t = .outside) : Did nterm s (s.goto t (.waiting port size))
  | slept (t : Thread) (port size : Nat) (here : s.pc t = .waiting port size) :
    Did nterm s { s.goto t (.asleep port size) with
      owner := none, rxReady := s.rxReady.wait port t }
  | woke (t : Thread) (port size : Nat) (here : s.pc t = .asleep port size)
      (free : s.owner = none) (woken : s.rxReady.woken t ≠ none) :
    Did nterm s { s.goto t (.reading port size []) with
      owner := some t, rxReady := s.rxReady.resume t }
  | put (t : Thread) (port : Nat) (buf : List UInt8) (count : Nat) (byte : UInt8) (more : Bool)
      (here : s.pc t = .writing port buf count) (next : buf[count]? = some byte)
      (room : s.io.possible (con port) = true) :
    Did nterm s { s.goto t (.writing port buf (count + 1)) with
      io := ioTransfer s.io (con port) more
      written := Function.update s.written port (s.written port ++ [byte]) }
  | full (t : Thread) (port : Nat) (buf : List UInt8) (count : Nat)
      (here : s.pc t = .writing port buf count) (left : count < buf.length)
      (none : s.io.possible (con port) = false) :
    Did nterm s { s.goto t (.writeFailed port buf count) with io := ioFail s.io t (con port) }
  | writeReturned (t : Thread) (port : Nat) (buf : List UInt8) (count : Nat)
      (here : s.pc t = .writing port buf count ∧ buf.length ≤ count ∨
        s.pc t = .writeFailed port buf count ∧ s.io.caller t = .outside ∧ count ≠ 0) :
    Did nterm s (endWrite s t port buf count)
  | retried (t : Thread) (port : Nat) (buf : List UInt8)
      (here : s.pc t = .writeFailed port buf 0) (back : s.io.caller t = .outside) :
    Did nterm s (s.goto t (.writing port buf 0))
  | typed (port : Nat) (byte : UInt8) :
    Did nterm s { s with
      io := ioArrive s.io (kbd port)
      fifo := Function.update s.fifo port (s.fifo port ++ [byte])
      typed := Function.update s.typed port (s.typed port ++ [byte]) }
  | drained (port : Nat) : Did nterm s { s with io := ioArrive s.io (con port) }
  | picked (going : s.io.pic ≠ .selecting) :
    Did nterm s { s with io := picStep nterm s.io, rxPending := s.rxPending || Raises s }
  | selected (clock : UInt64) (failed : Bool) (here : s.io.pic = .selecting) :
    Did nterm s { s with io := picSelect nterm s.io clock failed }
  | handled : Did nterm s { s with rxPending := false, handler := List.range nterm }
  | broadcast (port : Nat) (rest : List Nat) (next : s.handler = port :: rest) :
    Did nterm s { s with handler := rest, rxReady := s.rxReady.broadcast port }

theorem thread_did {t : Thread} {more : Bool}
    (ready : (s.pc t).Asleep = true → s.owner = none ∧ s.rxReady.woken t ≠ none)
    (run : threadStep s t more = some s') : Did nterm s s' := by
  unfold threadStep at run
  split at run
  · cases run
  · rename_i port size buf here
    cases run
    unfold readPass
    split
    · rename_i room
      split
      · exact .starved t port size buf here room (by assumption)
      · exact .got t port size buf _ _ here room (by assumption)
    · exact .readReturned t port size buf (.inl ⟨here,by omega⟩)
  · rename_i port size buf here
    split at run
    · rename_i back
      split at run <;> cases run
      · rename_i empty
        exact .gaveUp t port size (empty ▸ here) back
      · exact .readReturned t port size buf (.inr ⟨here,back,by assumption⟩)
    · cases run
      exact .called t (by assumption)
  · rename_i port size here
    cases run
    exact .slept t port size here
  · rename_i port size here
    cases run
    obtain ⟨free,woken⟩ := ready (by rw [here]; rfl)
    exact .woke t port size here free woken
  · rename_i port buf count here
    cases run
    unfold writePass
    split
    · rename_i byte next
      split
      · exact .put t port buf count byte more here next (by assumption)
      · rename_i none
        exact .full t port buf count here (List.getElem?_eq_some_iff.mp next).1
          (by simpa using none)
    · rename_i last
      exact .writeReturned t port buf count (.inl ⟨here,List.getElem?_eq_none_iff.mp last⟩)
  · rename_i port buf count here
    split at run
    · rename_i back
      split at run <;> cases run
      · rename_i zero
        exact .retried t port buf (zero ▸ here) back
      · exact .writeReturned t port buf count (.inr ⟨here,back,by assumption⟩)
    · cases run
      exact .called t (by assumption)

theorem step_did {a : Action Thread} (move : (driverSystem Thread nterm).Step s a s') :
    Did nterm s s' := by
  obtain ⟨enabled,run⟩ := move
  cases a with
  | read t port size =>
    cases run
    exact .begun t _ enabled.1 enabled.2.1 (.inl ⟨port,size,enabled.2.2,rfl⟩)
  | write t port buf =>
    cases run
    exact .begun t _ enabled.1 enabled.2.1 (.inr ⟨port,buf,enabled.2.2,rfl⟩)
  | step t more => exact thread_did enabled.2 run
  | type port byte =>
    cases run
    exact .typed port byte
  | drain port =>
    cases run
    exact .drained port
  | pic =>
    cases run
    exact .picked enabled
  | select clock failed =>
    cases run
    exact .selected clock failed enabled
  | handle =>
    cases run
    exact .handled
  | broadcast =>
    simp only [driverSystem, act] at run
    split at run <;> cases run
    exact .broadcast _ _ (by assumption)

/-- Of the calls that are in the kernel, one that stays there. -/
theorem stay_owned (inv : FlowInv nterm s) {t : Thread} {pc : Pc} (inside : (s.pc t).Inside = true)
    (inside' : pc.Inside = true) :
    Owned (fun u => ((s.goto t pc).pc u).Inside) s.owner := by
  refine owned_keep inv.owned fun u => ?_
  by_cases same : u = t <;> simp [Driver.goto, same, inside, inside']

theorem leave_owned (inv : FlowInv nterm s) {t : Thread} {pc : Pc}
    (inside : (s.pc t).Inside = true) (outside : pc.Inside = false) :
    Owned (fun u => ((s.goto t pc).pc u).Inside) none :=
  owned_release inv.owned inside (by simpa [Driver.goto] using outside)
    fun u other => by simp [Driver.goto, other]

theorem enter_owned (inv : FlowInv nterm s) {t : Thread} {pc : Pc} (free : s.owner = none)
    (inside : pc.Inside = true) :
    Owned (fun u => ((s.goto t pc).pc u).Inside) (some t) :=
  owned_acquire (free ▸ inv.owned) (by simpa [Driver.goto] using inside)
    fun u other => by simp [Driver.goto, other]

theorem goto_fits (inv : FlowInv nterm s) {t : Thread} {pc : Pc} (fits : pc.Fits nterm) :
    ∀ u, ((s.goto t pc).pc u).Fits nterm := by
  intro u
  by_cases same : u = t
  · simpa [Driver.goto, same] using fits
  · simpa [Driver.goto, same] using inv.fits u

/-- A call that enters the kernel, with nothing read or written. -/
theorem enter_flow (inv : FlowInv nterm s) (t : Thread) {pc : Pc} (rxReady : Waits Thread Nat)
    (free : s.owner = none) (inside : pc.Inside = true) (got : ∀ port, pc.got port = [])
    (put : ∀ port, pc.put port = []) (fits : pc.Fits nterm) :
    FlowInv nterm { s.goto t pc with owner := some t, rxReady := rxReady } := by
  refine ⟨enter_owned inv free inside,goto_fits inv fits,fun port => ?_,fun port => ?_,inv.reads,
    inv.writes⟩
  · simp only [Driver.got, Driver.goto, Function.update_self]
    rw [got port, List.append_nil]
    exact (free_flow inv free port).1
  · simp only [Driver.put, Driver.goto, Function.update_self]
    rw [put port, List.append_nil]
    exact (free_flow inv free port).2

/-- A call that is in the kernel moves on and transfers nothing. -/
theorem stay_flow (inv : FlowInv nterm s) {t : Thread} {was pc : Pc} (here : s.pc t = was)
    (io : Io Thread) (inside : was.Inside = true) (inside' : pc.Inside = true)
    (got : ∀ port, pc.got port = was.got port) (put : ∀ port, pc.put port = was.put port)
    (fits : pc.Fits nterm) : FlowInv nterm { s.goto t pc with io := io } := by
  subst here
  have owner := inside_owner inv inside
  refine ⟨stay_owned inv inside inside',goto_fits inv fits,fun port => ?_,fun port => ?_,inv.reads,
    inv.writes⟩
  · simp only [Driver.got, Driver.goto, owner, Function.update_self]
    rw [got port]
    exact (owner_flow inv inside port).1
  · simp only [Driver.put, Driver.goto, owner, Function.update_self]
    rw [put port]
    exact (owner_flow inv inside port).2

theorem begun_flow (inv : FlowInv nterm s) (t : Thread) {pc : Pc} (free : s.owner = none)
    (starts : (∃ port size, port < nterm ∧ pc = .reading port size []) ∨
      ∃ port buf, port < nterm ∧ pc = .writing port buf 0) :
    FlowInv nterm { s.goto t pc with owner := some t } := by
  rcases starts with ⟨port,size,known,rfl⟩ | ⟨port,buf,known,rfl⟩
  · exact enter_flow inv t s.rxReady free rfl (by simp [Pc.got]) (by simp [Pc.put])
      ⟨known,Nat.zero_le size⟩
  · exact enter_flow inv t s.rxReady free rfl (by simp [Pc.got]) (by simp [Pc.put])
      ⟨known,Nat.zero_le _⟩

theorem slept_flow (inv : FlowInv nterm s) {t : Thread} {port size : Nat}
    (here : s.pc t = .waiting port size) :
    FlowInv nterm { s.goto t (.asleep port size) with
      owner := none, rxReady := s.rxReady.wait port t } := by
  have inside : (s.pc t).Inside = true := by rw [here]; rfl
  have flow := owner_flow inv inside
  rw [here] at flow
  refine ⟨leave_owned inv inside rfl,goto_fits inv ?_,fun p => ?_,fun p => ?_,inv.reads,
    inv.writes⟩
  · have fits := inv.fits t
    rwa [here] at fits
  · simpa [Driver.got, Driver.goto, Pc.got] using (flow p).1
  · simpa [Driver.put, Driver.goto, Pc.put] using (flow p).2

/- The byte goes from the port's fifo to the buffer of the call. -/
theorem got_flow (inv : FlowInv nterm s) {t : Thread} {port size : Nat} {buf rest : List UInt8}
    {byte : UInt8} (here : s.pc t = .reading port size buf) (room : buf.length < size)
    (first : s.fifo port = byte :: rest) :
    FlowInv nterm { s.goto t (.reading port size (buf ++ [byte])) with
      io := ioTransfer s.io (kbd port) (!rest.isEmpty)
      fifo := Function.update s.fifo port rest } := by
  have inside : (s.pc t).Inside = true := by rw [here]; rfl
  have owner := inside_owner inv inside
  have flow := owner_flow inv inside
  have fits := inv.fits t
  rw [here] at flow fits
  refine ⟨stay_owned inv inside rfl,goto_fits inv ⟨fits.1,by simpa using room⟩,fun p => ?_,
    fun p => ?_,inv.reads,inv.writes⟩
  · simp only [Driver.got, Driver.goto, owner, Function.update_self]
    rw [(flow p).1]
    by_cases same : p = port
    · subst same
      simp [Pc.got, first]
    · simp [Pc.got, same, Ne.symm same]
  · simpa [Driver.put, Driver.goto, owner, Pc.put] using (flow p).2

theorem put_flow (inv : FlowInv nterm s) {t : Thread} {port count : Nat} {buf : List UInt8}
    {byte : UInt8} (more : Bool) (here : s.pc t = .writing port buf count)
    (next : buf[count]? = some byte) :
    FlowInv nterm { s.goto t (.writing port buf (count + 1)) with
      io := ioTransfer s.io (con port) more
      written := Function.update s.written port (s.written port ++ [byte]) } := by
  have inside : (s.pc t).Inside = true := by rw [here]; rfl
  have owner := inside_owner inv inside
  have flow := owner_flow inv inside
  have fits := inv.fits t
  rw [here] at flow fits
  obtain ⟨below,is⟩ := List.getElem?_eq_some_iff.mp next
  refine ⟨stay_owned inv inside rfl,goto_fits inv ⟨fits.1,below⟩,fun p => ?_,fun p => ?_,
    inv.reads,inv.writes⟩
  · simpa [Driver.got, Driver.goto, owner, Pc.got] using (flow p).1
  · simp only [Driver.put, Driver.goto, owner, Function.update_self, Function.update_apply]
    by_cases same : p = port
    · subst same
      rw [if_pos rfl, (flow p).2]
      simp [Pc.put, List.take_add_one, next]
    · rw [if_neg same, (flow p).2]
      simp [Pc.put, Ne.symm same]

/- What the call has read is what it returns, and no longer what the owner has. -/
theorem endRead_flow (inv : FlowInv nterm s) {t : Thread} {port size : Nat} {buf : List UInt8}
    (here : s.pc t = .reading port size buf ∧ size ≤ buf.length ∨
      s.pc t = .readFailed port size buf ∧ s.io.caller t = .outside ∧ buf ≠ []) :
    FlowInv nterm (endRead s t port size buf) := by
  have inside : (s.pc t).Inside = true := by
    rcases here with ⟨here,_⟩ | ⟨here,_⟩ <;> rw [here] <;> rfl
  have got (p : Nat) : (s.pc t).got p = if port = p then buf else [] := by
    rcases here with ⟨here,_⟩ | ⟨here,_⟩ <;> rw [here] <;> rfl
  have put (p : Nat) : (s.pc t).put p = [] := by
    rcases here with ⟨here,_⟩ | ⟨here,_⟩ <;> rw [here] <;> rfl
  have flow := owner_flow inv inside
  refine ⟨leave_owned inv inside rfl,goto_fits inv trivial,fun p => ?_,fun p => ?_,
    fun p entry member => ?_,inv.writes⟩
  · simp only [Driver.got, endRead, Driver.goto, Function.update_apply]
    rw [(flow p).1, got p]
    by_cases same : p = port
    · subst same
      simp
    · simp [same, Ne.symm same]
  · simp only [Driver.put, endRead, Driver.goto]
    rw [(flow p).2, put p]
  · rcases (returned_mem member).symm with rfl | old
    · exact read_ok inv here
    · exact inv.reads p entry old

theorem endWrite_flow (inv : FlowInv nterm s) {t : Thread} {port count : Nat}
    {buf : List UInt8} (here : s.pc t = .writing port buf count ∧ buf.length ≤ count ∨
      s.pc t = .writeFailed port buf count ∧ s.io.caller t = .outside ∧ count ≠ 0) :
    FlowInv nterm (endWrite s t port buf count) := by
  have inside : (s.pc t).Inside = true := by
    rcases here with ⟨here,_⟩ | ⟨here,_⟩ <;> rw [here] <;> rfl
  have got (p : Nat) : (s.pc t).got p = [] := by
    rcases here with ⟨here,_⟩ | ⟨here,_⟩ <;> rw [here] <;> rfl
  have put (p : Nat) : (s.pc t).put p = if port = p then buf.take count else [] := by
    rcases here with ⟨here,_⟩ | ⟨here,_⟩ <;> rw [here] <;> rfl
  have flow := owner_flow inv inside
  refine ⟨leave_owned inv inside rfl,goto_fits inv trivial,fun p => ?_,fun p => ?_,inv.reads,
    fun p entry member => ?_⟩
  · simp only [Driver.got, endWrite, Driver.goto]
    rw [(flow p).1, got p]
  · simp only [Driver.put, endWrite, Driver.goto, Function.update_apply]
    rw [(flow p).2, put p]
    by_cases same : p = port
    · subst same
      simp
    · simp [same, Ne.symm same]
  · rcases (returned_mem member).symm with rfl | old
    · exact write_ok inv here
    · exact inv.writes p entry old

omit [DecidableEq Thread] in
theorem typed_flow (inv : FlowInv nterm s) (port : Nat) (byte : UInt8) :
    FlowInv nterm { s with
      io := ioArrive s.io (kbd port)
      fifo := Function.update s.fifo port (s.fifo port ++ [byte])
      typed := Function.update s.typed port (s.typed port ++ [byte]) } := by
  refine { inv with typed := fun p => ?_ }
  have typed := inv.typed p
  simp only [Function.update_apply]
  by_cases same : p = port
  · subst same
    rw [if_pos rfl, if_pos rfl, typed]
    simp [Driver.got]
  · rw [if_neg same, if_neg same]
    exact typed

theorem flow_did (inv : FlowInv nterm s) (did : Did nterm s s') : FlowInv nterm s' := by
  cases did with
  | called | drained | picked | selected | handled | broadcast => exact { inv with }
  | begun t pc here free starts => exact begun_flow inv t free starts
  | woke t port size here free woken =>
    have fits := inv.fits t
    rw [here] at fits
    exact enter_flow inv t _ free rfl (by simp [Pc.got]) (by simp [Pc.put])
      ⟨fits.1,Nat.zero_le size⟩
  | starved t port size buf here room empty =>
    have fits := inv.fits t
    rw [here] at fits
    exact stay_flow inv here (ioFail s.io t (kbd port)) rfl rfl (fun _ => rfl) (fun _ => rfl)
      ⟨fits.1,room⟩
  | full t port buf count here left none =>
    have fits := inv.fits t
    rw [here] at fits
    exact stay_flow inv here (ioFail s.io t (con port)) rfl rfl (fun _ => rfl) (fun _ => rfl)
      ⟨fits.1,left⟩
  | gaveUp t port size here back =>
    have fits := inv.fits t
    rw [here] at fits
    exact stay_flow inv here s.io rfl rfl (by simp [Pc.got]) (fun _ => rfl) fits
  | retried t port buf here back =>
    have fits := inv.fits t
    rw [here] at fits
    exact stay_flow inv here s.io rfl rfl (fun _ => rfl) (fun _ => rfl) ⟨fits.1,Nat.zero_le _⟩
  | slept t port size here => exact slept_flow inv here
  | got t port size buf byte rest here room first => exact got_flow inv here room first
  | put t port buf count byte more here next room => exact put_flow inv more here next
  | readReturned t port size buf here => exact endRead_flow inv here
  | writeReturned t port buf count here => exact endWrite_flow inv here
  | typed port byte => exact typed_flow inv port byte

theorem caller_since (io : Io Thread) (t : Thread) : (callerStep io t).since = io.since := by
  unfold callerStep
  split
  · rfl
  · split <;> rfl
  · rfl
  · rfl

theorem caller_kept (io : Io Thread) (t : Thread) :
    (∀ u, u ≠ t → (callerStep io t).caller u = io.caller u) ∧
      (callerStep io t).possible = io.possible := by
  unfold callerStep
  split
  · exact ⟨fun _ _ => rfl,rfl⟩
  · split
    · exact ⟨fun u other => Function.update_of_ne other _ _,rfl⟩
    · exact ⟨fun u other => Function.update_of_ne other _ _,rfl⟩
  · exact ⟨fun u other => Function.update_of_ne other _ _,rfl⟩
  · exact ⟨fun u other => Function.update_of_ne other _ _,rfl⟩

/-- A step of a thread that is awake before it and after it. -/
theorem move_sleep (inv : SleepInv s) (t : Thread) (pc : Pc) (io : Io Thread)
    (fifo : Nat → List UInt8) (callers : io.caller t = .outside ∨ pc.Failed = true)
    (others : ∀ u, u ≠ t → io.caller u = s.io.caller u)
    (possible : ∀ port, io.possible (kbd port) = !(fifo port).isEmpty)
    (before : (s.pc t).Asleep = false) (after : pc.Asleep = false) :
    SleepInv { s.goto t pc with io := io, fifo := fifo } := by
  refine ⟨fun u inside => ?_,possible,inv.sound,fun u port member => ?_,fun u awake => ?_,
    fun u port size is unwoken => ?_⟩
  · by_cases same : u = t
    · subst same
      simpa [Driver.goto] using callers.resolve_left inside
    · simpa [Driver.goto, same] using inv.callers u (others u same ▸ inside)
  · by_cases same : u = t
    · exact absurd (inv.asleep u port member) (by simp [same, before])
    · simpa [Driver.goto, same] using inv.asleep u port member
  · by_cases same : u = t
    · exact same ▸ inv.awake t before
    · exact inv.awake u (by simpa [Driver.goto, same] using awake)
  · by_cases same : u = t
    · simp only [Driver.goto, same, Function.update_self] at is
      rw [is] at after
      cases after
    · exact inv.there u port size (by simpa [Driver.goto, same] using is) unwoken

theorem goto_sleep (inv : SleepInv s) {t : Thread} {pc : Pc}
    (callers : s.io.caller t = .outside) (before : (s.pc t).Asleep = false)
    (after : pc.Asleep = false) : SleepInv (s.goto t pc) :=
  move_sleep inv t pc s.io s.fifo (.inl callers) (fun _ _ => rfl) inv.possible before after

theorem slept_sleep (inv : SleepInv s) {t : Thread} {port size : Nat}
    (here : s.pc t = .waiting port size) :
    SleepInv { s.goto t (.asleep port size) with
      owner := none, rxReady := s.rxReady.wait port t } := by
  have awake : (s.pc t).Asleep = false := by rw [here]; rfl
  have gone (p : Nat) : t ∉ s.rxReady.asleep p := fun member => by
    simp [inv.asleep t p member] at awake
  refine ⟨fun u inside => ?_,inv.possible,wait_sound inv.sound port gone (inv.awake t awake),
    fun u p member => ?_,fun u out => ?_,fun u p n is unwoken => ?_⟩
  · by_cases same : u = t
    · exact absurd (outside_caller inv (here ▸ rfl)) (same ▸ inside)
    · simpa [Driver.goto, same] using inv.callers u inside
  · by_cases same : u = t
    · simp [Driver.goto, same, Pc.Asleep]
    · have old := (mem_wait.mp member).resolve_right fun new => same new.2
      simpa [Driver.goto, same] using inv.asleep u p old
  · by_cases same : u = t
    · simp [Driver.goto, same, Pc.Asleep] at out
    · exact inv.awake u (by simpa [Driver.goto, same] using out)
  · by_cases same : u = t
    · simp only [Driver.goto, same, Function.update_self] at is
      cases is
      exact mem_wait.mpr (.inr ⟨rfl,same⟩)
    · exact mem_wait.mpr (.inl (inv.there u p n (by simpa [Driver.goto, same] using is) unwoken))

theorem woke_sleep (inv : SleepInv s) {t : Thread} {port size : Nat}
    (here : s.pc t = .asleep port size) (woken : s.rxReady.woken t ≠ none) :
    SleepInv { s.goto t (.reading port size []) with
      owner := some t, rxReady := s.rxReady.resume t } := by
  refine ⟨fun u inside => ?_,inv.possible,resume_sound inv.sound t,fun u p member => ?_,
    fun u awake => ?_,fun u p n is unwoken => ?_⟩
  · by_cases same : u = t
    · exact absurd (outside_caller inv (here ▸ rfl)) (same ▸ inside)
    · simpa [Driver.goto, same] using inv.callers u inside
  · have same : u ≠ t := fun same => woken (same ▸ inv.sound.unwoken p u member)
    simpa [Driver.goto, same] using inv.asleep u p member
  · by_cases same : u = t
    · simp [Waits.resume, same]
    · simpa [Waits.resume, same] using inv.awake u (by simpa [Driver.goto, same] using awake)
  · by_cases same : u = t
    · simp [Driver.goto, same] at is
    · exact inv.there u p n (by simpa [Driver.goto, same] using is)
        (by simpa [Waits.resume, same] using unwoken)

theorem broadcast_sleep (inv : SleepInv s) (port : Nat) (rest : List Nat) :
    SleepInv { s with handler := rest, rxReady := s.rxReady.broadcast port } := by
  have wakes := broadcast_wakes s.rxReady port
  refine { inv with
    sound := wakes_sound inv.sound wakes
    asleep := fun u p member => inv.asleep u p ((wakes.asleep p).subset member)
    awake := fun u awake => ?_
    there := fun u p n is unwoken => ?_ }
  · rw [wakes_awake wakes fun p member => by simp [inv.asleep u p member] at awake]
    exact inv.awake u awake
  · have outside : u ∉ s.rxReady.asleep port := fun member => by
      simp [Waits.broadcast, member] at unwoken
    have before : s.rxReady.woken u = none := by simpa [Waits.broadcast, outside] using unwoken
    have there := inv.there u p n is before
    have other : p ≠ port := fun same => outside (same ▸ there)
    simpa [Waits.broadcast, other] using there

theorem sleep_did (inv : SleepInv s) (did : Did nterm s s') : SleepInv s' := by
  have still {t : Thread} {pc : Pc} (here : s.pc t = pc) (failed : pc.Failed = false) :
      s.io.caller t = .outside := outside_caller inv (here ▸ failed)
  cases did with
  | handled => exact { inv with }
  | begun t pc here free starts =>
    have after : pc.Asleep = false := by rcases starts with ⟨_,_,_,rfl⟩ | ⟨_,_,_,rfl⟩ <;> rfl
    exact { goto_sleep inv (still here rfl) (by rw [here]; rfl) after with }
  | got t port size buf byte rest here room first =>
    exact { move_sleep inv t (.reading port size (buf ++ [byte]))
      (ioTransfer s.io (kbd port) (!rest.isEmpty)) _ (.inl (still here rfl)) (fun _ _ => rfl)
      (possible_kbd inv.possible rfl port) (by rw [here]; rfl) rfl with }
  | starved t port size buf here room empty =>
    have awake : (s.pc t).Asleep = false := by rw [here]; rfl
    exact { move_sleep inv t (.readFailed port size buf) (ioFail s.io t (kbd port)) s.fifo
      (.inr rfl) (fun u other => Function.update_of_ne other _ _) inv.possible awake rfl with }
  | readReturned t port size buf here =>
    have out : s.io.caller t = .outside := by
      rcases here with ⟨here,_⟩ | ⟨_,out,_⟩
      · exact still here rfl
      · exact out
    have awake : (s.pc t).Asleep = false := by
      rcases here with ⟨here,_⟩ | ⟨here,_⟩ <;> rw [here] <;> rfl
    exact { goto_sleep inv out awake rfl with }
  | called t inside =>
    have kept := caller_kept s.io t
    refine { inv with callers := fun u inside' => ?_, possible := kept.2 ▸ inv.possible }
    by_cases same : u = t
    · exact inv.callers u (same ▸ inside)
    · exact inv.callers u (kept.1 u same ▸ inside')
  | gaveUp t port size here back => exact goto_sleep inv back (by rw [here]; rfl) rfl
  | retried t port buf here back => exact goto_sleep inv back (by rw [here]; rfl) rfl
  | slept t port size here => exact slept_sleep inv here
  | woke t port size here free woken => exact woke_sleep inv here woken
  | put t port buf count byte more here next room =>
    exact { move_sleep inv t (.writing port buf (count + 1))
      (ioTransfer s.io (con port) more) s.fifo (.inl (still here rfl)) (fun _ _ => rfl)
      (fun p => (possible_con port p).trans (inv.possible p)) (by rw [here]; rfl) rfl with }
  | full t port buf count here left none =>
    have awake : (s.pc t).Asleep = false := by rw [here]; rfl
    exact { move_sleep inv t (.writeFailed port buf count) (ioFail s.io t (con port)) s.fifo
      (.inr rfl) (fun u other => Function.update_of_ne other _ _) inv.possible awake rfl with }
  | writeReturned t port buf count here =>
    have out : s.io.caller t = .outside := by
      rcases here with ⟨here,_⟩ | ⟨_,out,_⟩
      · exact still here rfl
      · exact out
    have awake : (s.pc t).Asleep = false := by
      rcases here with ⟨here,_⟩ | ⟨here,_⟩ <;> rw [here] <;> rfl
    exact { goto_sleep inv out awake rfl with }
  | typed port byte =>
    exact { inv with possible := possible_kbd inv.possible (by simp) port }
  | drained port =>
    exact { inv with possible := fun p => (possible_con port p).trans (inv.possible p) }
  | picked going =>
    have kept := pic_kept nterm s.io
    exact { inv with callers := kept.1 ▸ inv.callers, possible := kept.2 ▸ inv.possible }
  | selected clock failed here =>
    have kept := select_kept nterm s.io clock failed
    exact { inv with callers := kept.1 ▸ inv.callers, possible := kept.2 ▸ inv.possible }
  | broadcast port rest next => exact broadcast_sleep inv port rest

theorem driver_inductive :
    (driverSystem Thread nterm).Inductive (fun s => FlowInv nterm s ∧ SleepInv s) where
  start s first := by
    obtain ⟨room,clock,rfl⟩ := first
    exact ⟨initial_flow room clock,initial_sleep room clock⟩
  step s a s' inv move :=
    ⟨flow_did inv.1 (step_did move),sleep_did inv.2 (step_did move)⟩

/-- The devices under the driver do what they do under any threads that read and write. -/
theorem driver_io (reach : (driverSystem Thread nterm).Reach s) :
    (ioSystem Thread nterm).Reach s.io := by
  refine project_reach Driver.io driver_inductive (fun s first => ?_) (fun s a s' inv move => ?_)
    reach
  · obtain ⟨room,clock,rfl⟩ := first
    exact ⟨_,clock,rfl⟩
  · have out {t : Thread} {pc : Pc} (here : s.pc t = pc) (failed : pc.Failed = false) :
        s.io.caller t = .outside := outside_caller inv.2 (here ▸ failed)
    cases step_did move with
    | begun | readReturned | gaveUp | retried | slept | woke | writeReturned | handled
    | broadcast => exact .inl rfl
    | got t port size buf byte rest here room first =>
      have there : s.io.possible (kbd port) = true := by rw [inv.2.possible, first]; rfl
      exact .inr ⟨.transfer t (kbd port) (!rest.isEmpty),⟨out here rfl,there⟩,rfl⟩
    | starved t port size buf here room empty =>
      have none : s.io.possible (kbd port) = false := by rw [inv.2.possible, empty]; rfl
      exact .inr ⟨.fail t (kbd port),⟨out here rfl,none⟩,rfl⟩
    | called t inside => exact .inr ⟨.caller t,inside,rfl⟩
    | put t port buf count byte more here next room =>
      exact .inr ⟨.transfer t (con port) more,⟨out here rfl,room⟩,rfl⟩
    | full t port buf count here left none =>
      exact .inr ⟨.fail t (con port),⟨out here rfl,none⟩,rfl⟩
    | typed port byte => exact .inr ⟨.arrive (kbd port),trivial,rfl⟩
    | drained port => exact .inr ⟨.arrive (con port),trivial,rfl⟩
    | picked going => exact .inr ⟨.pic,going,rfl⟩
    | selected clock failed here => exact .inr ⟨.select clock failed,here,rfl⟩

/-- What is typed at a terminal is what the reads of it have returned, in the order in which they
    have returned, then what the read in the kernel has got, then what is in the fifo. What the
    console has received is, in the same way, what its writes say they have written. A read or write
    that returns moves a byte at least, and no more than it was asked to. -/
theorem serial_bytes_flow (reach : (driverSystem Thread nterm).Reach s) (port : Nat) :
    s.typed port = (s.reads port).flatMap Prod.snd ++ s.got port ++ s.fifo port ∧
    s.written port = (s.writes port).flatMap (fun entry => entry.1.take entry.2) ++ s.put port ∧
    (∀ entry ∈ s.reads port, ReadOk entry) ∧ ∀ entry ∈ s.writes port, WriteOk entry := by
  have inv := (inductive_reach driver_inductive reach).1
  exact ⟨inv.typed port,inv.written port,inv.reads port,inv.writes port⟩

/- Two bytes are typed, a read of up to four returns them, and one more is typed. -/
def readTwo : List (Action (Nat)) :=
  [.type 0 97, .type 0 98, .read 0 0 4, .step 0 false, .step 0 false, .step 0 false, .step 0 false,
    .step 0 false, .type 0 99]

theorem serial_bytes_flow_two : ∃ s : Driver (Nat), (driverSystem (Nat) 1).Reach s ∧
    s.reads 0 = [(4,[97,98])] ∧ s.fifo 0 = [99] ∧
      s.typed 0 = (s.reads 0).flatMap Prod.snd ++ s.got 0 ++ s.fifo 0 := by
  have reach := play_reach (m := driverSystem (Nat) 1) ⟨fun _ => true,0,rfl⟩ readTwo rfl
  exact ⟨_,reach,rfl,rfl,(serial_bytes_flow reach 0).1⟩

theorem thread_handler {t : Thread} {more : Bool} (run : threadStep s t more = some s') :
    s'.handler = s.handler := by
  unfold threadStep readPass writePass endRead endWrite Driver.goto at run
  grind

/-- A step of a thread after which its port is told of, if it falls asleep. -/
theorem goto_told (inv : ToldInv s) {t : Thread} {pc : Pc} (pcs : s'.pc = (s.goto t pc).pc)
    (woken : s'.rxReady.woken = s.rxReady.woken) (told : ∀ port, Told s port → Told s' port)
    (falls : ∀ port, pc.Falling port = true → Told s' port)
    (sleeps : ∀ port size, pc = .asleep port size → Told s' port) : ToldInv s' := by
  refine ⟨fun u port falling => ?_,fun u port size is unwoken => ?_⟩
  · by_cases same : u = t
    · exact falls port (by simpa [pcs, Driver.goto, same] using falling)
    · exact told port (inv.falling u port (by simpa [pcs, Driver.goto, same] using falling))
  · by_cases same : u = t
    · exact sleeps port size (by simpa [pcs, Driver.goto, same] using is)
    · exact told port (inv.asleep u port size (by simpa [pcs, Driver.goto, same] using is)
        (woken ▸ unwoken))

theorem told_did (flow : FlowInv nterm s) (sleep : SleepInv s) (inv : ToldInv s)
    (did : Did nterm s s') (calm : ∀ port rest, s.handler = port :: rest → s'.handler = rest →
      ∀ t, (s.pc t).Falling port = false) : ToldInv s' := by
  cases did with
  | begun t pc here free starts =>
    rcases starts with ⟨p,size,_,rfl⟩ | ⟨p,buf,_,rfl⟩
    · exact goto_told inv rfl rfl (fun _ => id) (by simp [Pc.Falling])
        (by simp)
    · exact goto_told inv rfl rfl (fun _ => id) (by simp [Pc.Falling])
        (by simp)
  | got | readReturned | put | writeReturned | retried =>
    exact goto_told inv rfl rfl (fun _ => id) (by simp [Pc.Falling]) (by simp)
  | starved t port size buf here room empty =>
    refine goto_told inv rfl rfl (fun p told => ?_) (fun p is => ?_) (by simp)
    · exact told.imp_left fun since => by simp [ioFail, Io.goto, Function.update_apply, since]
    · have same : port = p := by simpa [Pc.Falling] using is
      exact .inl (by simp [ioFail, same])
  | full t port buf count here left none =>
    refine goto_told inv rfl rfl (fun p told => ?_) (by simp [Pc.Falling])
      (by simp)
    exact told.imp_left fun since => by simp [ioFail, Io.goto, since]
  | gaveUp t port size here back =>
    refine goto_told inv rfl rfl (fun _ => id) (fun p is => ?_) (by simp)
    exact inv.falling t p (by rw [here]; exact is)
  | slept t port size here =>
    refine goto_told inv rfl rfl (fun _ => id) (by simp [Pc.Falling]) (fun p n is => ?_)
    cases is
    exact inv.falling t port (by rw [here]; simp [Pc.Falling])
  | woke t port size here free woken =>
    refine ⟨fun u p falling => ?_,fun u p n is unwoken => ?_⟩
    · by_cases same : u = t
      · simp [Driver.goto, same, Pc.Falling] at falling
      · exact inv.falling u p (by simpa [Driver.goto, same] using falling)
    · by_cases same : u = t
      · simp [Driver.goto, same] at is
      · exact inv.asleep u p n (by simpa [Driver.goto, same] using is)
          (by simpa [Waits.resume, same] using unwoken)
  | called t inside =>
    refine still_told inv rfl rfl (fun p _ told => told.imp_left fun since => ?_) flow
    rwa [caller_since]
  | typed | drained => exact still_told inv rfl rfl (fun _ _ => id) flow
  | picked going => exact still_told inv rfl rfl (fun _ _ => picked_told) flow
  | selected clock failed here =>
    refine still_told inv rfl rfl (fun p _ told => told.imp_left fun since => ?_) flow
    rwa [select_since]
  | handled =>
    exact still_told inv rfl rfl (fun p known _ => .inr (.inr (List.mem_range.mpr known))) flow
  | broadcast port rest next =>
    have kept {p : Nat} (other : p ≠ port) (told : Told s p) : Told { s with
        handler := rest, rxReady := s.rxReady.broadcast port } p := by
      simpa [Told, next, other] using told
    refine ⟨fun u p falling => ?_,fun u p n is unwoken => ?_⟩
    · refine kept (fun same => ?_) (inv.falling u p falling)
      subst same
      simp [calm p rest next rfl u] at falling
    · have outside : u ∉ s.rxReady.asleep port := fun member => by
        simp [Waits.broadcast, member] at unwoken
      have before : s.rxReady.woken u = none := by simpa [Waits.broadcast, outside] using unwoken
      have there := sleep.there u p n is before
      exact kept (fun same => outside (same ▸ there)) (inv.asleep u p n is before)

theorem calm_step {a : Action Thread}
    (move : ((driverSystem Thread nterm).restrict NoRace).Step s a s') {port : Nat}
    {rest : List Nat} (next : s.handler = port :: rest) (gone : s'.handler = rest) (t : Thread) :
    (s.pc t).Falling port = false := by
  obtain ⟨⟨enabled,run⟩,calm⟩ := restrict_step move
  have kept (same : s'.handler = s.handler) : False :=
    List.cons_ne_self port rest (next ▸ same ▸ gone)
  cases a with
  | broadcast => exact calm t port rest next
  | handle => exact absurd enabled.2 (by simp [next])
  | step u more => exact (kept (thread_handler run)).elim
  | read | write | type | drain | pic | select =>
    cases run
    exact (kept rfl).elim

theorem told_inductive : ((driverSystem Thread nterm).restrict NoRace).Inductive
    (fun s => (FlowInv nterm s ∧ SleepInv s) ∧ ToldInv s) where
  start s first := by
    refine ⟨driver_inductive.start s first,?_⟩
    obtain ⟨room,clock,rfl⟩ := first
    exact initial_told room clock
  step s a s' inv move := by
    have move' := (restrict_step move).1
    exact ⟨driver_inductive.step s a s' inv.1 move',
      told_did inv.1.1 inv.1.2 inv.2 (step_did move') fun _ _ => calm_step move⟩

/-- A reader that sleeps and has not been woken is among those that the handler wakes. If the
    handler wakes no readers between the failure of a read and its sleep, an interrupt of its port
    is to come, or has come and its readers are to be woken; and the interrupt does come: the
    keyboard is not ready, so that the PIC monitors it or is on its way to, or its interrupt is
    about to be raised, and at most one round of the PIC has found it ready and passed it by. -/
theorem sleeping_reader_told (reach : ((driverSystem Thread nterm).restrict NoRace).Reach s)
    {t : Thread} {port size : Nat} (here : s.pc t = .asleep port size)
    (unwoken : s.rxReady.woken t = none) :
    t ∈ s.rxReady.asleep port ∧
    (s.rxPending = true ∨ port ∈ s.handler ∨ s.io.since (kbd port) = false) ∧
    (s.io.since (kbd port) = false → Quiet s.io (kbd port) →
      (s.io.ready (kbd port) = false ∨ ∃ todo, s.io.pic = .raising (kbd port) todo) ∧
        s.io.missed (kbd port) ≤ 1) ∧
    (s.io.ready (kbd port) = false →
      Monitored s.io (kbd port) ∨ s.io.usr1 = true ∨ ∃ u e, s.io.caller u = .kicking e) := by
  obtain ⟨⟨flow,sleep⟩,told⟩ := inductive_reach told_inductive reach
  have io := inductive_reach io_inductive (driver_io (restrict_reach reach))
  have fits := flow.fits t
  rw [here] at fits
  have member : kbd port ∈ addOrder nterm := mem_add_order fits.1
  refine ⟨sleep.there t port size here unwoken,?_,fun since quiet => ?_,io.monitored _ member⟩
  · rcases told.asleep t port size here unwoken with since | pending | waiting
    · exact .inr (.inr since)
    · exact .inl pending
    · exact .inr (.inl waiting)
  · exact ⟨io.cleared _ (quiet_settled quiet) since,(io.bounded _ member quiet since).1⟩
/- Thread 0 finds nothing typed and falls asleep. -/
def emptyRead : List (Action (Nat)) :=
  [.read 0 0 4, .step 0 false, .step 0 false, .step 0 false, .step 0 false]

theorem sleeping_reader_told_empty : ∃ s : Driver (Nat),
    ((driverSystem (Nat) 1).restrict NoRace).Reach s ∧ s.pc 0 = .asleep 0 4 ∧
      s.rxReady.woken 0 = none ∧
      (s.rxPending = true ∨ 0 ∈ s.handler ∨ s.io.since (kbd 0) = false) := by
  have meets : ∀ s, ∀ a ∈ emptyRead, NoRace s a := by simp [emptyRead, NoRace]
  have reach := meets_reach (m := driverSystem (Nat) 1) ⟨fun _ => true,0,rfl⟩ emptyRead rfl
    (meets_of_all meets _)
  exact ⟨_,reach,rfl,rfl,
    (sleeping_reader_told (t := 0) reach (rfl : _ = Pc.asleep 0 4) rfl).2.1⟩

/- As above, but a byte is typed when the read has failed, and the handler, on another core, wakes
   the readers before thread 0 is one of them. -/
def racedRead : List (Action (Nat)) :=
  [.read 0 0 4, .step 0 false, .step 0 false, .type 0 97, .pic, .pic, .pic, .select 0 false, .pic,
    .pic, .pic, .pic, .handle, .broadcast, .step 0 false, .step 0 false]

/-- Where the handler does so, a reader sleeps on a byte and no interrupt of its port is to come,
    until the timeout of the PIC. -/
theorem raced_reader_untold : ∃ s : Driver (Nat), (driverSystem (Nat) 1).Reach s ∧
    s.pc 0 = .asleep 0 4 ∧ s.rxReady.woken 0 = none ∧ s.fifo 0 = [97] ∧ ¬ Told s 0 ∧
      s.io.ready (kbd 0) = true := by
  have reach := play_reach (m := driverSystem (Nat) 1) ⟨fun _ => true,0,rfl⟩ racedRead rfl
  exact ⟨_,reach,rfl,rfl,rfl,by unfold Told; decide,rfl⟩

end SerialDriver
