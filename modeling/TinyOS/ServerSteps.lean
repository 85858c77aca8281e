import TinyOS.RemoteServer

/- What the steps of the server's threads do, and what holds in all of its runs: who has the mutex,
   the ids of the connections and the log. -/
namespace RemoteServer
open Transition Monitor
variable {s s' : Globals}

/- The steps of the console that move it and pass the mutex on, and do nothing else. -/
inductive ConsoleGoes (s : Globals) : Console → Option Party → Prop where
  | list (is : s.console = .reading) : ConsoleGoes s .printLock s.mx
  | eof (is : s.console = .reading) : ConsoleGoes s (.returned true) s.mx
  | printLock (is : s.console = .printLock) (free : s.mx = none) :
      ConsoleGoes s .printInside (some .console)
  | print (is : s.console = .printInside) : ConsoleGoes s .reading none
  | join (is : s.console = .joining) (joined : s.listener = .returned) :
      ConsoleGoes s .waitLock s.mx
  | wait (is : s.console = .waitLock ∨ s.console = .relock) (free : s.mx = none) :
      ConsoleGoes s .testing (some .console)
  | drained (is : s.console = .testing) (drained : s.activeConn = 0) :
      ConsoleGoes s .unlocking s.mx
  | wake (is : s.console = .asleep) (woken : s.woken = true) : ConsoleGoes s .relock s.mx
  | unlock (is : s.console = .unlocking) : ConsoleGoes s .truncateLock none
  | truncateLock (is : s.console = .truncateLock) (free : s.mx = none) :
      ConsoleGoes s .truncateInside (some .console)
  | leave (is : s.console = .freeing []) : ConsoleGoes s (.returned false) s.mx

inductive ListenerGoes (s : Globals) : Listener → Option Party → Prop where
  | unheard (is : s.listener = .opening) : ListenerGoes s .returned s.mx
  | accepted (is : s.listener = .accepting) : ListenerGoes s .readActive s.mx
  | refused (is : s.listener = .accepting) : ListenerGoes s .testQuit s.mx
  | ended (is : s.listener = .testQuit) (quit : s.quit = true) : ListenerGoes s .returned s.mx
  | failed (is : s.listener = .testQuit) (quit : s.quit = false) : ListenerGoes s .logLock s.mx
  | logLock (is : s.listener = .logLock) (free : s.mx = none) :
      ListenerGoes s .logInside (some .listener)

inductive ClientGoes (s : Globals) (n : Nat) : Client → Client → Option Party → Prop where
  | idLock (free : s.mx = none) : ClientGoes s n .idLock .idInside (some (.client n))
  | logLock (id : UInt64) (message : Message) (free : s.mx = none) :
      ClientGoes s n (.logLock id message) (.logInside id message) (some (.client n))
  | received (id : UInt64) : ClientGoes s n (.receiving id false) (.receiving id true) s.mx
  | receivedArgs (id : UInt64) : ClientGoes s n (.receiving id true) (.executing id) s.mx
  | lost (id : UInt64) (args : Bool) :
      ClientGoes s n (.receiving id args) (.logLock id (.receiveError id)) s.mx
  | exited (id : UInt64) (status : Int) :
      ClientGoes s n (.executing id) (.logLock id (.finished id status)) s.mx
  | finishLock (free : s.mx = none) : ClientGoes s n .finishLock .finishRead (some (.client n))
  | finishUnlock : ClientGoes s n .finishUnlock .returned none

/- Whether the globals have been used too late, after a step of another thread than the console. -/
def Late (s : Globals) (late : Bool) : Prop :=
  late = true → s.late = true ∨ s.console.Returned = true

inductive Did (s : Globals) : Action → Globals → Prop where
  | shown (a : Action) : Did s a s
  | quit (is : s.console = .reading) :
      Did s (.command .quit) { s with quit := true, console := .closing }
  | console (a : Action) (c : Console) (mx : Option Party) (goes : ConsoleGoes s c mx) :
      Did s a { s with console := c, mx := mx }
  | close (is : s.console = .closing) (stored : s.stored = true) :
      Did s .console { s with closed := true, console := .joining }
  | stray (is : s.console = .closing) (stored : s.stored = false) :
      Did s .console { s with stray := true, console := .joining }
  | sleep (is : s.console = .testing) (active : s.activeConn ≠ 0) :
      Did s .console { s with mx := none, woken := false, console := .asleep }
  | truncate (is : s.console = .truncateInside) :
      Did s .console { s with mx := none, log := [], console := .freeing s.log }
  | free (r : LogRec) (list : List LogRec) (is : s.console = .freeing (r :: list)) :
      Did s .console { s with freed := s.freed ++ [r], console := .freeing list }
  | listened (late : Bool) (touched : Late s late) (is : s.listener = .opening) :
      Did s (.listen true) { s with stored := true, listener := .accepting, late := late }
  | listener (a : Action) (l : Listener) (mx : Option Party) (late : Bool) (touched : Late s late)
      (goes : ListenerGoes s l mx) :
      Did s a { s with listener := l, mx := mx, late := late }
  | refusal (late : Bool) (touched : Late s late) (is : s.listener = .logInside) :
      Did s .listener
        { logMessage s .failedAccept with listener := .accepting, late := late }
  | readActive (late : Bool) (touched : Late s late) (is : s.listener = .readActive) :
      Did s .listener { s with listener := .writeActive s.activeConn, late := late }
  | writeActive (late : Bool) (touched : Late s late) (active : UInt64)
      (is : s.listener = .writeActive active) :
      Did s .listener
        { s with activeConn := active + 1, listener := .countTotal, late := late }
  | countTotal (late : Bool) (touched : Late s late) (is : s.listener = .countTotal) :
      Did s .listener
        { s with totalConn := s.totalConn + 1, listener := .create, late := late }
  | create (is : s.listener = .create) :
      Did s .listener { s with clients := s.clients ++ [.idLock], listener := .accepting }
  | client (a : Action) (n : Nat) (c c' : Client) (mx : Option Party) (late : Bool)
      (touched : Late s late) (is : s.clients[n]? = some c) (goes : ClientGoes s n c c' mx) :
      Did s a { s.setClient n c' with mx := mx, late := late }
  | takeId (n : Nat) (late : Bool) (touched : Late s late)
      (is : s.clients[n]? = some .idInside) :
      Did s (.client n)
        { s.setClient n (.logLock (s.connIdCounter + 1) (.started (s.connIdCounter + 1))) with
          connIdCounter := s.connIdCounter + 1, ids := s.ids ++ [n], mx := none, late := late }
  | log (n : Nat) (id : UInt64) (message : Message) (late : Bool) (touched : Late s late)
      (is : s.clients[n]? = some (.logInside id message)) :
      Did s (.client n)
        { (logMessage s message).setClient n (afterLog id message) with late := late }
  | finishRead (n : Nat) (late : Bool) (touched : Late s late)
      (is : s.clients[n]? = some .finishRead) :
      Did s (.client n) { s.setClient n (.finishWrite s.activeConn) with late := late }
  | finishWrite (n : Nat) (active : UInt64) (late : Bool) (touched : Late s late)
      (is : s.clients[n]? = some (.finishWrite active)) :
      Did s (.client n)
        { s.setClient n .finishBroadcast with activeConn := active - 1, late := late }
  | broadcast (n : Nat) (late : Bool) (touched : Late s late)
      (is : s.clients[n]? = some .finishBroadcast) :
      Did s (.client n) { (broadcast s).setClient n .finishUnlock with late := late }

theorem touch_late (s : Globals) : Late s (s.late || s.console.Returned) := by
  intro late
  simpa using late

theorem same_late (s : Globals) : Late s s.late := fun late => .inl late

theorem console_did (enabled : Enabled s .console) (run : consoleStep s = some s') :
    Did s .console s' := by
  obtain ⟨steps,lock⟩ := enabled
  cases is : s.console with
  | reading | returned => simp [is, Console.Steps] at steps
  | printLock =>
    simp only [consoleStep, is, Option.some.injEq] at run
    exact run ▸ .console _ _ _ (.printLock is (lock (by rw [is]; rfl)))
  | printInside =>
    simp only [consoleStep, is, Option.some.injEq] at run
    exact run ▸ .console _ _ _ (.print is)
  | closing =>
    simp only [consoleStep, is] at run
    split at run <;> rename_i stored <;> cases run
    · exact .close is stored
    · exact .stray is (by simpa using stored)
  | joining =>
    simp only [consoleStep, is, Option.some.injEq] at run
    exact run ▸ .console _ _ _ (.join is (by simpa [is, Console.Steps] using steps))
  | waitLock =>
    simp only [consoleStep, is, Option.some.injEq] at run
    exact run ▸ .console _ _ _ (.wait (.inl is) (lock (by rw [is]; rfl)))
  | relock =>
    simp only [consoleStep, is, Option.some.injEq] at run
    exact run ▸ .console _ _ _ (.wait (.inr is) (lock (by rw [is]; rfl)))
  | testing =>
    simp only [consoleStep, is] at run
    split at run <;> rename_i active <;> cases run
    · exact .sleep is (by rintro none; simp [none] at active)
    · exact .console _ _ _ (.drained is (by simpa using active))
  | asleep =>
    simp only [consoleStep, is, Option.some.injEq] at run
    exact run ▸ .console _ _ _ (.wake is (by simpa [is, Console.Steps] using steps))
  | unlocking =>
    simp only [consoleStep, is, Option.some.injEq] at run
    exact run ▸ .console _ _ _ (.unlock is)
  | truncateLock =>
    simp only [consoleStep, is, Option.some.injEq] at run
    exact run ▸ .console _ _ _ (.truncateLock is (lock (by rw [is]; rfl)))
  | truncateInside =>
    simp only [consoleStep, is, Option.some.injEq] at run
    exact run ▸ .truncate is
  | freeing list =>
    cases list with
    | nil =>
      simp only [consoleStep, is, Option.some.injEq] at run
      exact run ▸ .console _ _ _ (.leave is)
    | cons r list =>
      simp only [consoleStep, is, Option.some.injEq] at run
      exact run ▸ .free r list is

theorem listener_did (enabled : Enabled s .listener) (run : listenerStep s = some s') :
    Did s .listener s' := by
  obtain ⟨steps,lock⟩ := enabled
  cases is : s.listener with
  | opening | accepting | returned => simp [is, Listener.Steps] at steps
  | testQuit =>
    simp only [listenerStep, is] at run
    split at run <;> rename_i quit <;> cases run
    · exact .listener _ _ _ _ (touch_late s) (.ended is quit)
    · exact .listener _ _ _ _ (touch_late s) (.failed is (by simpa using quit))
  | logLock =>
    simp only [listenerStep, is, Option.some.injEq] at run
    exact run ▸ .listener _ _ _ _ (touch_late s) (.logLock is (lock is))
  | logInside =>
    simp only [listenerStep, is, Option.some.injEq] at run
    exact run ▸ .refusal _ (touch_late s) is
  | readActive =>
    simp only [listenerStep, is, Option.some.injEq] at run
    exact run ▸ .readActive _ (touch_late s) is
  | writeActive active =>
    simp only [listenerStep, is, Option.some.injEq] at run
    exact run ▸ .writeActive _ (touch_late s) active is
  | countTotal =>
    simp only [listenerStep, is, Option.some.injEq] at run
    exact run ▸ .countTotal _ (touch_late s) is
  | create =>
    simp only [listenerStep, is, Option.some.injEq] at run
    exact run ▸ .create is

theorem client_did {n : Nat} (enabled : Enabled s (.client n)) (run : clientStep s n = some s') :
    Did s (.client n) s' := by
  obtain ⟨c,is,steps⟩ := (Option.any_eq_true _ _).mp enabled
  have lock : c.Locks = true → s.mx = none := by
    intro locks
    simpa [locks] using ((Bool.and_eq_true _ _).mp steps).2
  simp only [clientStep, is] at run
  cases c with
  | receiving | executing => simp [Client.Steps, Client.Receives, Client.Executes] at steps
  | returned => simp [Client.Steps] at steps
  | idLock =>
    cases run
    exact .client _ n _ _ _ _ (touch_late s) is (.idLock (lock rfl))
  | idInside =>
    cases run
    exact .takeId n _ (touch_late s) is
  | logLock id message =>
    cases run
    exact .client _ n _ _ _ _ (touch_late s) is (.logLock id message (lock rfl))
  | logInside id message =>
    cases run
    exact .log n id message _ (touch_late s) is
  | finishLock =>
    cases run
    exact .client _ n _ _ _ _ (touch_late s) is (.finishLock (lock rfl))
  | finishRead =>
    cases run
    exact .finishRead n _ (touch_late s) is
  | finishWrite active =>
    cases run
    exact .finishWrite n active _ (touch_late s) is
  | finishBroadcast =>
    cases run
    exact .broadcast n _ (touch_late s) is
  | finishUnlock =>
    cases run
    exact .client _ n _ _ _ _ (touch_late s) is .finishUnlock

theorem receive_did {n : Nat} {ok : Bool} (run : receive s n ok = some s') :
    Did s (.receive n ok) s' := by
  simp only [receive] at run
  split at run
  · rename_i id args is
    split at run
    · split at run <;> rename_i args' <;> cases run
      · subst args'
        exact .client _ n _ _ _ _ (same_late s) is (.receivedArgs id)
      · rw [Bool.not_eq_true] at args'
        subst args'
        exact .client _ n _ _ _ _ (same_late s) is (.received id)
    · cases run
      exact .client _ n _ _ _ _ (same_late s) is (.lost id args)
  · cases run

theorem exit_did {n : Nat} {status : Int} (run : exit s n status = some s') :
    Did s (.exit n status) s' := by
  simp only [exit] at run
  split at run
  · rename_i id is
    cases run
    exact .client _ n _ _ _ _ (same_late s) is (.exited id status)
  · cases run

theorem step_did {a : Action} (move : serverSystem.Step s a s') : Did s a s' := by
  obtain ⟨enabled,run⟩ := move
  cases a with
  | command c =>
    cases c with
    | quit =>
      cases run
      exact .quit enabled
    | list =>
      cases run
      exact .console _ _ _ (.list enabled)
    | eof =>
      cases run
      exact .console _ _ _ (.eof enabled)
    | statistics | help | unknown =>
      cases run
      exact .shown _
  | console => exact console_did enabled run
  | listen ok =>
    cases ok <;> cases run
    · exact .listener _ _ _ _ (same_late s) (.unheard enabled)
    · exact .listened _ (touch_late s) enabled
  | accept ok =>
    cases ok <;> cases run
    · exact .listener _ _ _ _ (same_late s) (.refused enabled)
    · exact .listener _ _ _ _ (same_late s) (.accepted enabled)
  | listener => exact listener_did enabled run
  | receive n ok => exact receive_did run
  | exit n status => exact exit_did run
  | client n => exact client_did enabled run

def Client.Inside : Client → Bool
  | .idInside | .logInside _ _ | .finishRead | .finishWrite _ | .finishBroadcast
  | .finishUnlock => true
  | _ => false

def Console.Inside : Console → Bool
  | .printInside | .testing | .unlocking | .truncateInside => true
  | _ => false

/- Who is in a section of the mutex. -/
def Globals.holds (s : Globals) : Party → Bool
  | .console => s.console.Inside
  | .listener => s.listener = .logInside
  | .client n => (s.clients[n]?).any Client.Inside

theorem set_at {α : Type} {l : List α} {n : Nat} {c : α} (is : l[n]? = some c) (c' : α) :
    (l.set n c')[n]? = some c' :=
  List.getElem?_set_self (List.getElem?_eq_some_iff.mp is).1

theorem added_at {α : Type} {l : List α} {x c : α} {n : Nat} (is : (l ++ [x])[n]? = some c) :
    l[n]? = some c ∨ c = x := by
  rw [List.getElem?_append] at is
  split at is
  · exact .inl is
  · exact .inr (List.mem_singleton.mp (List.mem_of_getElem? is))

theorem console_passes {c : Console} {mx : Option Party} (goes : ConsoleGoes s c mx) :
    Passes Party.console s.console.Inside c.Inside s.mx mx := by
  cases goes with
  | list is | eof is | join is | wake is | leave is => exact .inl ⟨by rw [is]; rfl,rfl⟩
  | drained is => exact .inl ⟨by rw [is]; rfl,rfl⟩
  | printLock is free | truncateLock is free => exact .inr (.inl ⟨free,rfl,rfl⟩)
  | wait is free => exact .inr (.inl ⟨free,rfl,rfl⟩)
  | print is | unlock is => exact .inr (.inr ⟨by rw [is]; rfl,rfl,rfl⟩)

theorem client_passes {n : Nat} {c c' : Client} {mx : Option Party}
    (goes : ClientGoes s n c c' mx) : Passes (Party.client n) c.Inside c'.Inside s.mx mx := by
  cases goes with
  | idLock free | logLock _ _ free | finishLock free => exact .inr (.inl ⟨free,rfl,rfl⟩)
  | received | receivedArgs | lost | exited => exact .inl ⟨rfl,rfl⟩
  | finishUnlock => exact .inr (.inr ⟨rfl,rfl,rfl⟩)

theorem listener_passes {l : Listener} {mx : Option Party} (goes : ListenerGoes s l mx) :
    Passes Party.listener (decide (s.listener = .logInside)) (decide (l = .logInside)) s.mx mx := by
  cases goes with
  | unheard is | accepted is | refused is | ended is | failed is =>
    exact .inl ⟨by rw [is]; rfl,rfl⟩
  | logLock is free => exact .inr (.inl ⟨free,rfl,rfl⟩)

/- A step of one client is no concern of the mutex for the others. -/
theorem client_owned {n : Nat} {c c' : Client} {t : Globals} (owned : Owned s.holds s.mx)
    (is : s.clients[n]? = some c) (clients : t.clients = s.clients.set n c')
    (passes : Passes (Party.client n) c.Inside c'.Inside s.mx t.mx)
    (console : t.console = s.console) (listener : t.listener = s.listener) :
    Owned t.holds t.mx := by
  refine owned_passes owned (t := .client n) ?_ ?_
  · simpa [Globals.holds, is, clients, set_at is c'] using passes
  · intro u other
    cases u with
    | console => simp only [Globals.holds, console]
    | listener => simp only [Globals.holds, listener]
    | client m =>
      have apart : m ≠ n := fun same => other (same ▸ rfl)
      simp only [Globals.holds, clients, List.getElem?_set_ne (Ne.symm apart)]

theorem listener_owned {t : Globals} (owned : Owned s.holds s.mx)
    (passes : Passes Party.listener (decide (s.listener = .logInside))
      (decide (t.listener = .logInside)) s.mx t.mx)
    (clients : ∀ n : Nat, (t.clients[n]?).any Client.Inside = (s.clients[n]?).any Client.Inside)
    (console : t.console = s.console) : Owned t.holds t.mx := by
  refine owned_passes owned (t := .listener) passes ?_
  intro u other
  cases u with
  | console => simp only [Globals.holds, console]
  | listener => exact absurd rfl other
  | client m => exact clients m

theorem console_owned {t : Globals} (owned : Owned s.holds s.mx)
    (passes : Passes Party.console s.console.Inside t.console.Inside s.mx t.mx)
    (clients : t.clients = s.clients) (listener : t.listener = s.listener) :
    Owned t.holds t.mx := by
  refine owned_passes owned (t := .console) passes ?_
  intro u other
  cases u with
  | console => exact absurd rfl other
  | listener => simp only [Globals.holds, listener]
  | client m => simp only [Globals.holds, clients]

theorem did_owned {a : Action} (owned : Owned s.holds s.mx) (did : Did s a s') :
    Owned s'.holds s'.mx := by
  cases did with
  | shown => exact owned
  | quit is => exact console_owned owned (.inl ⟨by rw [is]; rfl,rfl⟩) rfl rfl
  | console _ c mx goes => exact console_owned owned (console_passes goes) rfl rfl
  | close is | stray is | free _ _ is =>
    exact console_owned owned (.inl ⟨by rw [is]; rfl,rfl⟩) rfl rfl
  | sleep is | truncate is =>
    exact console_owned owned (.inr (.inr ⟨by rw [is]; rfl,rfl,rfl⟩)) rfl rfl
  | listened _ _ is | readActive _ _ is | writeActive _ _ _ is | countTotal _ _ is =>
    exact listener_owned owned (.inl ⟨by rw [is]; rfl,rfl⟩) (fun _ => rfl) rfl
  | listener _ l mx late touched goes =>
    exact listener_owned owned (listener_passes goes) (fun _ => rfl) rfl
  | refusal _ _ is =>
    exact listener_owned owned (.inr (.inr ⟨by rw [is]; rfl,rfl,rfl⟩)) (fun _ => rfl) rfl
  | create is =>
    refine listener_owned owned (.inl ⟨by rw [is]; rfl,rfl⟩) (fun n => ?_) rfl
    rw [List.getElem?_append]
    split
    · rfl
    · rename_i beyond
      rw [List.getElem?_eq_none (Nat.le_of_not_lt beyond)]
      cases n - s.clients.length <;> rfl
  | client _ n c c' mx late touched is goes =>
    exact client_owned owned is rfl (client_passes goes) rfl rfl
  | takeId n _ _ is =>
    exact client_owned owned is rfl (.inr (.inr ⟨rfl,rfl,rfl⟩)) rfl rfl
  | log n id message _ _ is =>
    refine client_owned owned is rfl (.inr (.inr ⟨rfl,?_,rfl⟩)) rfl rfl
    cases message <;> rfl
  | finishRead n _ _ is | finishWrite n _ _ _ is | broadcast n _ _ is =>
    exact client_owned owned is rfl (.inl ⟨rfl,rfl⟩) rfl rfl

theorem server_owned : serverSystem.Inductive (fun s => Owned s.holds s.mx) where
  start s first := by
    subst first
    intro u
    cases u <;> simp [Globals.holds, initial, Console.Inside]
  step s a s' owned move := did_owned owned (step_did move)

def Console.list : Console → List LogRec
  | .freeing list => list
  | _ => []

/- The records are numbered as they come, and each is in the log until it is freed. -/
structure LogInv (s : Globals) : Prop where
  logcount : s.logcount = UInt64.ofNat s.records.length
  numbered : ∀ k r, s.records[k]? = some r → r.num = UInt64.ofNat (k + 1)
  kept : s.records = s.freed ++ s.console.list ++ s.log

theorem same_log {t : Globals} (inv : LogInv s) (logcount : t.logcount = s.logcount)
    (records : t.records = s.records) (kept : t.freed ++ t.console.list ++ t.log =
      s.freed ++ s.console.list ++ s.log) : LogInv t where
  logcount := by rw [logcount, records, inv.logcount]
  numbered := by rw [records]; exact inv.numbered
  kept := by rw [records, kept, inv.kept]

theorem console_list {c : Console} {mx : Option Party} (goes : ConsoleGoes s c mx) :
    c.list = s.console.list := by
  cases goes with
  | list is | eof is | printLock is | print is | join is | drained is | wake is | unlock is
  | truncateLock is | leave is => rw [is]; rfl
  | wait is => rcases is with is | is <;> rw [is] <;> rfl

theorem logged_inv {t : Globals} (inv : LogInv s) (message : Message)
    (logcount : t.logcount = s.logcount + 1) (log : t.log = s.log ++ [⟨s.logcount + 1,message⟩])
    (records : t.records = s.records ++ [⟨s.logcount + 1,message⟩]) (freed : t.freed = s.freed)
    (console : t.console = s.console) : LogInv t where
  logcount := by
    rw [logcount, records, List.length_append, inv.logcount]
    exact (UInt64.ofNat_add _ _).symm
  numbered k r is := by
    rw [records, List.getElem?_append] at is
    split at is
    · exact inv.numbered k r is
    · have last : k = s.records.length := by
        have := (List.getElem?_eq_some_iff.mp is).1
        simp only [List.length_singleton] at this
        omega
      rw [last, Nat.sub_self] at is
      cases is
      rw [last, inv.logcount]
      exact (UInt64.ofNat_add _ _).symm
  kept := by
    rw [records, log, freed, console, inv.kept]
    simp only [List.append_assoc]

theorem did_log {a : Action} (inv : LogInv s) (did : Did s a s') : LogInv s' := by
  cases did with
  | shown => exact inv
  | console _ c mx goes =>
    refine same_log inv rfl rfl ?_
    show s.freed ++ c.list ++ s.log = _
    rw [console_list goes]
  | quit is | close is | stray is | sleep is =>
    refine same_log inv rfl rfl ?_
    simp only [is]
    rfl
  | truncate is =>
    refine same_log inv rfl rfl ?_
    simp only [is, Console.list, List.append_nil]
  | free r list is =>
    refine same_log inv rfl rfl ?_
    simp only [is, Console.list, List.append_assoc, List.singleton_append]
  | refusal => exact logged_inv inv .failedAccept rfl rfl rfl rfl rfl
  | log n id message => exact logged_inv inv message rfl rfl rfl rfl rfl
  | listened | listener | readActive | writeActive | countTotal | create | client | takeId
  | finishRead | finishWrite | broadcast => exact same_log inv rfl rfl rfl

def Message.connId : Message → Option UInt64
  | .failedAccept => none
  | .started id | .receiveError id | .finished id _ => some id

/- Before its thread has got an id. -/
def Client.Early : Client → Bool
  | .idLock | .idInside => true
  | _ => false

def Client.connId : Client → Option UInt64
  | .logLock id _ | .logInside id _ | .receiving id _ | .executing id => some id
  | _ => none

def Client.message : Client → Option Message
  | .logLock _ message | .logInside _ message => some message
  | _ => none

/- The ids are given out one after the other, to another client each time. -/
structure IdInv (s : Globals) : Prop where
  counter : s.connIdCounter = UInt64.ofNat s.ids.length
  nodup : s.ids.Nodup
  served : ∀ n ∈ s.ids, ∃ c, s.clients[n]? = some c ∧ c.Early = false
  given : ∀ (n : Nat) (c : Client) (id : UInt64), s.clients[n]? = some c → c.connId = some id →
    ∃ k, s.ids[k]? = some n ∧ id = UInt64.ofNat (k + 1)
  reports : ∀ (n : Nat) (c : Client) (m : Message), s.clients[n]? = some c →
    c.message = some m → m.connId = c.connId
  logged : ∀ r ∈ s.records, ∀ id, r.message.connId = some id →
    ∃ k < s.ids.length, id = UInt64.ofNat (k + 1)

theorem client_ids {n : Nat} {c c' : Client} {t : Globals} (inv : IdInv s)
    (is : s.clients[n]? = some c) (clients : t.clients = s.clients.set n c')
    (same : t.ids = s.ids ∧ t.connIdCounter = s.connIdCounter)
    (early : c'.Early = true → c.Early = true)
    (kept : ∀ id, c'.connId = some id → c.connId = some id)
    (reports : ∀ m, c'.message = some m → m.connId = c'.connId)
    (logged : ∀ r ∈ t.records, r ∈ s.records ∨ r.message.connId = c.connId) : IdInv t where
  counter := by rw [same.1, same.2, inv.counter]
  nodup := same.1 ▸ inv.nodup
  served m member := by
    obtain ⟨d,at_,late⟩ := inv.served m (same.1 ▸ member)
    by_cases here : m = n
    · subst here
      refine ⟨c',by rw [clients]; exact set_at is c',?_⟩
      rw [is] at at_
      cases at_
      by_contra no
      exact absurd (early (by simpa using no)) (by simp [late])
    · exact ⟨d,by rw [clients, List.getElem?_set_ne (Ne.symm here), at_],late⟩
  given m d id at_ has := by
    rw [same.1]
    by_cases here : m = n
    · subst here
      rw [clients, set_at is c'] at at_
      cases at_
      exact inv.given m c id is (kept id has)
    · rw [clients, List.getElem?_set_ne (Ne.symm here)] at at_
      exact inv.given m d id at_ has
  reports m d message at_ has := by
    by_cases here : m = n
    · subst here
      rw [clients, set_at is c'] at at_
      cases at_
      exact reports message has
    · rw [clients, List.getElem?_set_ne (Ne.symm here)] at at_
      exact inv.reports m d message at_ has
  logged r member id has := by
    rw [same.1]
    rcases logged r member with old | new
    · exact inv.logged r old id has
    · obtain ⟨k,at_,is'⟩ := inv.given n c id is (new ▸ has)
      exact ⟨k,(List.getElem?_eq_some_iff.mp at_).1,is'⟩

theorem same_ids {t : Globals} (inv : IdInv s) (clients : t.clients = s.clients)
    (ids : t.ids = s.ids) (counter : t.connIdCounter = s.connIdCounter)
    (records : ∀ r ∈ t.records, r ∈ s.records ∨ r.message.connId = none) : IdInv t where
  counter := by rw [counter, ids, inv.counter]
  nodup := ids ▸ inv.nodup
  served := by rw [ids, clients]; exact inv.served
  given := by rw [ids, clients]; exact inv.given
  reports := by rw [clients]; exact inv.reports
  logged r member id has := by
    rw [ids]
    rcases records r member with old | none
    · exact inv.logged r old id has
    · rw [none] at has
      cases has

theorem create_ids (inv : IdInv s) : IdInv
    { s with clients := s.clients ++ [.idLock], listener := .accepting } where
  counter := inv.counter
  nodup := inv.nodup
  served n member := by
    obtain ⟨c,is,late⟩ := inv.served n member
    exact ⟨c,by rw [List.getElem?_append_left (List.getElem?_eq_some_iff.mp is).1]; exact is,late⟩
  given n c id is has := by
    rcases added_at is with old | new
    · exact inv.given n c id old has
    · subst new
      cases has
  reports n c m is has := by
    rcases added_at is with old | new
    · exact inv.reports n c m old has
    · subst new
      cases has
  logged := inv.logged

theorem take_ids {n : Nat} {t : Globals} (inv : IdInv s) (is : s.clients[n]? = some .idInside)
    (clients : t.clients =
      s.clients.set n (.logLock (s.connIdCounter + 1) (.started (s.connIdCounter + 1))))
    (ids : t.ids = s.ids ++ [n]) (counter : t.connIdCounter = s.connIdCounter + 1)
    (records : t.records = s.records) : IdInv t where
  counter := by
    rw [counter, ids, List.length_append, inv.counter]
    exact (UInt64.ofNat_add _ _).symm
  nodup := by
    rw [ids]
    refine List.Nodup.append inv.nodup (List.nodup_singleton n) ?_
    rw [List.disjoint_singleton]
    intro member
    obtain ⟨c,at_,served⟩ := inv.served n member
    rw [is] at at_
    cases at_
    cases served
  served m member := by
    rw [clients]
    by_cases here : m = n
    · subst here
      exact ⟨_,set_at is _,rfl⟩
    · obtain ⟨c,at_,served⟩ := inv.served m (by simpa [ids, here] using member)
      exact ⟨c,(List.getElem?_set_ne (Ne.symm here)).trans at_,served⟩
  given m c id at_ has := by
    rw [ids]
    by_cases here : m = n
    · subst here
      rw [clients, set_at is _] at at_
      cases at_
      cases has
      exact ⟨s.ids.length,by simp,by rw [inv.counter]; exact (UInt64.ofNat_add _ _).symm⟩
    · rw [clients, List.getElem?_set_ne (Ne.symm here)] at at_
      obtain ⟨k,old,is'⟩ := inv.given m c id at_ has
      exact ⟨k,(List.getElem?_append_left (List.getElem?_eq_some_iff.mp old).1).trans old,is'⟩
  reports m c message at_ has := by
    by_cases here : m = n
    · subst here
      rw [clients, set_at is _] at at_
      cases at_
      cases has
      rfl
    · rw [clients, List.getElem?_set_ne (Ne.symm here)] at at_
      exact inv.reports m c message at_ has
  logged r member id has := by
    obtain ⟨k,less,is'⟩ := inv.logged r (records ▸ member) id has
    exact ⟨k,by rw [ids, List.length_append]; omega,is'⟩

theorem did_ids {a : Action} (inv : IdInv s) (did : Did s a s') : IdInv s' := by
  cases did with
  | shown => exact inv
  | quit | console | close | stray | sleep | truncate | free | listened | listener | readActive
  | writeActive | countTotal => exact same_ids inv rfl rfl rfl fun _ member => .inl member
  | refusal =>
    refine same_ids inv rfl rfl rfl fun r member => ?_
    rcases List.mem_append.mp member with old | new
    · exact .inl old
    · rw [List.mem_singleton.mp new]
      exact .inr rfl
  | create => exact create_ids inv
  | takeId n late _ is => exact take_ids inv is rfl rfl rfl rfl
  | client _ n c c' mx late touched is goes =>
    refine client_ids inv is rfl ⟨rfl,rfl⟩ ?_ ?_ ?_ fun _ member => .inl member
    · cases goes <;> simp [Client.Early]
    · cases goes <;> simp [Client.connId]
    · cases goes with
      | logLock id message => exact fun m has => inv.reports n (.logLock id message) m is has
      | lost id | exited id =>
        intro m has
        cases has
        rfl
      | idLock | received | receivedArgs | finishLock | finishUnlock => simp [Client.message]
  | log n id message _ _ is =>
    refine client_ids inv is rfl ⟨rfl,rfl⟩ ?_ ?_ ?_ ?_
    · cases message <;> simp [afterLog, Client.Early]
    · cases message <;> simp [afterLog, Client.connId]
    · cases message <;> simp [afterLog, Client.message]
    · intro r member
      rcases List.mem_append.mp member with old | new
      · exact .inl old
      · rw [List.mem_singleton.mp new]
        exact .inr (inv.reports n _ message is rfl)
  | finishRead n _ _ is | finishWrite n _ _ _ is | broadcast n _ _ is =>
    refine client_ids inv is rfl ⟨rfl,rfl⟩ ?_ ?_ ?_ fun _ member => .inl member
    all_goals simp [Client.Early, Client.connId, Client.message]

structure LogsInv (s : Globals) : Prop extends LogInv s, IdInv s

theorem logs_inv : serverSystem.Inductive LogsInv where
  start s first := by
    subst first
    exact
      { logcount := rfl
        numbered := by simp [initial]
        kept := rfl
        counter := rfl
        nodup := List.nodup_nil
        served := by simp [initial]
        given := by simp [initial]
        reports := by simp [initial]
        logged := by simp [initial] }
  step s a s' inv move :=
    ⟨did_log inv.toLogInv (step_did move),did_ids inv.toIdInv (step_did move)⟩

theorem of_nat_inj {n m : Nat} (less : n < 2 ^ 64) (less' : m < 2 ^ 64)
    (same : UInt64.ofNat n = UInt64.ofNat m) : n = m := by
  have same' := congrArg UInt64.toNat same
  rwa [UInt64.toNat_ofNat_of_lt' less, UInt64.toNat_ofNat_of_lt' less'] at same'

/- A client is served and done before the command q. -/
def servedRun : List Action :=
  [.listen true,.accept true,.listener,.listener,.listener,.listener,
    .client 0,.client 0,.client 0,.client 0,.receive 0 true,.receive 0 true,.exit 0 3,
    .client 0,.client 0,.command .quit,.console,.accept false,.listener,.console,.console,.console,
    .client 0,.client 0,.client 0,.client 0,.client 0,.console,.console,.console,.console,.console,
    .console,.console,.console,.console]

def served : Globals := (serverSystem.play initial servedRun).getD initial

/-- In all runs of the server the records are numbered in the order in which they were logged; each
    is in the log, or about to be freed, or has been freed, once; what they say of a connection is
    said under an id that was given out, and below 2^64 connections no two that are served have
    the same id. -/
theorem log_and_ids (s : Globals) (reach : serverSystem.Reach s) :
    (∀ k r, s.records[k]? = some r → r.num = UInt64.ofNat (k + 1)) ∧
    s.records = s.freed ++ s.console.list ++ s.log ∧
    (∀ r ∈ s.records, ∀ id, r.message.connId = some id →
      ∃ k < s.ids.length, id = UInt64.ofNat (k + 1)) ∧
    ∀ (n m : Nat) (c d : Client) (id : UInt64), s.ids.length < 2 ^ 64 → s.clients[n]? = some c →
      s.clients[m]? = some d → c.connId = some id → d.connId = some id → n = m := by
  have inv := inductive_reach logs_inv reach
  refine ⟨inv.numbered,inv.kept,inv.logged,?_⟩
  intro n m c d id few is is' has has'
  obtain ⟨k,at_,same⟩ := inv.given n c id is has
  obtain ⟨l,at_',same'⟩ := inv.given m d id is' has'
  have less := (List.getElem?_eq_some_iff.mp at_).1
  have less' := (List.getElem?_eq_some_iff.mp at_').1
  have equal : k + 1 = l + 1 := by
    rcases Nat.lt_or_ge (k + 1) (2 ^ 64) with small | big
    · exact of_nat_inj small (by omega) (same.symm.trans same')
    · omega
  cases Nat.add_right_cancel equal
  exact Option.some.inj (at_.symm.trans at_')

theorem log_and_ids_served : served.records =
    [⟨1,.started 1⟩,⟨2,.finished 1 3⟩] ∧ served.records = served.freed ++ [] ++ served.log :=
  ⟨rfl,(log_and_ids served (play_reach rfl servedRun rfl)).2.1⟩

/- After the Close of the command q, which sets one of `closed` and `stray`. -/
def Console.Closes : Console → Bool
  | .reading | .printLock | .printInside | .closing | .returned true => false
  | _ => true

structure CloseInv (s : Globals) : Prop where
  closes : s.console.Closes = (s.closed || s.stray)
  once : s.stray = true → s.closed = false
  stored : s.closed = true → s.stored = true

theorem same_close {t : Globals} (inv : CloseInv s) (closes : t.console.Closes = s.console.Closes)
    (closed : t.closed = s.closed) (stray : t.stray = s.stray)
    (stored : s.stored = true → t.stored = true) : CloseInv t where
  closes := by rw [closes, closed, stray, inv.closes]
  once := by rw [closed, stray]; exact inv.once
  stored is := stored (inv.stored (closed ▸ is))

theorem console_closes {c : Console} {mx : Option Party} (goes : ConsoleGoes s c mx) :
    c.Closes = s.console.Closes := by
  cases goes with
  | list is | eof is | printLock is | print is | join is | drained is | wake is | unlock is
  | truncateLock is | leave is => rw [is]; rfl
  | wait is => rcases is with is | is <;> rw [is] <;> rfl

/- Neither has been set when the console gets to the Close. -/
theorem unclosed (inv : CloseInv s) (is : s.console = .closing) :
    s.closed = false ∧ s.stray = false := by
  have none := inv.closes
  rw [is] at none
  exact Bool.or_eq_false_iff.mp none.symm

theorem did_close {a : Action} (inv : CloseInv s) (did : Did s a s') : CloseInv s' := by
  cases did with
  | shown => exact inv
  | quit is | sleep is | truncate is | free _ _ is =>
    exact same_close inv (by rw [is]; rfl) rfl rfl id
  | console _ c mx goes => exact same_close inv (console_closes goes) rfl rfl id
  | close is stored =>
    have stray := (unclosed inv is).2
    exact
      { closes := rfl
        once := fun here => by simp [stray] at here
        stored := fun _ => stored }
  | stray is =>
    have closed := (unclosed inv is).1
    exact
      { closes := (Bool.or_true _).symm
        once := fun _ => closed
        stored := inv.stored }
  | listened => exact same_close inv rfl rfl rfl fun _ => rfl
  | listener | refusal | readActive | writeActive | countTotal | create | client | takeId | log
  | finishRead | finishWrite | broadcast => exact same_close inv rfl rfl rfl id

theorem close_inv : serverSystem.Inductive CloseInv where
  start s first := by
    subst first
    exact
      { closes := rfl
        once := fun stray => by cases stray
        stored := fun closed => by cases closed }
  step s a s' inv move := did_close inv (step_did move)

/-- In all runs of the server the command q makes one Close: of the socket that the listener has
    assigned to listener_socket or, where it has not yet, of the fid that is there by chance; no
    Close of the assigned one follows that. -/
theorem quit_closes (s : Globals) (reach : serverSystem.Reach s) :
    (s.console.Closes = true ↔ s.closed = true ∨ s.stray = true) ∧
    (s.closed = true → s.stored = true) ∧ (s.stray = true → s.closed = false) := by
  have inv := inductive_reach close_inv reach
  refine ⟨?_,inv.stored,inv.once⟩
  rw [inv.closes, Bool.or_eq_true]

end RemoteServer
