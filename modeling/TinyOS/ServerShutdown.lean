import TinyOS.ServerSteps

/- What happens at the command q when active_conn++ of the listener, which has no mutex, is never in
   between a client's load and store of active_conn, nor the other way around: the server waits for
   its connections, all of them, and is told of the last. -/
namespace RemoteServer
open Transition Monitor
variable {s s' : Globals}

/- Between its load and its store of active_conn. -/
def Client.Writes : Client → Bool
  | .finishWrite _ => true
  | _ => false

def Listener.Writes : Listener → Bool
  | .writeActive _ => true
  | _ => false

/- The two do not load active_conn in between the load and the store of each other; active_conn is a
   size_t, and so are the connections. -/
def Apart (s : Globals) : Action → Prop
  | .listener =>
    (s.listener = .readActive → ∀ c ∈ s.clients, c.Writes = false) ∧
      (s.listener = .create → s.clients.length + 1 < 2 ^ 64)
  | .client n => s.clients[n]? = some .finishRead → s.listener.Writes = false
  | _ => True

instance apartDecidable (s : Globals) (a : Action) : Decidable (Apart s a) :=
  match a with
  | .listener => inferInstanceAs (Decidable ((_ → ∀ c ∈ s.clients, _) ∧ (_ → _)))
  | .client n => inferInstanceAs (Decidable (s.clients[n]? = some .finishRead → _))
  | .command _ | .console | .listen _ | .accept _ | .receive _ _ | .exit _ _ =>
    inferInstanceAs (Decidable True)

instance apartSystemDecidable (s : Globals) (a : Action) :
    Decidable ((serverSystem.restrict Apart).enabled s a) :=
  inferInstanceAs (Decidable (Enabled s a ∧ Apart s a))

/- A connection counts from the store of active_conn++ to that of active_conn--. -/
def Client.Counts : Client → Bool
  | .finishBroadcast | .finishUnlock | .returned => false
  | _ => true

def Listener.Counts : Listener → Bool
  | .countTotal | .create => true
  | _ => false

def Globals.counted (s : Globals) : Nat :=
  s.clients.countP Client.Counts + if s.listener.Counts then 1 else 0

structure CountInv (s : Globals) : Prop where
  few : s.clients.length < 2 ^ 64
  active : s.activeConn = UInt64.ofNat s.counted
  listener : ∀ a, s.listener = .writeActive a → a = s.activeConn
  clients : ∀ (n : Nat) a, s.clients[n]? = some (.finishWrite a) → a = s.activeConn
  apart : ∀ (n : Nat) (c : Client), s.clients[n]? = some c → c.Writes = true →
    s.listener.Writes = false

theorem counts_set {l : List Client} {n : Nat} {c : Client} (is : l[n]? = some c) (c' : Client) :
    (l.set n c').countP Client.Counts + (if c.Counts then 1 else 0) =
      l.countP Client.Counts + if c'.Counts then 1 else 0 := by
  obtain ⟨less,at_⟩ := List.getElem?_eq_some_iff.mp is
  rw [List.countP_set less, at_]
  cases counts : c.Counts with
  | true =>
    have some : 0 < l.countP Client.Counts :=
      List.countP_pos_iff.mpr ⟨c,List.mem_of_getElem? is,counts⟩
    simp only [if_true]
    omega
  | false =>
    simp only [Bool.false_eq_true, if_false]
    omega

/- A step that leaves active_conn, the number of connections and both loads as they are. -/
theorem same_count {t : Globals} (inv : CountInv s) (clients : t.clients = s.clients)
    (active : t.activeConn = s.activeConn) (counts : t.listener.Counts = s.listener.Counts)
    (writes : ∀ a, t.listener = .writeActive a → s.listener = .writeActive a) : CountInv t where
  few := clients ▸ inv.few
  active := by rw [active, inv.active, Globals.counted, Globals.counted, clients, counts]
  listener a is := active ▸ inv.listener a (writes a is)
  clients n a is := active ▸ inv.clients n a (clients ▸ is)
  apart n c is w := by
    have quiet := inv.apart n c (clients ▸ is) w
    cases at_ : t.listener with
    | writeActive a => rw [writes a at_] at quiet; cases quiet
    | opening | accepting | testQuit | logLock | logInside | readActive | countTotal | create
    | returned => rfl

/- One client moves, before or after its part of active_conn--. -/
theorem moved_count {t : Globals} {n : Nat} {c c' : Client} (inv : CountInv s)
    (is : s.clients[n]? = some c) (clients : t.clients = s.clients.set n c')
    (active : t.activeConn = s.activeConn) (listener : t.listener = s.listener)
    (counts : c'.Counts = c.Counts) (writes : c'.Writes = false) : CountInv t where
  few := by rw [clients, List.length_set]; exact inv.few
  active := by
    have same := counts_set is c'
    rw [counts] at same
    rw [active, inv.active, Globals.counted, Globals.counted, clients, listener,
      Nat.add_right_cancel same]
  listener a at_ := active ▸ inv.listener a (listener ▸ at_)
  clients m a at_ := by
    rw [active]
    by_cases here : m = n
    · subst here
      rw [clients, set_at is] at at_
      cases at_
      cases writes
    · rw [clients, List.getElem?_set_ne (Ne.symm here)] at at_
      exact inv.clients m a at_
  apart m d at_ w := by
    rw [listener]
    by_cases here : m = n
    · subst here
      rw [clients, set_at is] at at_
      cases at_
      rw [writes] at w
      cases w
    · rw [clients, List.getElem?_set_ne (Ne.symm here)] at at_
      exact inv.apart m d at_ w

theorem read_count (inv : CountInv s) (late : Bool) (is : s.listener = .readActive)
    (alone : ∀ c ∈ s.clients, c.Writes = false) :
    CountInv { s with listener := .writeActive s.activeConn, late := late } where
  few := inv.few
  active := by
    have same := inv.active
    simp only [Globals.counted, is] at same
    exact same
  listener a at_ := by cases at_; rfl
  clients := inv.clients
  apart n c at_ w := by
    rw [alone c (List.mem_of_getElem? at_)] at w
    cases w

theorem add_count (inv : CountInv s) (late : Bool) {active : UInt64}
    (is : s.listener = .writeActive active) :
    CountInv { s with activeConn := active + 1, listener := .countTotal, late := late } where
  few := inv.few
  active := by
    have same := inv.active
    simp only [Globals.counted, is] at same
    rw [inv.listener active is, same]
    exact (UInt64.ofNat_add _ 1).symm
  listener a at_ := by cases at_
  clients n a at_ := by
    have quiet := inv.apart n _ at_ rfl
    rw [is] at quiet
    cases quiet
  apart n c at_ w := rfl

theorem create_count (inv : CountInv s) (is : s.listener = .create)
    (few : s.clients.length + 1 < 2 ^ 64) :
    CountInv { s with clients := s.clients ++ [.idLock], listener := .accepting } where
  few := by rw [List.length_append]; exact few
  active := by
    have same := inv.active
    simp only [Globals.counted, is] at same
    rw [same, Globals.counted, List.countP_append]
    rfl
  listener a at_ := by cases at_
  clients n a at_ := by
    rcases added_at at_ with old | new
    · exact inv.clients n a old
    · cases new
  apart n c at_ w := rfl

theorem load_count {n : Nat} (inv : CountInv s) (late : Bool)
    (is : s.clients[n]? = some .finishRead) (alone : s.listener.Writes = false) :
    CountInv { s.setClient n (.finishWrite s.activeConn) with late := late } where
  few := by
    show (s.clients.set n _).length < 2 ^ 64
    rw [List.length_set]
    exact inv.few
  active := by
    have same := counts_set is (.finishWrite s.activeConn)
    have active := inv.active
    rw [Globals.counted, ← Nat.add_right_cancel same] at active
    exact active
  listener := inv.listener
  clients m a at_ := by
    by_cases here : m = n
    · subst here
      cases (set_at is _).symm.trans at_
      rfl
    · exact inv.clients m a ((List.getElem?_set_ne (Ne.symm here)).symm.trans at_)
  apart m c at_ w := alone

theorem remove_count {n : Nat} (inv : CountInv s) (owned : Owned s.holds s.mx) (late : Bool)
    {active : UInt64} (is : s.clients[n]? = some (.finishWrite active)) :
    CountInv { s.setClient n .finishBroadcast with activeConn := active - 1, late := late } where
  few := by
    show (s.clients.set n _).length < 2 ^ 64
    rw [List.length_set]
    exact inv.few
  active := by
    have less : (s.clients.set n .finishBroadcast).countP Client.Counts + 1 =
        s.clients.countP Client.Counts := counts_set is .finishBroadcast
    have same := inv.active
    rw [Globals.counted, ← less, Nat.add_right_comm] at same
    rw [inv.clients n active is, same, UInt64.ofNat_add]
    exact UInt64.add_sub_cancel _ _
  listener a at_ := by
    have quiet := inv.apart n _ is rfl
    rw [show s.listener = _ from at_] at quiet
    cases quiet
  clients m a at_ := by
    by_cases here : m = n
    · subst here
      cases (set_at is _).symm.trans at_
    · -- another client at its store would have the mutex too
      have there : s.clients[m]? = some (.finishWrite a) :=
        (List.getElem?_set_ne (Ne.symm here)).symm.trans at_
      have inside : s.holds (.client n) = true := by simp only [Globals.holds, is]; rfl
      have inside' : s.holds (.client m) = true := by simp only [Globals.holds, there]; rfl
      exact absurd (Party.client.inj (owned_alone owned inside inside')) here
  apart m c at_ w := inv.apart n _ is rfl

theorem listener_counts {l : Listener} {mx : Option Party} (goes : ListenerGoes s l mx) :
    l.Counts = s.listener.Counts ∧ l.Writes = false := by
  cases goes with
  | unheard is | accepted is | refused is | ended is | failed is | logLock is =>
    rw [is]
    exact ⟨rfl,rfl⟩

theorem client_counts {n : Nat} {c c' : Client} {mx : Option Party}
    (goes : ClientGoes s n c c' mx) : c'.Counts = c.Counts ∧ c'.Writes = false := by
  cases goes <;> exact ⟨rfl,rfl⟩

theorem did_count {a : Action} (inv : CountInv s) (owned : Owned s.holds s.mx)
    (apart : Apart s a) (did : Did s a s') : CountInv s' := by
  cases did with
  | shown => exact inv
  | quit | console | close | stray | sleep | truncate | free =>
    exact same_count inv rfl rfl rfl fun _ at_ => at_
  | listened late _ is => exact same_count inv rfl rfl (by rw [is]; rfl) fun _ at_ => by cases at_
  | refusal late _ is => exact same_count inv rfl rfl (by rw [is]; rfl) fun _ at_ => by cases at_
  | countTotal late _ is => exact same_count inv rfl rfl (by rw [is]; rfl) fun _ at_ => by cases at_
  | listener _ l mx late touched goes =>
    refine same_count inv rfl rfl (listener_counts goes).1 fun b at_ => ?_
    have quiet := (listener_counts goes).2
    rw [show l = _ from at_] at quiet
    cases quiet
  | readActive late _ is => exact read_count inv late is (apart.1 is)
  | writeActive late _ active is => exact add_count inv late is
  | create is => exact create_count inv is (apart.2 is)
  | client _ n c c' mx late touched is goes =>
    exact moved_count inv is rfl rfl rfl (client_counts goes).1 (client_counts goes).2
  | takeId n _ _ is => exact moved_count inv is rfl rfl rfl rfl rfl
  | log n id message _ _ is =>
    refine moved_count inv is rfl rfl rfl ?_ ?_ <;> cases message <;> rfl
  | broadcast n _ _ is => exact moved_count inv is rfl rfl rfl rfl rfl
  | finishRead n late _ is => exact load_count inv late is (apart is)
  | finishWrite n active late _ is => exact remove_count inv owned late is

/- Until it has broadcast conn_done. -/
def Client.Wakes : Client → Bool
  | .finishUnlock | .returned => false
  | _ => true

/- After the ThreadJoin of the listener, at the command q. -/
def Console.Joined : Console → Bool
  | .waitLock | .testing | .asleep | .relock | .unlocking | .truncateLock | .truncateInside
  | .freeing _ | .returned false => true
  | _ => false

/- After the wait for the connections. -/
def Console.Drained : Console → Bool
  | .unlocking | .truncateLock | .truncateInside | .freeing _ | .returned false => true
  | _ => false

structure PhaseInv (s : Globals) : Prop where
  joined : s.console.Joined = true → s.listener = .returned
  asleep : s.console = .asleep → s.woken = false →
    ∃ (n : Nat) (c : Client), s.clients[n]? = some c ∧ c.Wakes = true
  drained : s.console.Drained = true → ∀ c ∈ s.clients, c = .returned
  late : s.late = true → s.console = .returned true

theorem drained_joined {c : Console} (drained : c.Drained = true) : c.Joined = true := by
  cases c with
  | returned atEof => cases atEof <;> simp_all [Console.Drained, Console.Joined]
  | unlocking | truncateLock | truncateInside | freeing => rfl
  | reading | printLock | printInside | closing | joining | waitLock | testing | asleep
  | relock => cases drained

/- A use of the globals is too late only after the end of the input. -/
theorem touch_phases {late : Bool} (inv : PhaseInv s) (touched : Late s late)
    (busy : s.listener ≠ .returned ∨ ∃ c ∈ s.clients, c ≠ .returned) (is : late = true) :
    s.console = .returned true := by
  rcases touched is with before | gone
  · exact inv.late before
  · cases at_ : s.console with
    | returned atEof =>
      cases atEof with
      | true => rfl
      | false =>
        rcases busy with live | ⟨c,member,live⟩
        · exact absurd (inv.joined (by rw [at_]; rfl)) live
        · exact absurd (inv.drained (by rw [at_]; rfl) c member) live
    | reading | printLock | printInside | closing | joining | waitLock | testing | asleep | relock
    | unlocking | truncateLock | truncateInside | freeing => rw [at_] at gone; cases gone

/- The steps of the listener. -/
theorem listener_phases {t : Globals} (inv : PhaseInv s) (live : s.listener ≠ .returned)
    (console : t.console = s.console) (touched : Late s t.late) : PhaseInv t where
  joined is := absurd (inv.joined (console ▸ is)) live
  asleep is := absurd (inv.joined (by rw [← console, is]; rfl)) live
  drained is := absurd (inv.joined (drained_joined (console ▸ is))) live
  late is := console ▸ touch_phases inv touched (.inl live) is

/- The steps of a client. -/
theorem client_phases {t : Globals} {n : Nat} {c c' : Client} (inv : PhaseInv s)
    (is : s.clients[n]? = some c) (live : c ≠ .returned) (clients : t.clients = s.clients.set n c')
    (console : t.console = s.console) (listener : t.listener = s.listener)
    (touched : Late s t.late) (wakes : t.console = .asleep → t.woken = false →
      s.woken = false ∧ (c.Wakes = true → c'.Wakes = true)) : PhaseInv t where
  joined at_ := listener ▸ inv.joined (console ▸ at_)
  asleep at_ woken := by
    obtain ⟨unwoken,kept⟩ := wakes at_ woken
    obtain ⟨m,d,there,up⟩ := inv.asleep (console ▸ at_) unwoken
    rw [clients]
    by_cases here : m = n
    · subst here
      cases is.symm.trans there
      exact ⟨m,c',set_at is c',kept up⟩
    · exact ⟨m,d,(List.getElem?_set_ne (Ne.symm here)).trans there,up⟩
  drained at_ := absurd (inv.drained (console ▸ at_) c (List.mem_of_getElem? is)) live
  late at_ := console ▸ touch_phases inv touched (.inr ⟨c,List.mem_of_getElem? is,live⟩) at_

/- active_conn is 0 at the test only if no connection is left. -/
theorem none_counted (inv : CountInv s) (returned : s.listener = .returned)
    (zero : s.activeConn = 0) : s.clients.countP Client.Counts = 0 := by
  have less := Nat.lt_of_le_of_lt (List.countP_le_length (p := Client.Counts)) inv.few
  have same : UInt64.ofNat (s.clients.countP Client.Counts) = UInt64.ofNat 0 := by
    rw [inv.active, Globals.counted, returned] at zero
    exact zero
  exact of_nat_inj less (by decide) same

theorem all_returned (inv : CountInv s) (phases : PhaseInv s) (owned : Owned s.holds s.mx)
    (testing : s.console = .testing) (zero : s.activeConn = 0) :
    ∀ c ∈ s.clients, c = .returned := by
  intro c member
  have none := none_counted inv (phases.joined (by rw [testing]; rfl)) zero
  have left : c.Counts = false := by simpa using List.countP_eq_zero.mp none c member
  obtain ⟨n,is⟩ := List.mem_iff_getElem?.mp member
  have outside : c.Inside = false := by
    by_contra inside
    have here : s.holds .console = true := by simp only [Globals.holds, testing]; rfl
    have there : s.holds (.client n) = true := by
      simp only [Globals.holds, is]
      simpa using inside
    cases owned_alone owned here there
  cases c with
  | returned => rfl
  | finishBroadcast | finishUnlock => cases outside
  | idLock | idInside | logLock | logInside | receiving | executing | finishLock | finishRead
  | finishWrite => cases left

theorem some_wake (inv : CountInv s) (listener : s.listener = .returned)
    (active : s.activeConn ≠ 0) : ∃ (n : Nat) (c : Client), s.clients[n]? = some c ∧
      c.Wakes = true := by
  have some : 0 < s.clients.countP Client.Counts := by
    by_contra none
    refine active ?_
    rw [inv.active, Globals.counted, listener, Nat.eq_zero_of_not_pos none]
    rfl
  obtain ⟨c,member,counts⟩ := List.countP_pos_iff.mp some
  obtain ⟨n,is⟩ := List.mem_iff_getElem?.mp member
  refine ⟨n,c,is,?_⟩
  cases c with
  | finishBroadcast | finishUnlock | returned => cases counts
  | idLock | idInside | logLock | logInside | receiving | executing | finishLock | finishRead
  | finishWrite => rfl

/- The console is moved on to a place that asks for no more than the one before. -/
theorem console_phases {t : Globals} (inv : PhaseInv s) (live : s.console.Returned = false)
    (clients : t.clients = s.clients) (listener : t.listener = s.listener)
    (late : t.late = s.late)
    (joined : t.console.Joined = true → s.console.Joined = true ∨ s.listener = .returned)
    (asleep : t.console ≠ .asleep)
    (drained : t.console.Drained = true →
      s.console.Drained = true ∨ ∀ c ∈ s.clients, c = .returned) : PhaseInv t where
  joined is := listener ▸ (joined is).elim inv.joined id
  asleep is := absurd is asleep
  drained is := clients ▸ (drained is).elim inv.drained id
  late is := by
    rw [inv.late (late ▸ is)] at live
    cases live

theorem goes_phases {c : Console} {mx : Option Party} (inv : PhaseInv s) (count : CountInv s)
    (owned : Owned s.holds s.mx) (goes : ConsoleGoes s c mx) :
    PhaseInv { s with console := c, mx := mx } := by
  cases goes with
  | list is | printLock is | print is =>
    exact console_phases inv (by rw [is]; rfl) rfl rfl rfl (fun is => by cases is) (by simp)
      fun is => by cases is
  | eof is =>
    exact console_phases inv (by rw [is]; rfl) rfl rfl rfl (fun is => by cases is) (by simp)
      fun is => by cases is
  | join is joined =>
    exact console_phases inv (by rw [is]; rfl) rfl rfl rfl (fun _ => .inr joined) (by simp)
      fun is => by cases is
  | wait is =>
    have live : s.console.Returned = false ∧ s.console.Joined = true := by
      rcases is with is | is <;> rw [is] <;> exact ⟨rfl,rfl⟩
    exact console_phases inv live.1 rfl rfl rfl (fun _ => .inl live.2) (by simp)
      fun is => by cases is
  | wake is =>
    exact console_phases inv (by rw [is]; rfl) rfl rfl rfl (fun _ => .inl (by rw [is]; rfl))
      (by simp) fun is => by cases is
  | drained is zero =>
    exact console_phases inv (by rw [is]; rfl) rfl rfl rfl (fun _ => .inl (by rw [is]; rfl))
      (by simp) fun _ => .inr (all_returned count inv owned is zero)
  | unlock is | truncateLock is | leave is =>
    exact console_phases inv (by rw [is]; rfl) rfl rfl rfl (fun _ => .inl (by rw [is]; rfl))
      (by simp) fun _ => .inl (by rw [is]; rfl)

theorem did_phases {a : Action} (inv : PhaseInv s) (count : CountInv s)
    (owned : Owned s.holds s.mx) (did : Did s a s') : PhaseInv s' := by
  cases did with
  | shown => exact inv
  | console _ c mx goes => exact goes_phases inv count owned goes
  | quit is | close is | stray is =>
    exact console_phases inv (by rw [is]; rfl) rfl rfl rfl (fun is => by cases is) (by simp)
      fun is => by cases is
  | sleep is active =>
    have returned := inv.joined (by rw [is]; rfl)
    exact
      { joined := fun _ => returned
        asleep := fun _ _ => some_wake (s := s) count returned active
        drained := fun drained => by cases drained
        late := fun late => by
          have ended := inv.late late
          rw [is] at ended
          cases ended }
  | truncate is | free _ _ is =>
    exact console_phases inv (by rw [is]; rfl) rfl rfl rfl (fun _ => .inl (by rw [is]; rfl))
      (by simp) fun _ => .inl (by rw [is]; rfl)
  | listened late touched is => exact listener_phases inv (by simp [is]) rfl touched
  | listener _ l mx late touched goes =>
    refine listener_phases inv ?_ rfl touched
    cases goes <;> simp [*]
  | refusal late touched is => exact listener_phases inv (by simp [is]) rfl touched
  | readActive late touched is => exact listener_phases inv (by simp [is]) rfl touched
  | writeActive late touched active is => exact listener_phases inv (by simp [is]) rfl touched
  | countTotal late touched is => exact listener_phases inv (by simp [is]) rfl touched
  | create is => exact listener_phases inv (by simp [is]) rfl (same_late s)
  | client _ n c c' mx late touched is goes =>
    refine client_phases inv is ?_ rfl rfl rfl touched ?_
    · cases goes <;> simp
    · intro _ woken
      refine ⟨woken,?_⟩
      cases goes <;> simp [Client.Wakes]
  | takeId n late touched is =>
    exact client_phases inv is (by simp) rfl rfl rfl touched fun _ woken => ⟨woken,fun _ => rfl⟩
  | log n id message late touched is =>
    refine client_phases inv is (by simp) rfl rfl rfl touched fun _ woken => ⟨woken,fun _ => ?_⟩
    cases message <;> rfl
  | finishRead n late touched is =>
    exact client_phases inv is (by simp) rfl rfl rfl touched fun _ woken => ⟨woken,fun _ => rfl⟩
  | finishWrite n active late touched is =>
    exact client_phases inv is (by simp) rfl rfl rfl touched fun _ woken => ⟨woken,fun _ => rfl⟩
  | broadcast n late touched is =>
    refine client_phases inv is (by simp) rfl rfl rfl touched fun sleeps woken => ?_
    have there : s.console = .asleep := sleeps
    simp [broadcast, Globals.setClient, there] at woken

/- log_truncate has emptied the log. -/
def Console.Truncated : Console → Bool
  | .freeing _ | .returned false => true
  | _ => false

theorem truncated_drained {c : Console} (truncated : c.Truncated = true) : c.Drained = true := by
  cases c with
  | returned atEof => cases atEof <;> simp_all [Console.Truncated, Console.Drained]
  | freeing => rfl
  | reading | printLock | printInside | closing | joining | waitLock | testing | asleep | relock
  | unlocking | truncateLock | truncateInside => cases truncated

theorem did_truncated {a : Action} (inv : PhaseInv s)
    (empty : s.console.Truncated = true → s.log = []) (did : Did s a s') :
    s'.console.Truncated = true → s'.log = [] := by
  cases did with
  | shown | listened | listener | readActive | writeActive | countTotal | create | client | takeId
  | finishRead | finishWrite | broadcast => exact empty
  | quit | close | stray | sleep =>
    intro is
    cases is
  | console _ c mx goes =>
    cases goes with
    | leave is => exact fun _ => empty (by rw [is]; rfl)
    | list | eof | printLock | print | join | wait | drained | wake | unlock | truncateLock =>
      intro is
      cases is
  | truncate => exact fun _ => rfl
  | free _ _ is => exact fun _ => empty (by rw [is]; rfl)
  | refusal late touched is =>
    intro truncated
    have returned := inv.joined (drained_joined (truncated_drained truncated))
    rw [is] at returned
    cases returned
  | log n id message late touched is =>
    intro truncated
    cases inv.drained (truncated_drained truncated) _ (List.mem_of_getElem? is)

structure ShutInv (s : Globals) : Prop extends CountInv s, PhaseInv s where
  owned : Owned s.holds s.mx
  truncated : s.console.Truncated = true → s.log = []

theorem shut_inv : (serverSystem.restrict Apart).Inductive ShutInv where
  start s first := by
    have owned := server_owned.start s first
    cases first
    exact
      { few := by decide
        active := rfl
        listener := by simp [initial]
        clients := by simp [initial]
        apart := by simp [initial]
        joined := fun is => by cases is
        asleep := fun is => by cases is
        drained := fun is => by cases is
        late := fun is => by cases is
        owned := owned
        truncated := fun is => by cases is }
  step s a s' inv move := by
    obtain ⟨move,apart⟩ := restrict_step move
    have did := step_did move
    exact
      { did_count inv.toCountInv inv.owned apart did,
        did_phases inv.toPhaseInv inv.toCountInv inv.owned did with
        owned := did_owned inv.owned did
        truncated := did_truncated inv.toPhaseInv inv.truncated did }

theorem served_reach : (serverSystem.restrict Apart).Reach served :=
  play_reach (m := serverSystem.restrict Apart) rfl servedRun rfl

/-- Where the listener and the clients do not load active_conn in between each other's load and
    store, no thread uses the globals after the command q has ended RemoteServer: then the listener
    and all clients have returned, and every record of the log has been freed. Only the end of the
    input ends it before. -/
theorem server_outlives_clients (s : Globals) (reach : (serverSystem.restrict Apart).Reach s) :
    (s.late = true → s.console = .returned true) ∧
    (s.console = .returned false → s.listener = .returned ∧ (∀ c ∈ s.clients, c = .returned) ∧
      s.log = [] ∧ s.freed = s.records) := by
  have inv := inductive_reach shut_inv reach
  refine ⟨inv.late,fun is => ?_⟩
  have empty := inv.truncated (by rw [is]; rfl)
  have kept := (inductive_reach logs_inv (restrict_reach reach)).kept
  refine ⟨inv.joined (by rw [is]; rfl),inv.drained (by rw [is]; rfl),empty,?_⟩
  rw [kept, is, empty]
  simp only [Console.list, List.append_nil]

theorem server_outlives_clients_served : served.console = .returned false ∧
    served.freed = served.records ∧ served.records.length = 2 :=
  ⟨rfl,((server_outlives_clients served served_reach).2 rfl).2.2.2,rfl⟩

/- A step of a thread of the server that waits for nothing from outside. -/
def Action.Own : Action → Bool
  | .console | .listener | .client _ => true
  | _ => false

def Client.Rests (c : Client) : Bool := c.Receives || c.Executes || c = .returned

theorem console_inside (inside : s.console.Inside = true) : Enabled s .console := by
  cases is : s.console with
  | printInside | testing | unlocking | truncateInside =>
    exact ⟨by rw [is]; rfl,fun locks => by rw [is] at locks; cases locks⟩
  | reading | printLock | closing | joining | waitLock | asleep | relock | truncateLock | freeing
  | returned =>
    rw [is] at inside
    cases inside

theorem client_inside {c : Client} (inside : c.Inside = true) : c.Steps s = true := by
  cases c <;> first | rfl | cases inside

theorem inside_steps (owned : Owned s.holds s.mx) {p : Party} (holder : s.mx = some p) :
    ∃ a, a.Own = true ∧ Enabled s a := by
  have holds := (owned p).mpr holder
  cases p with
  | console =>
    refine ⟨.console,rfl,?_⟩
    exact console_inside holds
  | listener =>
    refine ⟨.listener,rfl,?_⟩
    have is : s.listener = .logInside := of_decide_eq_true holds
    exact ⟨by rw [is]; rfl,fun locks => by rw [is] at locks; cases locks⟩
  | client n =>
    refine ⟨.client n,rfl,?_⟩
    obtain ⟨c,is,inside⟩ := (Option.any_eq_true _ _).mp holds
    exact (Option.any_eq_true _ _).mpr ⟨c,is,client_inside inside⟩

theorem rests_or_steps (free : s.mx = none) (c : Client) : c.Rests = true ∨ c.Steps s = true := by
  cases c <;> simp [Client.Rests, Client.Steps, Client.Receives, Client.Executes, free]

theorem client_rests (free : s.mx = none) (stuck : ∀ a, a.Own = true → ¬ Enabled s a) :
    ∀ c ∈ s.clients, c.Rests = true := by
  intro c member
  obtain ⟨n,is⟩ := List.mem_iff_getElem?.mp member
  refine (rests_or_steps free c).resolve_right fun steps => ?_
  exact stuck (.client n) rfl ((Option.any_eq_true _ _).mpr ⟨c,is,steps⟩)

theorem listener_rests (free : s.mx = none) (stuck : ∀ a, a.Own = true → ¬ Enabled s a) :
    s.listener.Steps = false := by
  by_contra steps
  exact stuck .listener rfl ⟨by simpa using steps,fun _ => free⟩

/-- The server does not get stuck: when none of its threads can go on by itself then no thread has
    the mutex, the listener is at its socket or has returned, each client waits for its message or
    its process or has returned, and the console has returned or waits for a command, for the
    listener, or, asleep at conn_done, for a client that has not returned. -/
theorem server_never_stuck (s : Globals) (reach : (serverSystem.restrict Apart).Reach s)
    (stuck : ∀ a, a.Own = true → ¬ Enabled s a) :
    s.mx = none ∧ s.listener.Steps = false ∧ (∀ c ∈ s.clients, c.Rests = true) ∧
      (s.console = .reading ∨ s.console.Returned = true ∨
        s.console = .joining ∧ s.listener ≠ .returned ∨
        s.console = .asleep ∧ ∃ c ∈ s.clients, c ≠ .returned) := by
  have inv := inductive_reach shut_inv reach
  have free : s.mx = none := by
    by_contra held
    obtain ⟨p,holder⟩ := Option.ne_none_iff_exists'.mp held
    obtain ⟨a,own,enabled⟩ := inside_steps inv.owned holder
    exact stuck a own enabled
  refine ⟨free,listener_rests free stuck,client_rests free stuck,?_⟩
  have rests : s.console.Steps s = false := by
    by_contra steps
    exact stuck .console rfl ⟨by simpa using steps,fun _ => free⟩
  cases is : s.console with
  | reading => exact .inl rfl
  | returned => exact .inr (.inl rfl)
  | joining =>
    refine .inr (.inr (.inl ⟨rfl,fun returned => ?_⟩))
    simp [is, Console.Steps, returned] at rests
  | asleep =>
    obtain ⟨n,c,at_,wakes⟩ := inv.asleep is (by simpa [is, Console.Steps] using rests)
    refine .inr (.inr (.inr ⟨rfl,c,List.mem_of_getElem? at_,?_⟩))
    rintro rfl
    cases wakes
  | printLock | printInside | closing | waitLock | testing | relock | unlocking | truncateLock
  | truncateInside | freeing => simp [is, Console.Steps] at rests

/- The console waits for a client that has not sent its message. -/
def waitingRun : List Action :=
  [.listen true,.accept true,.listener,.listener,.listener,.listener,
    .client 0,.client 0,.client 0,.client 0,.command .quit,.console,.accept false,.listener,
    .console,.console,.console]

def waiting : Globals := (serverSystem.play initial waitingRun).getD initial

theorem waiting_reach : (serverSystem.restrict Apart).Reach waiting :=
  play_reach (m := serverSystem.restrict Apart) rfl waitingRun rfl

theorem waiting_stuck : ∀ a, a.Own = true → ¬ Enabled waiting a := by
  intro a own enabled
  cases a with
  | console => cases enabled.1
  | listener => cases enabled.1
  | client n =>
    obtain ⟨c,is,steps⟩ := (Option.any_eq_true _ _).mp enabled
    have only : waiting.clients = [.receiving 1 false] := rfl
    rw [only] at is
    cases List.mem_singleton.mp (List.mem_of_getElem? is)
    cases steps
  | command | listen | accept | receive | exit => cases own

theorem server_never_stuck_waiting : waiting.mx = none ∧ waiting.listener.Steps = false :=
  have rests := server_never_stuck waiting waiting_reach waiting_stuck
  ⟨rests.1,rests.2.1⟩

/- The listener loads active_conn, and the first client subtracts 1 from it before the listener
   stores. -/
def lostDecrement : List Action :=
  [.listen true,.accept true,.listener,.listener,.listener,.listener,
    .client 0,.client 0,.client 0,.client 0,.receive 0 false,.client 0,.client 0,.accept true,
    .listener,.client 0,.client 0,.client 0,.client 0,.client 0,.listener,.listener,.listener,
    .client 1,.client 1,.client 1,.client 1,.receive 1 false,.client 1,.client 1,.client 1,
    .client 1,.client 1,.client 1,.client 1,.command .quit,.console,.accept false,.listener,
    .console,.console,.console]

def hung : Globals := (serverSystem.play initial lostDecrement).getD initial

/-- With that race the console can wait for connections of which none is left. -/
theorem lost_decrement_hangs : serverSystem.Reach hung ∧ hung.console = .asleep ∧
    hung.clients = [.returned,.returned] ∧ ∀ a, ¬ Enabled hung a := by
  refine ⟨play_reach rfl lostDecrement rfl,rfl,rfl,fun a enabled => ?_⟩
  have only : hung.clients = [.returned,.returned] := rfl
  cases a with
  | command | listen | accept => cases enabled
  | console | listener => cases enabled.1
  | receive n | exit n | client n =>
    obtain ⟨c,is,steps⟩ := (Option.any_eq_true _ _).mp enabled
    have member := List.mem_of_getElem? is
    rw [only] at member
    have returned : c = .returned := by simpa using member
    subst returned
    cases steps

/- A client loads active_conn, and the listener adds 1 to it before the client stores. -/
def lostIncrement : List Action :=
  [.listen true,.accept true,.listener,.listener,.listener,.listener,
    .client 0,.client 0,.client 0,.client 0,.receive 0 false,.client 0,.client 0,.accept true,
    .client 0,.client 0,.listener,.listener,.client 0,.client 0,.client 0,.listener,.listener,
    .command .quit,.console,.accept false,.listener,.console,.console,.console,.console,.console,
    .console,.console,.console,.console,.client 1]

def overtaken : Globals := (serverSystem.play initial lostIncrement).getD initial

/-- And it can leave while a client has yet to use the globals. -/
theorem lost_increment_leaves : serverSystem.Reach overtaken ∧
    overtaken.console = .returned false ∧ overtaken.late = true :=
  ⟨play_reach rfl lostIncrement rfl,rfl,rfl⟩

end RemoteServer
