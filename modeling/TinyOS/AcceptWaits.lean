import TinyOS.SocketWaits
import TinyOS.Connect

/- The threads that wait in Accept, and the signals that reach them. -/
namespace KernelSocket
open KernelStreams KernelProc KernelPipe Monitor Transition

/- Asleep in Accept, not signalled. -/
def NetRun.Blocked (s : NetRun) (t : Thread) (l : SocketRef) : Prop :=
  (t,.accept l) ∈ s.calls ∧ t ∈ s.net.waits.asleep (.reqAvailable l)

/- Signalled in Accept, and not run since. -/
def NetRun.Signalled (s : NetRun) (l : SocketRef) (e : Thread × NetCall) : Prop :=
  e.2 = .accept l ∧ s.net.waits.woken e.1 = some true

instance (s : NetRun) (l : SocketRef) (e : Thread × NetCall) : Decidable (s.Signalled l e) :=
  inferInstanceAs (Decidable (_ ∧ _))

def NetRun.signalled (s : NetRun) (l : SocketRef) : Nat := s.calls.countP fun e => s.Signalled l e

def NetRun.pending (s : NetRun) (l : SocketRef) : Nat := (s.view.type l).queue.length

/- No acceptor sleeps while a request is pending that no other one will take. -/
def AcceptorsAwake (s : NetRun) : Prop :=
  ∀ t l, s.Blocked t l → (s.view.type l).queue = [] ∨
    ∃ t', t' ≠ t ∧ (t',.accept l) ∈ s.calls ∧ s.net.waits.woken t' = some true

/- A Connect of a to the port puts a request into the queue of l. -/
def View.Queues (v : View) (a : SocketRef) (port : Int) (l : SocketRef) : Prop :=
  (0 ≤ port ∧ port ≤ maxPort) ∧ v.portMap port = some l ∧ (v.type l).IsListener ∧
    v.type a = .unbound

/- A Connect that queues a request where an acceptor is blocked finds an acceptor at the front of
   those asleep. -/
def ReachesAcceptor (s : NetRun) : NetAction → Prop
  | .connect _ a port => ∀ l, s.view.Queues a port l → (∃ t, s.Blocked t l) →
      ∃ first rest, s.net.waits.asleep (.reqAvailable l) = first :: rest ∧
        (first,.accept l) ∈ s.calls
  | _ => True

/- An open listener has its port, and a port leads to its own listener. -/
structure Mapped (v : View) : Prop where
  listening : ∀ a, v.isOpen a → (v.type a).IsListener → v.portMap (v.port a) = some a
  holder : ∀ p l, v.portMap p = some l → v.type l ≠ .unbound ∧ v.port l = p ∧ l < v.nextSocket

theorem move_mapped {v w : View} {e : Event} (ok : Allocated v) (mapped : Mapped v)
    (move : Move v e w) : Mapped w := by
  obtain ⟨listening,holder⟩ := mapped
  have opened := ok.opened
  have fresh := ok.fresh
  cases move with
  | quiet => exact ⟨listening,holder⟩
  | socket port fcb legal =>
    constructor <;> simp only [View.openNew, View.withOpen, View.addSocket] <;>
      grind [unbound_not_listener]
  | listen a opens unbound bound free =>
    constructor <;> simp only [View.listen, View.setType] <;> grind [unbound_not_listener]
  | enqueue a l port opens unbound mapped listens =>
    constructor <;> simp only [View.enqueue, View.setType] <;> grind [listener_isListener]
  | refuse l r rest queue =>
    have listens : (v.type l).IsListener := ⟨_,queue⟩
    constructor <;> simp only [View.refuse, View.takeRequest, View.setFate, View.setType] <;>
      grind [listener_isListener]
  | honour l r rest fcb queue legal =>
    have listens : (v.type l).IsListener := ⟨_,queue⟩
    have asked := ok.queues l _ queue r (by simp)
    have owner := ok.owners r asked
    constructor <;> simp only [View.openNew, View.withOpen, View.honour, View.takeRequest,
      View.setFate, View.setType, View.addSocket, View.connectPeers] <;>
      grind [listener_isListener, peer_not_listener]
  | close a opens =>
    constructor <;> simp only [View.close, View.unmap, View.withOpen] <;> grind

section Steps
variable {s : NetRun}

/- An acceptor that is woken up is no longer counted among the signalled. -/
def NetAction.uses (l : SocketRef) : NetAction → Nat
  | .resume _ (.accept l') _ _ => if l' = l then 1 else 0
  | _ => 0

theorem count_signalled (s s' : NetRun) (calls : List (Thread × NetCall)) (l : SocketRef)
    (kept : ∀ e ∈ calls, s.net.waits.woken e.1 = some true → s'.net.waits.woken e.1 = some true) :
    (calls.countP fun e => s.Signalled l e) ≤ calls.countP fun e => s'.Signalled l e := by
  apply List.countP_mono_left
  intro e member signalled
  obtain ⟨accepts,woken⟩ := of_decide_eq_true signalled
  exact decide_eq_true ⟨accepts,kept e member woken⟩

theorem erase_signalled {t : Thread} {call : NetCall} (l : SocketRef)
    (member : (t,call) ∈ s.calls) :
    s.signalled l ≤ ((s.calls.erase (t,call)).countP fun e => s.Signalled l e) +
      if call = .accept l then 1 else 0 := by
  have perm := (List.perm_cons_erase member).countP_eq fun e => decide (s.Signalled l e)
  have here : s.Signalled l (t,call) → call = .accept l := And.left
  rw [List.countP_cons] at perm
  rw [NetRun.signalled, perm]
  simp only [decide_eq_true_eq]
  split <;> rename_i signalled
  · simp [here signalled]
  · omega

theorem uses_resume (t : Thread) (call : NetCall) (signalled : Bool)
    (made : Option (Fid × FcbRef)) (l : SocketRef) :
    (NetAction.resume t call signalled made).uses l = if call = .accept l then 1 else 0 := by
  cases call <;> simp [NetAction.uses]

theorem uses_le (a : NetAction) (l : SocketRef) : a.uses l ≤ 1 := by
  cases a with
  | resume t call signalled made =>
    rw [uses_resume]
    split <;> omega
  | _ => exact Nat.zero_le 1

theorem step_signalled {a : NetAction} (ok : WaitsOk s) (enabled : NetEnabled s a)
    (l : SocketRef) : s.signalled l ≤ (netExec s a).signalled l + a.uses l := by
  have step := step_waits ok.sound enabled
  generalize (netStep s a).1 = p, netExec s a = s' at step
  cases step with
  | woke value data wakes calls =>
    have more := count_signalled s s' s.calls l fun e _ => wakes.woken e.1
    simp only [NetRun.signalled, calls] at more ⊢
    omega
  | slept t call cv w idle wakes on waits calls =>
    have more := count_signalled s s' s.calls l fun e _ woken => by
      rw [waits]
      exact wakes.woken e.1 woken
    simp only [NetRun.signalled, calls, List.countP_cons] at more ⊢
    omega
  | left value data wakes calls =>
    rename_i t call signalled made
    have apart := erased_apart ok enabled.1
    have more := count_signalled s s' (s.calls.erase (t,call)) l
      fun e member woken => by
        have other : e.1 ≠ t := ne_of_mem_of_not_mem (List.mem_map_of_mem member) apart
        exact wakes.woken e.1 ((Function.update_of_ne other _ _).trans woken)
    have gone := erase_signalled l enabled.1
    rw [uses_resume]
    simp only [NetRun.signalled, calls] at more gone ⊢
    omega
  | again call' cv w wakes on waits calls =>
    rename_i t call signalled made
    have apart := erased_apart ok enabled.1
    have more := count_signalled s s' (s.calls.erase (t,call)) l
      fun e member woken => by
        have other : e.1 ≠ t := ne_of_mem_of_not_mem (List.mem_map_of_mem member) apart
        rw [waits]
        exact wakes.woken e.1 ((Function.update_of_ne other _ _).trans woken)
    have gone := erase_signalled l enabled.1
    rw [uses_resume]
    simp only [NetRun.signalled, calls, List.countP_cons] at more gone ⊢
    omega
  | expired waits calls =>
    rename_i t x l' r
    have unwoken := ok.sound.unwoken _ t enabled.2
    have more := count_signalled s s' s.calls l fun e _ woken => by
      have other : e.1 ≠ t := by
        intro same
        cases (same ▸ unwoken : s.net.waits.woken e.1 = none).symm.trans woken
      rw [waits]
      exact (Function.update_of_ne other _ _).trans woken
    simp only [NetRun.signalled, calls] at more ⊢
    omega

/- Who is blocked after a step was so before, or has just fallen asleep. -/
theorem step_blocked {a : NetAction} (ok : WaitsOk s) (enabled : NetEnabled s a) {t : Thread}
    {l : SocketRef} (blocked : (netExec s a).Blocked t l) :
    s.Blocked t l ∨ (netStep s a).1 = .sleeps (.accept l) := by
  have step := step_waits ok.sound enabled
  obtain ⟨busy,asleep⟩ := blocked
  generalize (netStep s a).1 = p, netExec s a = s' at step busy asleep
  cases step with
  | woke value data wakes calls =>
    exact Or.inl ⟨calls ▸ busy,(wakes.asleep _).subset asleep⟩
  | slept t' call cv w idle wakes on waits calls =>
    rw [waits, mem_wait] at asleep
    rw [calls, List.mem_cons] at busy
    rcases busy with ⟨⟨⟩⟩ | busy
    · exact Or.inr rfl
    · rcases asleep with old | ⟨_,rfl⟩
      · exact Or.inl ⟨busy,(wakes.asleep _).subset old⟩
      · exact absurd (List.mem_map_of_mem busy) idle
  | left value data wakes calls =>
    rw [calls] at busy
    exact Or.inl ⟨List.mem_of_mem_erase busy,(wakes.asleep _).subset asleep⟩
  | again call' cv w wakes on waits calls =>
    rw [waits, mem_wait] at asleep
    rw [calls, List.mem_cons] at busy
    rcases busy with ⟨⟨⟩⟩ | busy
    · exact Or.inr rfl
    · rcases asleep with old | ⟨_,rfl⟩
      · exact Or.inl ⟨List.mem_of_mem_erase busy,(wakes.asleep _).subset old⟩
      · exact absurd (List.mem_map_of_mem busy) (erased_apart ok enabled.1)
  | expired waits calls =>
    rw [waits] at asleep
    exact Or.inl ⟨calls ▸ busy,(expire_sublist _ _ _ _).subset asleep⟩

theorem outcome_sleeps {v w : View} {l l' : SocketRef} {made : Option (Fid × FcbRef)}
    {p : Progress} (outcome : AcceptOutcome v l made p w) (asleep : p = .sleeps (.accept l')) :
    (v.type l').queue = [] := by
  cases outcome with
  | sleeps mapped empty =>
    cases asleep
    exact empty
  | _ => cases asleep

/- An Accept falls asleep before an empty queue. -/
theorem accept_sleeps_empty {a : NetAction} {l : SocketRef}
    (asleep : (netStep s a).1 = .sleeps (.accept l)) : (s.view.type l).queue = [] := by
  cases a with
  | connect t x port =>
    rcases sysConnect_view (n := s.net) (o := fun _ => True) t x port with
      ⟨failed,_⟩ | ⟨l',_,_,_,_,waits,_⟩
    · cases failed.symm.trans asleep
    · cases waits.symm.trans asleep
  | accept t l' made =>
    rcases sysAccept_outcome (n := s.net) (o := fun x => 0 < s.refcount x) t l' made with
      ⟨_,failed,_⟩ | ⟨_,_,outcome⟩
    · cases failed.symm.trans asleep
    · exact outcome_sleeps outcome asleep
  | io t x c =>
    obtain ⟨r,same⟩ := socketTransfer_sleeps asleep
    cases same
  | resume t call signalled made =>
    cases call with
    | connect x l' r => exact absurd asleep (connectPass_returns _)
    | io x r c => cases (endTransfer_sleeps asleep)
    | accept l' =>
      exact outcome_sleeps (acceptPass_outcome (n := (s.leave t (.accept l')).net)
        (o := fun x => 0 < s.refcount x) t l' made) asleep
  | _ => cases asleep

theorem queue_listens {ty : SocketType} (pending : ty.queue ≠ []) :
    ∃ r rest, ty = .listener (r :: rest) := by
  cases ty with
  | listener queue =>
    cases queue with
    | nil => exact absurd rfl pending
    | cons r rest => exact ⟨r,rest,rfl⟩
  | _ => exact absurd rfl pending

theorem vain_uses {a : NetAction} {l : SocketRef} (vain : s.InVain a)
    (mapped : (s.view.type l).queue ≠ [] → s.view.portMap (s.view.port l) ≠ none) :
    a.uses l = 0 ∨ (s.view.type l).queue = [] := by
  by_cases pending : (s.view.type l).queue = []
  · exact Or.inr pending
  · refine Or.inl ?_
    obtain ⟨r,rest,queue⟩ := queue_listens pending
    cases a with
    | resume t call signalled made =>
      cases call with
      | accept l' =>
        simp only [NetAction.uses]
        split
        · rename_i same
          subst same
          exact absurd ⟨mapped pending,rest,queue⟩ (vain r)
        · rfl
      | _ => rfl
    | _ => rfl

theorem takes_uses {a : NetAction} {l l' : SocketRef} {r : RequestRef} {rest : List RequestRef}
    (requests : RequestsOk s.view) (takes : s.Takes a r)
    (queue : s.view.type l' = .listener (r :: rest)) (other : l ≠ l') : a.uses l = 0 := by
  cases a with
  | resume t call signalled made =>
    cases call with
    | accept l'' =>
      obtain ⟨_,rest',queue'⟩ := takes
      have same := requests.single l'' l' _ _ queue' queue r (by simp) (by simp)
      simp only [NetAction.uses]
      rw [if_neg (fun here => other (here.symm.trans same))]
    | _ => rfl
  | _ => rfl

theorem admits_takes {a : NetAction} {r : RequestRef} (admits : s.Admits a r) : s.Takes a r := by
  cases a with
  | accept t l made =>
    cases made with
    | none => cases admits
    | some e => exact admits
  | resume t call signalled made =>
    cases call with
    | accept l =>
      cases made with
      | none => cases admits
      | some e => exact admits
    | _ => cases made <;> cases admits
  | _ => cases admits

theorem enqueued_queues {a : NetAction} {l : SocketRef}
    (explained : s.Explains a (netStep s a).1 (.enqueued l)) :
    ∃ t x port, a = .connect t x port ∧ s.view.Queues x port l := by
  obtain ⟨t,x,port,rfl,asleep⟩ := explained
  rcases sysConnect_view (n := s.net) (o := fun _ => True) t x port with
    ⟨failed,_⟩ | ⟨l',legal,mapped,listens,unbound,waits,_⟩
  · cases failed.symm.trans asleep
  · cases waits.symm.trans asleep
    exact ⟨t,x,port,rfl,legal,mapped,listens,unbound⟩

/- An acceptor that is woken up takes a request, if it finds one. -/
theorem step_pending {a : NetAction} (requests : RequestsOk s.view) (enabled : NetEnabled s a)
    {l : SocketRef}
    (mapped : (s.view.type l).queue ≠ [] → s.view.portMap (s.view.port l) ≠ none)
    (quiet : ∀ t x port, a = .connect t x port → ¬ s.view.Queues x port l) :
    (netExec s a).pending l ≤ s.pending l - a.uses l := by
  obtain ⟨e,move,explained⟩ := step_move enabled
  have short {w : View} (uses : a.uses l = 0 ∨ (s.view.type l).queue = [])
      (same : (w.type l).queue = (s.view.type l).queue ∨ (w.type l).queue = []) :
      (w.type l).queue.length ≤ (s.view.type l).queue.length - a.uses l := by
    rcases same with same | same <;> rcases uses with uses | empty <;> simp_all
  unfold NetRun.pending
  generalize (netExec s a).view = w at move
  cases move with
  | quiet => exact short (vain_uses explained mapped) (Or.inl rfl)
  | socket port fcb legal =>
    apply short (vain_uses explained mapped)
    by_cases new : l = s.view.nextSocket
    · subst new
      exact Or.inr (by simp [View.openNew, View.withOpen, View.addSocket, SocketType.queue])
    · exact Or.inl (congrArg SocketType.queue (Function.update_of_ne new _ _))
  | listen x opened unbound bound free =>
    cases explained
    apply short (Or.inl rfl)
    by_cases same : l = x
    · subst same
      exact Or.inr (by simp [View.listen, View.setType, SocketType.queue])
    · exact Or.inl (congrArg SocketType.queue (Function.update_of_ne same _ _))
  | enqueue x l' port opened unbound mapped listens =>
    obtain ⟨t,x',port',rfl,queues⟩ := enqueued_queues explained
    have other : l ≠ l' := by
      rintro rfl
      exact quiet t x' port' rfl queues
    exact short (Or.inl rfl) (Or.inl (congrArg SocketType.queue (Function.update_of_ne other _ _)))
  | refuse l' r rest queue =>
    by_cases same : l = l'
    · subst same
      have one : a.uses l ≤ 1 := uses_le a l
      have now : (s.view.refuse l r rest).type l = .listener rest := Function.update_self _ _ _
      rw [now, queue]
      simp only [SocketType.queue, List.length_cons]
      omega
    · exact short (Or.inl (takes_uses requests explained.1 queue same))
        (Or.inl (congrArg SocketType.queue (Function.update_of_ne same _ _)))
  | honour l' r rest fcb queue legal =>
    have takes := admits_takes explained.1
    by_cases same : l = l'
    · subst same
      have one : a.uses l ≤ 1 := uses_le a l
      have now : ((s.view.openNew (s.view.honour l r rest fcb)).type l).queue = rest ∨
          ((s.view.openNew (s.view.honour l r rest fcb)).type l).queue = [] := by
        simp only [View.openNew, View.withOpen, View.honour, View.takeRequest, View.setFate,
          View.setType, View.addSocket, View.connectPeers]
        grind [SocketType.queue]
      rw [queue]
      simp only [SocketType.queue, List.length_cons]
      rcases now with now | now <;> simp only [SocketType.queue] at now <;> rw [now]
      · omega
      · exact Nat.zero_le _
    · apply short (Or.inl (takes_uses requests takes queue same))
      simp only [View.openNew, View.withOpen, View.honour, View.takeRequest, View.setFate,
        View.setType, View.addSocket, View.connectPeers]
      grind [SocketType.queue]
  | close x opened => exact short (vain_uses explained.1 mapped) (Or.inl rfl)

theorem queues_sleeps {t : Thread} {a l : SocketRef} {port : Int}
    (queues : s.view.Queues a port l) :
    (netStep s (.connect t a port)).1 = .sleeps (.connect a l s.net.nextRequest) := by
  obtain ⟨legal,mapped,listens,unbound⟩ := queues
  have ports : (s.net.usePort port).portMap = s.net.portMap := rfl
  have here : s.net.portMap port = some l := mapped
  have sockets : (((s.net.usePort port).useSocket l).useSocket a).sockets = s.net.sockets := rfl
  have sockets' : ((s.net.usePort port).useSocket l).sockets = s.net.sockets := rfl
  have listens' : ¬ ¬ (s.net.sockets l).type.IsListener := not_not.mpr listens
  have unbound' : ¬ (s.net.sockets a).type ≠ .unbound := not_not.mpr unbound
  change (sysConnect s.net t a port).1 = _
  simp only [sysConnect, ports, here, sockets, sockets']
  rw [if_neg (by omega), if_neg listens', if_neg unbound']
  rfl

/- A Connect that queues a request signals, and then falls asleep itself. -/
theorem connect_waits {t : Thread} {a l : SocketRef} {port : Int}
    (queues : s.view.Queues a port l) :
    (netExec s (.connect t a port)).net.waits =
        (s.net.waits.signal (.reqAvailable l)).wait (.reqAvailable l) t ∧
      (netExec s (.connect t a port)).calls =
        (t,.connect a l s.net.nextRequest) :: s.calls := by
  have asleep := queues_sleeps (t := t) queues
  have waits := sysConnect_waits (n := s.net) t a port
  simp only [netExec, netStep] at asleep ⊢
  generalize sysConnect s.net t a port = e at asleep waits
  obtain ⟨p,net⟩ := e
  simp only at asleep waits
  subst asleep
  obtain ⟨l',⟨⟩,_,waits⟩ := waits
  exact ⟨waits,rfl⟩

theorem connect_pending {t : Thread} {a l : SocketRef} {port : Int}
    (queues : s.view.Queues a port l) :
    (netExec s (.connect t a port)).pending l = s.pending l + 1 := by
  have asleep := queues_sleeps (t := t) queues
  have queue : (netExec s (.connect t a port)).view.type l =
      .listener (s.net.nextRequest :: (s.view.type l).queue) := by
    rcases sysConnect_view (n := s.net) (o := fun _ => True) t a port with
      ⟨failed,_⟩ | ⟨l',_,_,_,_,waits,view⟩
    · cases failed.symm.trans asleep
    · cases waits.symm.trans asleep
      have typed := congrFun (congrArg View.type view) l
      change ((s.record t _ _).net.sockets l).type = _
      rw [record_net]
      exact typed.trans (Function.update_self _ _ _)
  rw [NetRun.pending, queue]
  rfl

theorem connect_signals (ok : WaitsOk s) {t first : Thread} {rest : List Thread}
    {a l : SocketRef} {port : Int} (queues : s.view.Queues a port l)
    (front : s.net.waits.asleep (.reqAvailable l) = first :: rest)
    (accepts : (first,.accept l) ∈ s.calls) :
    s.signalled l + 1 ≤ (netExec s (.connect t a port)).signalled l := by
  obtain ⟨waits,calls⟩ := connect_waits (t := t) queues
  generalize netExec s (.connect t a port) = s' at waits calls
  have asleep := ok.sound.unwoken (.reqAvailable l) first (by simp [front])
  have woken : s'.net.waits.woken first = some true := by
    rw [waits]
    simp [Waits.wait, Waits.signal, front, Waits.wake]
  have perm := List.perm_cons_erase accepts
  have before := perm.countP_eq fun e => decide (s.Signalled l e)
  have after := perm.countP_eq fun e => decide (s'.Signalled l e)
  have more := count_signalled s s' (s.calls.erase (first,.accept l)) l
    fun e _ signalled => by
      rw [waits]
      exact (signal_wakes ok.sound _).woken e.1 signalled
  have no : ¬ s.Signalled l (first,.accept l) := by
    intro signalled
    cases asleep.symm.trans signalled.2
  have yes : s'.Signalled l (first,.accept l) := ⟨rfl,woken⟩
  simp only [List.countP_cons, no, yes, decide_false, decide_true, if_true] at before after
  simp only [NetRun.signalled, calls, List.countP_cons]
  simp at before
  omega

theorem move_listening {v w : View} {e : Event} (ok : Allocated v) (mapped : Mapped v)
    (move : Move v e w) {l : SocketRef} (listens : (v.type l).IsListener)
    (here : v.portMap (v.port l) = some l) : w.portMap (w.port l) = some l ∨ e = .closed l := by
  obtain ⟨listening,holder⟩ := mapped
  have made := listener_made ok listens
  have typed := (holder _ _ here).1
  cases move with
  | listen a opens unbound bound free =>
    simp only [View.listen, View.setType]
    grind
  | close a opens =>
    simp only [View.close, View.unmap, View.withOpen]
    grind
  | socket port fcb legal =>
    simp only [View.openNew, View.withOpen, View.addSocket]
    grind
  | honour l' r rest fcb queue legal =>
    simp only [View.openNew, View.withOpen, View.honour, View.takeRequest, View.setFate,
      View.setType, View.addSocket, View.connectPeers]
    grind
  | _ => exact Or.inl here

structure AcceptInv (s : NetRun) : Prop where
  waits : WaitsOk s
  connects : ConnectInv s
  mapped : Mapped s.view
  listening : ∀ t l, s.Blocked t l → (s.view.type l).queue ≠ [] →
    s.view.portMap (s.view.port l) = some l
  counted : ∀ t l, s.Blocked t l → s.pending l ≤ s.signalled l

/- Where nothing is queued for a listener with a port, nothing becomes pending. -/
theorem unqueued_pending {a : NetAction} (inv : AcceptInv s) (enabled : NetEnabled s a)
    {t : Thread} {l : SocketRef} (blocked : (netExec s a).Blocked t l)
    (quiet : ∀ t x port, a = .connect t x port → ¬ s.view.Queues x port l) :
    (netExec s a).pending l = 0 ∨
      s.Blocked t l ∧ (netExec s a).pending l ≤ s.pending l - a.uses l := by
  rcases step_blocked inv.waits enabled blocked with old | new
  · refine Or.inr ⟨old,step_pending inv.connects.requests enabled ?_ quiet⟩
    intro pending
    rw [inv.listening t l old pending]
    simp
  · have empty := accept_sleeps_empty new
    have less := step_pending inv.connects.requests enabled (fun pending => absurd empty pending)
      quiet
    have none : s.pending l = 0 := congrArg List.length empty
    omega

theorem step_listening {a : NetAction} (inv : AcceptInv s) (enabled : NetEnabled s a)
    {t : Thread} {l : SocketRef} (blocked : (netExec s a).Blocked t l)
    (pending : ((netExec s a).view.type l).queue ≠ []) :
    (netExec s a).view.portMap ((netExec s a).view.port l) = some l := by
  obtain ⟨e,move,explained⟩ := step_move enabled
  have any : (netExec s a).pending l ≠ 0 := fun none => pending (List.length_eq_zero_iff.mp none)
  have stays (listens : (s.view.type l).IsListener)
      (here : s.view.portMap (s.view.port l) = some l) :
      (netExec s a).view.portMap ((netExec s a).view.port l) = some l := by
    rcases move_listening inv.connects.allocated inv.mapped move listens here with kept | rfl
    · exact kept
    · have gone := explained.2 listens
      exact absurd blocked.2 (by simp [gone])
  by_cases quiet : ∀ t x port, a = .connect t x port → ¬ s.view.Queues x port l
  · rcases unqueued_pending inv enabled blocked quiet with none | ⟨old,less⟩
    · exact absurd none any
    · have before : (s.view.type l).queue ≠ [] := by
        intro empty
        have none : s.pending l = 0 := congrArg List.length empty
        omega
      obtain ⟨r,rest,queue⟩ := queue_listens before
      exact stays ⟨_,queue⟩ (inv.listening t l old before)
  · simp only [not_forall, not_not] at quiet
    obtain ⟨t',x,port,rfl,_,mapped,listens,_⟩ := quiet
    have bound := (inv.mapped.holder port l mapped).2.1
    exact stays listens (bound ▸ mapped)

theorem step_counted {a : NetAction} (inv : AcceptInv s) (enabled : NetEnabled s a)
    (reaches : ReachesAcceptor s a) {t : Thread} {l : SocketRef}
    (blocked : (netExec s a).Blocked t l) : (netExec s a).pending l ≤ (netExec s a).signalled l := by
  by_cases quiet : ∀ t x port, a = .connect t x port → ¬ s.view.Queues x port l
  · rcases unqueued_pending inv enabled blocked quiet with none | ⟨old,less⟩
    · omega
    · have counted := inv.counted t l old
      have signalled := step_signalled inv.waits enabled l
      omega
  · simp only [not_forall, not_not] at quiet
    obtain ⟨t',x,port,rfl,queues⟩ := quiet
    have old : s.Blocked t l := by
      rcases step_blocked inv.waits enabled blocked with old | new
      · exact old
      · cases (queues_sleeps queues).symm.trans new
    obtain ⟨first,rest,front,accepts⟩ := reaches l queues ⟨t,old⟩
    have more := connect_signals (t := t') inv.waits queues front accepts
    have counted := inv.counted t l old
    have one := connect_pending (t := t') queues
    omega

theorem acceptInv_inductive : (netSystem.restrict ReachesAcceptor).Inductive AcceptInv := by
  constructor
  · rintro s ⟨memory,rfl⟩
    refine ⟨waitsOk_inductive.start _ ⟨memory,rfl⟩,connectInv_inductive.start _ ⟨memory,rfl⟩,?_,
      fun t l blocked => ?_,fun t l blocked => ?_⟩
    · constructor <;> simp [bootNet, NetRun.view, Net.view]
    · cases blocked.1
    · cases blocked.1
  · rintro s a s' inv ⟨⟨enabled,reaches⟩,run⟩
    cases run
    obtain ⟨e,move,_⟩ := step_move enabled
    exact ⟨step_waitsOk inv.waits enabled,
      connectInv_inductive.step s a _ inv.connects ⟨enabled,rfl⟩,
      move_mapped inv.connects.allocated inv.mapped move,
      fun t l => step_listening inv enabled,fun t l => step_counted inv enabled reaches⟩

theorem counted_awake (inv : AcceptInv s) : AcceptorsAwake s := by
  intro t l blocked
  by_cases empty : (s.view.type l).queue = []
  · exact Or.inl empty
  · have pending : 0 < s.pending l := List.length_pos_iff.mpr empty
    have counted := inv.counted t l blocked
    have some : 0 < s.signalled l := by omega
    obtain ⟨⟨t',call⟩,member,signalled⟩ := List.countP_pos_iff.mp some
    obtain ⟨accepts,woken⟩ := of_decide_eq_true signalled
    simp only at accepts woken
    subst accepts
    refine Or.inr ⟨t',?_,member,woken⟩
    rintro rfl
    cases (inv.waits.sound.unwoken _ t' blocked.2).symm.trans woken

/- The signal goes to another thread than an acceptor. -/
theorem missed_signal {a : NetAction} (missed : ¬ ReachesAcceptor s a) :
    ∃ t l, (netExec s a).Blocked t l ∧ ((netExec s a).view.type l).queue ≠ [] ∧
      ∀ t', (t',.accept l) ∈ (netExec s a).calls →
        (netExec s a).net.waits.woken t' = some true → s.net.waits.woken t' = some true := by
  cases a with
  | connect t' x port =>
    simp only [ReachesAcceptor, not_forall] at missed
    obtain ⟨l,queues,⟨t,blocked⟩,missed⟩ := missed
    obtain ⟨waits,calls⟩ := connect_waits (t := t') queues
    have more : (netExec s (.connect t' x port)).pending l ≠ 0 := by
      rw [connect_pending queues]
      exact Nat.succ_ne_zero _
    cases front : s.net.waits.asleep (.reqAvailable l) with
    | nil =>
      have asleep := blocked.2
      simp [front] at asleep
    | cons first rest =>
      have other : (first,.accept l) ∉ s.calls := fun accepts => missed ⟨first,rest,front,accepts⟩
      have apart : t ≠ first := by
        rintro rfl
        exact other blocked.1
      have still : t ∈ rest := by
        have asleep := blocked.2
        rw [front, List.mem_cons] at asleep
        exact asleep.resolve_left apart
      refine ⟨t,l,⟨?_,?_⟩,fun empty => more (congrArg List.length empty),?_⟩
      · rw [calls]
        exact List.mem_cons_of_mem _ blocked.1
      · rw [waits, mem_wait]
        refine Or.inl ?_
        simp [Waits.signal, front, Waits.wake, still]
      · intro u accepts woken
        rw [calls, List.mem_cons] at accepts
        rcases accepts with ⟨⟨⟩⟩ | accepts
        have different : u ≠ first := by
          rintro rfl
          exact other accepts
        rw [waits] at woken
        simpa [Waits.wait, Waits.signal, front, Waits.wake, different] using woken
  | _ => exact absurd trivial missed

/-- No acceptor sleeps while a request is pending, as long as no step touches what is not there, such
    as the node of a Connect that has returned, and each signal of a Connect that finds a blocked
    acceptor goes to an acceptor; a signal that goes astray leaves one asleep. -/
theorem acceptors_awake (reach : (intactSystem.restrict ReachesAcceptor).Reach s) :
    AcceptorsAwake s ∧
    ∀ a, intactSystem.enabled s a → ¬ ReachesAcceptor s a →
      ∃ t l, (netExec s a).Blocked t l ∧ ((netExec s a).view.type l).queue ≠ [] ∧
        ∀ t', (t',.accept l) ∈ (netExec s a).calls →
          (netExec s a).net.waits.woken t' = some true → s.net.waits.woken t' = some true := by
  have inv := inductive_reach acceptInv_inductive (restrict_inner reach)
  exact ⟨counted_awake inv,fun a _ => missed_signal⟩

/- Two acceptors fall asleep before a Connect queues a request. -/
def twoAcceptors : List NetAction :=
  [.socket 5 (some (0,0)),.listen 0,.accept (1,1) 0 (some (1,1)),.accept (1,2) 0 (some (1,1)),
    .socket 0 (some (1,1)),.connect (1,3) 1 5]

theorem acceptors_awake_two_acceptors :
    ∃ s, (intactSystem.restrict ReachesAcceptor).Reach s ∧ s.Blocked (1,2) 0 ∧
      ∃ t', t' ≠ (1,2) ∧ (t',.accept 0) ∈ s.calls ∧ s.net.waits.woken t' = some true := by
  have reach : (intactSystem.restrict ReachesAcceptor).Reach _ :=
    meets_reach ⟨fun _ => blankPipe,rfl⟩ twoAcceptors rfl (by
      refine ⟨trivial,fun _ run => ?_⟩
      cases run
      refine ⟨trivial,fun _ run => ?_⟩
      cases run
      refine ⟨trivial,fun _ run => ?_⟩
      cases run
      refine ⟨trivial,fun _ run => ?_⟩
      cases run
      refine ⟨trivial,fun _ run => ?_⟩
      cases run
      refine ⟨?_,fun _ _ => trivial⟩
      rintro l ⟨_,mapped,_⟩ _
      cases mapped
      exact ⟨(1,1),[(1,2)],rfl,by decide⟩)
  have awake := (acceptors_awake reach).1 (1,2) 0 ⟨by decide,by decide⟩
  exact ⟨_,reach,⟨by decide,by decide⟩,awake.resolve_left (by decide)⟩

/- An acceptor falls asleep behind a Connect that has been accepted already, and the signal of a
   second Connect wakes the first one. -/
def strayedSignal : List NetAction :=
  oneConnection ++ [.accept (1,2) 0 (some (3,3)),.socket 0 (some (4,4)),.connect (1,3) 3 5]

theorem acceptor_sleeps_on : ∃ s, intactSystem.Reach s ∧ ¬ AcceptorsAwake s := by
  have reach := play_reach (m := intactSystem) ⟨fun _ => blankPipe,rfl⟩ strayedSignal rfl
  refine ⟨_,reach,?_⟩
  intro awake
  rcases awake (1,2) 0 ⟨by decide,by decide⟩ with empty | ⟨t',other,member,woken⟩
  · revert empty
    decide
  · change (t',NetCall.accept 0) ∈ [((1,3),.connect 3 0 1),((1,2),.accept 0),((1,1),.connect 1 0 0)]
      at member
    simp only [List.mem_cons, Prod.mk.injEq, reduceCtorEq, and_false, and_true, false_or, or_false,
      List.not_mem_nil] at member
    exact other member

end Steps
end KernelSocket
