import TinyOS.PortTable

/- What Connect tells its caller, against what Accept has done with its request. -/
namespace KernelSocket
open KernelStreams KernelProc KernelPipe Monitor Transition

/- A request is in one queue at most, and leaves it when its fate is settled. -/
structure RequestsOk (v : View) : Prop where
  fresh : ∀ r, v.nextRequest ≤ r → v.fate r = none
  admitted : ∀ r, r < v.nextRequest → (v.admitted r = true ↔ v.fate r ≠ none)
  pending : ∀ x queue, v.type x = .listener queue → ∀ r ∈ queue, v.fate r = none
  nodup : ∀ x queue, v.type x = .listener queue → queue.Nodup
  single : ∀ x y queue queue', v.type x = .listener queue → v.type y = .listener queue' →
    ∀ r, r ∈ queue → r ∈ queue' → x = y

theorem move_requests {v w : View} {e : Event} (ok : Allocated v) (requests : RequestsOk v)
    (move : Move v e w) : RequestsOk w := by
  have queues := ok.queues
  have beyond := ok.fresh
  obtain ⟨fresh,admitted,pending,nodup,single⟩ := requests
  cases move with
  | quiet => exact ⟨fresh,admitted,pending,nodup,single⟩
  | socket port fcb legal =>
    constructor <;> simp only [View.openNew, View.withOpen, View.addSocket] <;> grind
  | listen a opens unbound bound free =>
    constructor <;> simp only [View.listen, View.setType] <;> grind
  | enqueue a l port opens unbound mapped listens =>
    obtain ⟨q,known⟩ := listens
    have queue : (v.type l).queue = q := by
      rw [known]
      rfl
    constructor <;> simp only [View.enqueue, View.setType, queue] <;> grind
  | refuse l r rest queue =>
    have asked := queues l _ queue r (by simp)
    have head := List.nodup_cons.mp (nodup l _ queue)
    constructor <;> simp only [View.refuse, View.takeRequest, View.setFate, View.setType] <;> grind
  | honour l r rest fcb queue legal =>
    have asked := queues l _ queue r (by simp)
    have head := List.nodup_cons.mp (nodup l _ queue)
    constructor <;> simp only [View.openNew, View.withOpen, View.honour, View.takeRequest, View.setFate,
      View.setType, View.addSocket, View.connectPeers] <;> grind
  | close a opens =>
    constructor <;> simp only [View.close, View.unmap, View.withOpen] <;> grind

/- The request r of a waits in the queue of l until it is taken. -/
structure View.Asks (v : View) (a l : SocketRef) (r : RequestRef) : Prop where
  made : r < v.nextRequest
  owner : v.owner r = a
  listened : v.type l ≠ .unbound
  queued : v.fate r = none → ∀ queue, v.type l = .listener queue → r ∈ queue

theorem move_asks {v w : View} {e : Event} {a l : SocketRef} {r : RequestRef} (ok : Allocated v)
    (asks : v.Asks a l r) (move : Move v e w) : w.Asks a l r := by
  have beyond := ok.fresh
  obtain ⟨made,owner,listened,queued⟩ := asks
  cases move with
  | quiet => exact ⟨made,owner,listened,queued⟩
  | socket port fcb legal =>
    constructor <;> simp only [View.openNew, View.withOpen, View.addSocket] <;> grind
  | listen a' opens unbound bound free =>
    constructor <;> simp only [View.listen, View.setType] <;> grind
  | enqueue a' l' port opens unbound mapped listens =>
    obtain ⟨q,known⟩ := listens
    have queue : (v.type l').queue = q := by
      rw [known]
      rfl
    constructor <;> simp only [View.enqueue, View.setType, queue] <;> grind
  | refuse l' r' rest queue =>
    constructor <;> simp only [View.refuse, View.takeRequest, View.setFate, View.setType] <;> grind
  | honour l' r' rest fcb queue legal =>
    constructor <;> simp only [View.openNew, View.withOpen, View.honour, View.takeRequest, View.setFate,
      View.setType, View.addSocket, View.connectPeers] <;> grind
  | close a' opens =>
    constructor <;> simp only [View.close, View.unmap, View.withOpen] <;> grind

section Runs
variable {s : NetRun}

/- A Connect that falls asleep has enqueued its request. -/
theorem connect_asks {a : NetAction} {t : Thread} {x l : SocketRef} {r : RequestRef}
    (enabled : NetEnabled s a) (asleep : (t,.connect x l r) ∈ (netExec s a).calls) :
    (∃ t', (t',.connect x l r) ∈ s.calls) ∨ (netExec s a).view.Asks x l r := by
  rcases step_calls asleep with old | new
  · exact Or.inl ⟨t,old⟩
  · cases a with
    | connect t' y port =>
      rcases sysConnect_view (n := s.net) (o := fun x => 0 < (netExec s (.connect t' y port)).refcount x)
          t' y port with ⟨failed,_⟩ | ⟨l',_,_,_,_,sleeps,view⟩
      · cases failed.symm.trans new
      · cases sleeps.symm.trans new
        have same : (netExec s (.connect t' x port)).view =
            (s.net.view fun y => 0 < (netExec s (.connect t' x port)).refcount y).enqueue x l :=
          (record_view _ _ _).trans view
        rw [same]
        exact Or.inr
          { made := Nat.lt_succ_self _
            owner := Function.update_self _ _ _
            listened := by simp [View.enqueue, View.setType]
            queued := by
              intro _ queue known
              simp only [View.enqueue, View.setType, Function.update_self] at known
              cases known
              exact List.mem_cons_self }
    | accept t' l' made =>
      rcases sysAccept_outcome (n := s.net) (o := fun _ => True) t' l' made with
        ⟨_,failed,_⟩ | ⟨_,listens,outcome⟩
      · cases failed.symm.trans new
      · cases accept_sleeps outcome new
    | io t' x c =>
      obtain ⟨r,same⟩ := socketTransfer_sleeps new
      cases same
    | resume t' call signalled made =>
      cases call with
      | connect x l' r => exact absurd new (connectPass_returns _)
      | io x r c => cases endTransfer_sleeps new
      | accept l' => cases accept_sleeps (acceptPass_outcome (o := fun _ => True) t' l' made) new
    | _ => cases new

structure ConnectInv (s : NetRun) : Prop where
  allocated : Allocated s.view
  requests : RequestsOk s.view
  asks : ∀ t a l r, (t,.connect a l r) ∈ s.calls → s.view.Asks a l r

theorem connectInv_inductive : netSystem.Inductive ConnectInv := by
  constructor
  · rintro s ⟨memory,rfl⟩
    refine ⟨boot_allocated memory,?_,by simp [bootNet]⟩
    constructor <;> simp [bootNet, NetRun.view, Net.view]
  · rintro s a s' inv ⟨enabled,run⟩
    cases run
    obtain ⟨e,move,_⟩ := step_move enabled
    refine ⟨move_allocated inv.allocated move,move_requests inv.allocated inv.requests move,?_⟩
    intro t x l r asleep
    rcases connect_asks enabled asleep with ⟨t',old⟩ | new
    · exact move_asks inv.allocated (inv.asks t' x l r old) move
    · exact new

/- A settled request stays out of the queues. -/
theorem settled_step {a : NetAction} {r : RequestRef} {f : Fate} (inv : ConnectInv s)
    (enabled : NetEnabled s a) (settled : s.view.fate r = some f) :
    (netExec s a).view.fate r = some f := by
  obtain ⟨e,move,_⟩ := step_move enabled
  have pending := inv.requests.pending
  generalize (netExec s a).view = w at move
  cases move with
  | refuse l r' rest queue =>
    have other : r ≠ r' := by
      rintro rfl
      cases (pending l _ queue r (by simp)).symm.trans settled
    exact (Function.update_of_ne other _ _).trans settled
  | honour l r' rest fcb queue legal =>
    have other : r ≠ r' := by
      rintro rfl
      cases (pending l _ queue r (by simp)).symm.trans settled
    exact (Function.update_of_ne other _ _).trans settled
  | _ => exact settled

theorem settled_runs {u : NetRun} {as : List NetAction} {r : RequestRef} {f : Fate}
    (runs : netSystem.Runs s as u) (inv : ConnectInv s) (settled : s.view.fate r = some f) :
    ∀ x queue, u.view.type x = .listener queue → r ∉ queue := by
  induction runs with
  | nil s =>
    intro x queue known member
    cases (inv.requests.pending x queue known r member).symm.trans settled
  | cons move rest ih =>
    have inv' := connectInv_inductive.step _ _ _ inv move
    obtain ⟨enabled,run⟩ := move
    cases run
    exact ih inv' (settled_step inv enabled settled)

/- Connect tells the truth: about itself in the state s, and about every later one. -/
def Agreement (s : NetRun) : NetAction → Prop
  | .resume t (.connect a l r) signalled made =>
    s.view.owner r = a ∧
    ((netStep s (.resume t (.connect a l r) signalled made)).1 = .returns 0 [] ↔
      ∃ b, s.view.fate r = some (.honoured b)) ∧
    ((netStep s (.resume t (.connect a l r) signalled made)).1 = .returns (-1) [] →
      s.view.type a = .unbound ∧
      ∀ as u, netSystem.Runs (netExec s (.resume t (.connect a l r) signalled made)) as u →
        ∀ x queue, u.view.type x = .listener queue → r ∉ queue)
  | _ => True

/- A Connect that wakes up has been signalled after an Accept had honoured its request, or its
   time has run out after an Accept had taken the request and found no file id. -/
def Answered (s : NetRun) : NetAction → Prop
  | .resume _ (.connect a _ r) signalled _ =>
    (signalled = true ∧ ∃ b, s.view.fate r = some (.honoured b)) ∨
    (signalled = false ∧ s.view.fate r = some .refused ∧ s.view.type a = .unbound)
  | _ => True

theorem connect_reply (t : Thread) (a l : SocketRef) (r : RequestRef) (signalled : Bool)
    (made : Option (Fid × FcbRef)) :
    (netStep s (.resume t (.connect a l r) signalled made)).1 =
      .returns (if signalled = true ∧ s.view.admitted r = true then 0 else -1) [] := by
  have same : ∀ n, n = (s.leave t (.connect a l r)).net →
      (((((n.useSocket l).useSocket a).addRef a (-1)).requests r).admitted = s.view.admitted r) := by
    rintro n rfl
    rfl
  change (connectPass (s.leave t (.connect a l r)).net a l r signalled).1 = _
  simp only [connectPass, same _ rfl]
  cases signalled <;> cases s.view.admitted r <;> rfl

theorem answered_agrees {a : NetAction} (inv : ConnectInv s) (enabled : NetEnabled s a)
    (answered : Answered s a) : Agreement s a := by
  cases a with
  | resume t call signalled made =>
    cases call with
    | connect a l r =>
      obtain ⟨asked,owner,_,_⟩ := inv.asks t a l r enabled.1
      have admitted := inv.requests.admitted r asked
      have moved := connectInv_inductive.step s (.resume t (.connect a l r) signalled made) _ inv
        ⟨enabled,rfl⟩
      have view := resume_connect_view signalled made enabled.1
      refine ⟨owner,?_,?_⟩
      · rw [connect_reply]
        rcases answered with ⟨woken,b,honoured⟩ | ⟨expired,refused,_⟩
        · have yes := admitted.mpr (by rw [honoured]; simp)
          simp [woken, yes, honoured]
        · simp [expired, refused]
      · rw [connect_reply]
        rcases answered with ⟨woken,b,honoured⟩ | ⟨expired,refused,unbound⟩
        · have yes := admitted.mpr (by rw [honoured]; simp)
          simp [woken, yes]
        · intro _
          refine ⟨unbound,?_⟩
          intro as u runs
          exact settled_runs runs moved (view ▸ refused)
    | _ => trivial
  | _ => trivial

/- Where the listener still is one, nothing else will do. -/
theorem unanswered_disagrees {t : Thread} {a l : SocketRef} {r : RequestRef} {signalled : Bool}
    {made : Option (Fid × FcbRef)} (inv : ConnectInv s)
    (enabled : NetEnabled s (.resume t (.connect a l r) signalled made))
    (listens : (s.view.type l).IsListener)
    (unanswered : ¬ Answered s (.resume t (.connect a l r) signalled made)) :
    ¬ Agreement s (.resume t (.connect a l r) signalled made) := by
  rintro ⟨_,zero,failed⟩
  obtain ⟨asked,owner,_,queued⟩ := inv.asks t a l r enabled.1
  have admitted := inv.requests.admitted r asked
  have view := resume_connect_view signalled made enabled.1
  rw [connect_reply] at zero failed
  cases fate : s.view.fate r with
  | none =>
    have no : ¬ s.view.admitted r = true := fun yes => admitted.mp yes fate
    obtain ⟨queue,known⟩ := listens
    have gone := (failed (by simp [no])).2 [] _ (.nil _) l queue (view ▸ known)
    exact gone (queued fate queue known)
  | some f =>
    have yes := admitted.mpr (by rw [fate]; simp)
    cases signalled with
    | false =>
      cases f with
      | refused =>
        have unbound := (failed (by simp)).1
        exact unanswered (Or.inr ⟨rfl,fate,unbound⟩)
      | honoured b => simpa using zero.mpr ⟨b,fate⟩
    | true =>
      cases f with
      | refused =>
        obtain ⟨b,honoured⟩ := zero.mp (by simp [yes])
        cases fate.symm.trans honoured
      | honoured b => exact unanswered (Or.inl ⟨rfl,b,fate⟩)

/- The step that honours a request is an Accept, which returns a file id and makes the two
   sockets each other's peer. -/
theorem honoured_peers {a : NetAction} {r : RequestRef} {b : SocketRef} (inv : ConnectInv s)
    (enabled : NetEnabled s a) (before : s.view.fate r ≠ some (.honoured b))
    (honoured : (netExec s a).view.fate r = some (.honoured b)) :
    (∃ fid : Fid, s.Admits a r ∧ (netStep s a).1 = .returns fid []) ∧
    ∃ link back, (netExec s a).view.type (s.view.owner r) = .peer link ∧ link.peer = b ∧
      (netExec s a).view.type b = .peer back ∧ back.peer = s.view.owner r := by
  obtain ⟨e,move,explained⟩ := step_move enabled
  have queues := inv.allocated.queues
  have owners := inv.allocated.owners
  generalize (netExec s a).view = w at move honoured
  cases move with
  | refuse l r' rest queue =>
    by_cases same : r = r'
    · subst same
      cases (Function.update_self _ _ _).symm.trans honoured
    · exact absurd ((Function.update_of_ne same _ _).symm.trans honoured) before
  | honour l r' rest fcb queue legal =>
    by_cases same : r = r'
    · subst same
      obtain ⟨admits,fid,replied⟩ := explained
      cases (Function.update_self _ _ _).symm.trans honoured
      have old := owners r (queues l _ queue r (by simp))
      have other : s.view.owner r ≠ s.view.nextSocket := Nat.ne_of_lt old
      refine ⟨⟨fid,admits,replied⟩,
        { peer := s.view.nextSocket, readPipe := s.view.nextPipe, writePipe := s.view.nextPipe + 1 },
        { peer := s.view.owner r, readPipe := s.view.nextPipe + 1, writePipe := s.view.nextPipe },
        ?_,rfl,Function.update_self _ _ _,rfl⟩
      exact (Function.update_of_ne other _ _).trans (Function.update_self _ _ _)
    · exact absurd ((Function.update_of_ne same _ _).symm.trans honoured) before
  | _ => exact absurd honoured before

/-- Connect and Accept agree in every run in which each sleeping Connect is answered. -/
theorem connect_accept_agree (reach : (netSystem.restrict Answered).Reach s) :
    (∀ a, NetEnabled s a → Answered s a → Agreement s a) ∧
    (∀ a r b, NetEnabled s a → s.view.fate r ≠ some (.honoured b) →
      (netExec s a).view.fate r = some (.honoured b) →
      (∃ fid : Fid, s.Admits a r ∧ (netStep s a).1 = .returns fid []) ∧
      ∃ link back, (netExec s a).view.type (s.view.owner r) = .peer link ∧ link.peer = b ∧
        (netExec s a).view.type b = .peer back ∧ back.peer = s.view.owner r) ∧
    ∀ t a l r signalled made, NetEnabled s (.resume t (.connect a l r) signalled made) →
      s.view.isOpen l → (s.view.type l).IsListener →
      ¬ Answered s (.resume t (.connect a l r) signalled made) →
      ¬ Agreement s (.resume t (.connect a l r) signalled made) := by
  have inv := inductive_reach connectInv_inductive (restrict_reach reach)
  exact ⟨fun a => answered_agrees inv,fun a r b => honoured_peers inv,
    fun t a l r signalled made enabled _ => unanswered_disagrees inv enabled⟩

/- The signal of a second Connect wakes the first one, which has been accepted. -/
def wokenBySecond : List NetAction :=
  oneConnection ++ [.socket 0 (some (3,3)),.connect (1,3) 3 5]

theorem connect_accept_agree_woken :
    ∃ s, (netSystem.restrict Answered).Reach s ∧
      (netStep s (.resume (1,1) (.connect 1 0 0) true none)).1 = .returns 0 [] ∧
      s.view.fate 0 = some (.honoured 2) := by
  have meets : ∀ s, ∀ a ∈ wokenBySecond, Answered s a := by
    intro s a member
    simp only [wokenBySecond, oneConnection, oneRequest, List.mem_append, List.mem_cons,
      List.not_mem_nil, or_false] at member
    rcases member with ((rfl | rfl | rfl | rfl) | rfl) | rfl | rfl <;> trivial
  have reach := meets_reach (m := netSystem) ⟨fun _ => blankPipe,rfl⟩ wokenBySecond rfl
    (meets_of_all meets _)
  have agrees := (connect_accept_agree reach).1 (.resume (1,1) (.connect 1 0 0) true none)
    (by decide) (Or.inl ⟨rfl,2,rfl⟩)
  exact ⟨_,reach,agrees.2.1.mpr ⟨2,rfl⟩,rfl⟩

/- The Connect is accepted, and then its time runs out. -/
def lateAnswer : List NetAction := oneConnection ++ [.expire (1,1) 1 0 0]

theorem connect_disowns_connection :
    ∃ s, netSystem.Reach s ∧ NetEnabled s (.resume (1,1) (.connect 1 0 0) false none) ∧
      ¬ Agreement s (.resume (1,1) (.connect 1 0 0) false none) := by
  have reach := play_reach (m := netSystem) ⟨fun _ => blankPipe,rfl⟩ lateAnswer rfl
  refine ⟨_,reach,by decide,?_⟩
  rintro ⟨_,zero,_⟩
  have failed := zero.mpr ⟨2,rfl⟩
  cases failed

end Runs
end KernelSocket
