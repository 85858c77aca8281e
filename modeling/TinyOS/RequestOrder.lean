import TinyOS.Connect

/- The order in which Accept takes the requests. Connect pushes a request to the front of the
   queue and Accept takes the one at the front, the newest; and what a failing Accept takes is
   lost. -/
namespace KernelSocket
open KernelStreams KernelProc KernelPipe Monitor Transition

/- The newer requests, whose numbers are higher, stand before the older ones. -/
def Descending (v : View) : Prop :=
  ∀ x queue, v.type x = .listener queue → queue.Pairwise (· > ·)

theorem move_descending {v w : View} {e : Event} (ok : Allocated v) (sorted : Descending v)
    (move : Move v e w) : Descending w := by
  have queues := ok.queues
  cases move with
  | quiet => exact sorted
  | socket port fcb legal =>
    simp only [Descending, View.openNew, View.withOpen, View.addSocket]
    grind [Descending]
  | listen a opens unbound bound free =>
    simp only [Descending, View.listen, View.setType]
    grind [Descending]
  | enqueue a l port opens unbound mapped listens =>
    obtain ⟨q,known⟩ := listens
    have queue : (v.type l).queue = q := by
      rw [known]
      rfl
    intro x queue' typed
    by_cases here : x = l
    · subst here
      simp only [View.enqueue, View.setType, queue, Function.update_self] at typed
      cases typed
      exact List.pairwise_cons.mpr ⟨queues x q known,sorted x q known⟩
    · refine sorted x queue' ?_
      simpa [View.enqueue, View.setType, here] using typed
  | refuse l r rest queue =>
    have tail := (List.pairwise_cons.mp (sorted l _ queue)).2
    simp only [Descending, View.refuse, View.takeRequest, View.setFate, View.setType]
    grind [Descending]
  | honour l r rest fcb queue legal =>
    have tail := (List.pairwise_cons.mp (sorted l _ queue)).2
    simp only [Descending, View.openNew, View.withOpen, View.honour, View.takeRequest, View.setFate,
      View.setType, View.addSocket, View.connectPeers]
    grind [Descending]
  | close a opens => exact sorted

section Runs
variable {s : NetRun}

structure OrderInv (s : NetRun) : Prop where
  connects : ConnectInv s
  sorted : Descending s.view

theorem orderInv_inductive : netSystem.Inductive OrderInv := by
  constructor
  · rintro s ⟨memory,rfl⟩
    refine ⟨connectInv_inductive.start _ ⟨memory,rfl⟩,?_⟩
    simp [Descending, bootNet, NetRun.view, Net.view]
  · rintro s a s' inv ⟨enabled,run⟩
    obtain ⟨e,move,_⟩ := step_move enabled
    refine ⟨connectInv_inductive.step s a s' inv.connects ⟨enabled,run⟩,?_⟩
    cases run
    exact move_descending inv.connects.allocated inv.sorted move

theorem accepts_taken {v : View} {l : SocketRef} {made : Option (Fid × FcbRef)} {p : Progress}
    {e : Event} {r : RequestRef} (accepts : v.Accepts l made p e) (front : v.Front l r) :
    e = .refused r ∨ e = .honoured r := by
  cases e with
  | other => exact absurd front (accepts r)
  | listened x => cases accepts
  | enqueued x => cases accepts
  | closed x => cases accepts
  | refused r' => exact Or.inl (by rw [front_unique front accepts.1])
  | honoured r' => exact Or.inr (by rw [front_unique front accepts.1])

/-- An Accept that may take a request takes it. -/
theorem takes_move {a : NetAction} {r : RequestRef} (enabled : NetEnabled s a)
    (ok : Allocated s.view) (takes : s.Takes a r) :
    Move s.view (.refused r) (netExec s a).view ∨ Move s.view (.honoured r) (netExec s a).view := by
  cases a with
  | accept t l made =>
    have front : s.view.Front l r := takes
    obtain ⟨_,rest,queue⟩ := front
    obtain ⟨legal,bound⟩ := listener_ports ok l ⟨_,queue⟩
    rcases sysAccept_outcome (n := s.net) (o := fun a => 0 < s.refcount a) t l made with
      ⟨refused,_,_⟩ | ⟨_,_,outcome⟩
    · exact absurd ⟨legal,bound,⟨_,queue⟩⟩ refused
    · obtain ⟨e,move,accepts⟩ := accept_move (fun _ => Iff.rfl) outcome (t := t)
      rcases accepts_taken accepts takes with rfl | rfl
      · exact Or.inl move
      · exact Or.inr move
  | resume t call signalled made =>
    cases call with
    | accept l =>
      have opens (x : SocketRef) :
          0 < (s.leave t (.accept l)).refcount x ↔ 0 < s.refcount x := by
        have same : (s.leave t (.accept l)).refcount x + 0 = s.refcount x :=
          leave_refcount enabled.1 x
        omega
      obtain ⟨e,move,accepts⟩ := accept_move opens (t := t)
        (acceptPass_outcome (n := (s.leave t (.accept l)).net) t l made)
      rcases accepts_taken accepts takes with rfl | rfl
      · exact Or.inl move
      · exact Or.inr move
    | _ => cases takes
  | _ => cases takes

/- The step takes the request out of its queue. -/
def Takeover (s : NetRun) (a : NetAction) (r : RequestRef) : Prop :=
  s.view.fate r = none ∧ (netExec s a).view.fate r ≠ none

/- No older request waits in the queue of a listener when one is taken from it. -/
def InOrder (s : NetRun) (a : NetAction) : Prop :=
  ∀ r, Takeover s a r → ∀ l queue, s.view.type l = .listener queue → r ∈ queue →
    ∀ r' ∈ queue, r ≤ r'

/- The request that an Accept takes is the only one in its queue. -/
def SoleRequest (s : NetRun) (a : NetAction) : Prop :=
  ∀ r, s.Takes a r → ∀ l rest, s.view.type l = .listener (r :: rest) → rest = []

theorem taken_front {a : NetAction} {r : RequestRef} (enabled : NetEnabled s a)
    (taken : Takeover s a r) :
    s.Takes a r ∧ ∃ l rest, s.view.type l = .listener (r :: rest) := by
  obtain ⟨before,after⟩ := taken
  obtain ⟨e,move,explained⟩ := step_move enabled
  generalize (netExec s a).view = w at move after
  cases move with
  | refuse l r' rest queue =>
    have same : r = r' := by
      by_contra other
      exact after ((Function.update_of_ne other ..).trans before)
    exact ⟨same ▸ explained.1,l,rest,same ▸ queue⟩
  | honour l r' rest fcb queue legal =>
    have same : r = r' := by
      by_contra other
      exact after ((Function.update_of_ne other ..).trans before)
    obtain ⟨admits,_⟩ := explained
    refine ⟨?_,l,rest,same ▸ queue⟩
    subst same
    cases a with
    | accept t l made => cases made <;> [cases admits; exact admits]
    | resume t call signalled made =>
      cases call <;> cases made <;> first | exact admits | cases admits
    | _ => cases admits
  | _ => exact absurd before after

theorem takes_taken {a : NetAction} {r : RequestRef} (inv : ConnectInv s) (enabled : NetEnabled s a)
    (takes : s.Takes a r) {l : SocketRef} {rest : List RequestRef}
    (queue : s.view.type l = .listener (r :: rest)) : Takeover s a r := by
  refine ⟨inv.requests.pending l _ queue r List.mem_cons_self,?_⟩
  have taken := takes_move enabled inv.allocated takes
  generalize (netExec s a).view = w at taken
  intro none
  rcases taken with move | move
  · cases move with
    | refuse l' _ rest' queue' =>
      have settled : (s.view.refuse l' r rest').fate r = some .refused := Function.update_self ..
      cases settled.symm.trans none
  · cases move with
    | honour l' _ rest' fcb queue' legal =>
      have settled : (s.view.openNew (s.view.honour l' r rest' fcb)).fate r =
        some (.honoured s.view.nextSocket) := Function.update_self ..
      cases settled.symm.trans none

/-- In runs that do not touch what is not there, such as the node of a Connect that has returned, the
    requests are taken in the order of the Connects as long as no two of them wait for one listener
    when one is taken, and at no other step. -/
theorem requests_in_order {a : NetAction} (reach : intactSystem.Reach s)
    (intact : intactSystem.enabled s a) : InOrder s a ↔ SoleRequest s a := by
  obtain ⟨inv,sorted⟩ := inductive_reach orderInv_inductive (restrict_reach reach)
  have enabled := intact.1
  constructor
  · intro ordered r takes l rest queue
    have taken := takes_taken inv enabled takes queue
    have newest := (List.pairwise_cons.mp (sorted l _ queue)).1
    cases rest with
    | nil => rfl
    | cons r' rest =>
      have older := newest r' List.mem_cons_self
      have least := ordered r taken l _ queue List.mem_cons_self r'
        (List.mem_cons_of_mem r List.mem_cons_self)
      exact absurd older (Nat.not_lt.mpr least)
  · intro sole r taken l queue known member r' member'
    obtain ⟨takes,l',rest,front⟩ := taken_front enabled taken
    have same := inv.requests.single l l' _ _ known front r member List.mem_cons_self
    subst same
    cases known.symm.trans front
    rw [sole r takes l rest front, List.mem_singleton] at member'
    exact Nat.le_of_eq member'.symm

theorem requests_in_order_one_request : ∃ s, intactSystem.Reach s ∧
    SoleRequest s (.accept (1,2) 0 (some (2,2))) := by
  have reach := play_reach (m := intactSystem) ⟨fun _ => blankPipe,rfl⟩ oneRequest rfl
  refine ⟨_,reach,(requests_in_order reach (by decide)).mp ?_⟩
  intro r taken l queue known member r' member'
  obtain ⟨⟨_,_,front⟩,_⟩ := taken_front (by decide) taken
  have single : (SocketType.listener [0] : SocketType) = .listener (r :: _) := front
  cases single
  exact Nat.zero_le r'

/- Sockets 1 and 2 ask for a connection. -/
def twoRequests : List NetAction :=
  oneRequest ++ [.socket 0 (some (2,2)),.connect (1,2) 2 5]

/-- The second request is taken while the first one still waits. -/
theorem newest_taken_first : ∃ s, intactSystem.Reach s ∧
    intactSystem.enabled s (.accept (1,3) 0 (some (3,3))) ∧ Takeover s (.accept (1,3) 0 (some (3,3))) 1 ∧
    s.view.type 0 = .listener [1,0] ∧ ¬ InOrder s (.accept (1,3) 0 (some (3,3))) := by
  have reach := play_reach (m := intactSystem) ⟨fun _ => blankPipe,rfl⟩ twoRequests rfl
  refine ⟨_,reach,by decide,⟨by decide,by decide⟩,rfl,fun ordered => ?_⟩
  have least := ordered 1 ⟨by decide,by decide⟩ 0 [1,0] rfl (by decide) 0 (by decide)
  exact absurd least (by decide)

end Runs
end KernelSocket
