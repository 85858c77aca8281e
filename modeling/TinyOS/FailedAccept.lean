import TinyOS.AcceptWaits
import TinyOS.RequestOrder

/- An Accept that returns NOFILE: whether it has changed anything, and what becomes of the
   Connect whose request it had. -/
namespace KernelSocket
open KernelStreams KernelProc KernelPipe Monitor Transition

/- The listener that an Accept is called on, at its start or after a wait. -/
def NetAction.listener : NetAction → Option SocketRef
  | .accept _ l _ | .resume _ (.accept l) _ _ => some l
  | _ => none

/- The reference that a sleeping Accept holds, and gives up when it returns. -/
def NetAction.ownRef : NetAction → Int
  | .resume _ (.accept _) _ _ => 1
  | _ => 0

def NetAction.made : NetAction → Option (Fid × FcbRef)
  | .socket _ made | .accept _ _ made | .resume _ _ _ made => made
  | _ => none

/-- The queues, types and peers, the requests, the fids and the references are as they were. -/
structure Unmoved (s s' : NetRun) (l : SocketRef) (ownRef : Int) : Prop where
  types : ∀ x, (s'.net.sockets x).type = (s.net.sockets x).type
  requests : s'.net.requests = s.net.requests
  fids : s'.fids = s.fids
  refcounts : ∀ x, (s'.net.sockets x).refcount =
    (s.net.sockets x).refcount - if x = l then ownRef else 0

def FailsAtomically (s : NetRun) (a : NetAction) : Prop :=
  ∀ l, a.listener = some l → (netStep s a).1 = .returns (-1) [] →
    Unmoved s (netExec s a) l a.ownRef

/- If the Accept gets to a request, there is a file id for it. -/
def Granted (s : NetRun) (a : NetAction) : Prop := ∀ r, s.Takes a r → a.made ≠ none

section Runs
variable {s : NetRun}

theorem add_ref_entry (n : Net) (l x : SocketRef) (c : Int) :
    ((n.addRef l c).sockets x).type = (n.sockets x).type ∧
    ((n.addRef l c).sockets x).refcount = (n.sockets x).refcount + if x = l then c else 0 := by
  by_cases same : x = l
  · simp [Net.addRef, Net.setSocket, same]
  · simp [Net.addRef, Net.setSocket, same]

theorem queued_type {ty : SocketType} {queue : List RequestRef} {r : RequestRef}
    (queued : ty.queue = r :: queue) : ty = .listener (r :: queue) := by
  cases ty with
  | listener queue' => exact congrArg _ queued
  | _ => cases queued

/-- A pass of Accept that fails without a request. -/
theorem pass_unmoved {n : Net} {t : Thread} {l : SocketRef} {made : Option (Fid × FcbRef)}
    (granted : ∀ r rest, n.portMap (n.sockets l).port ≠ none →
      (n.sockets l).type.queue = r :: rest → made.isSome)
    (legal : (n.sockets l).type.IsListener →
      0 ≤ (n.sockets l).port ∧ (n.sockets l).port ≤ maxPort)
    (failed : (acceptPass n t l made).1 = .returns (-1) []) :
    (∀ x, ((acceptPass n t l made).2.sockets x).type = (n.sockets x).type ∧
      ((acceptPass n t l made).2.sockets x).refcount =
        (n.sockets x).refcount - if x = l then 1 else 0) ∧
    (acceptPass n t l made).2.requests = n.requests ∧
    (acceptPass n t l made).2.nextSocket = n.nextSocket := by
  have outcome := acceptPass_outcome (n := n) (o := fun _ => True) t l made
  have sockets : (n.useSocket l).sockets = n.sockets := rfl
  cases mapped : n.portMap (n.sockets l).port with
  | none =>
    have run : acceptPass n t l made = (.returns (-1) [],
        (((n.useSocket l).note (¬ (n.sockets l).type.IsListener) (.notListener l)).usePort
          (n.sockets l).port).addRef l (-1)) := by
      simp only [acceptPass, sockets]
      split
      · rfl
      · rename_i other _
        cases mapped.symm.trans other
      · rename_i other _
        cases mapped.symm.trans other
    rw [run]
    refine ⟨fun x => ?_,rfl,rfl⟩
    obtain ⟨type,count⟩ := add_ref_entry (((n.useSocket l).note (¬ (n.sockets l).type.IsListener)
      (.notListener l)).usePort (n.sockets l).port) l x (-1)
    refine ⟨type,count.trans ?_⟩
    change (n.sockets x).refcount + _ = _
    split <;> omega
  | some l' =>
    exfalso
    rw [failed] at outcome
    generalize (acceptPass n t l made).2.view (fun _ => True) = w at outcome
    cases outcome with
    | closed unmapped => cases mapped.symm.trans unmapped
    | refused r rest mapped' queue no =>
      have known : (n.sockets l).type = .listener (r :: rest) := queue
      have some' := granted r rest mapped' (by rw [known]; rfl)
      rcases no with none | illegal
      · rw [none] at some'
        cases some'
      · exact absurd (legal ⟨_,queue⟩) illegal

/-- An Accept that has taken a request leaves another queue. -/
theorem taken_touches {a : NetAction} {r : RequestRef} {l : SocketRef} {ownRef : Int}
    (inv : ConnectInv s) (enabled : NetEnabled s a) (takes : s.Takes a r) :
    ¬ Unmoved s (netExec s a) l ownRef := by
  intro unmoved
  obtain ⟨l',rest,queue⟩ : ∃ l rest, s.view.type l = .listener (r :: rest) := by
    cases a with
    | accept t l made => exact ⟨l,takes.2⟩
    | resume t call signalled made =>
      cases call with
      | accept l => exact ⟨l,takes.2⟩
      | _ => cases takes
    | _ => cases takes
  have pending : s.view.admitted r = false := by
    have asked := inv.allocated.queues l' _ queue r List.mem_cons_self
    have none := inv.requests.pending l' _ queue r List.mem_cons_self
    by_contra yes
    exact (inv.requests.admitted r asked).mp (Bool.not_eq_false _ ▸ yes) none
  have same : (netExec s a).view.admitted r = s.view.admitted r := by
    change ((netExec s a).net.requests r).admitted = _
    rw [unmoved.requests]
    rfl
  have taken := takes_move enabled inv.allocated takes
  generalize (netExec s a).view = w at taken same
  rw [pending] at same
  rcases taken with move | move
  · cases move with
    | refuse l' _ rest' queue' =>
      have yes : (s.view.refuse l' r rest').admitted r = true := Function.update_self ..
      cases yes.symm.trans same
  · cases move with
    | honour l' _ rest' fcb queue' legal =>
      have yes : (s.view.openNew (s.view.honour l' r rest' fcb)).admitted r = true :=
        Function.update_self ..
      cases yes.symm.trans same

theorem granted_atomic {a : NetAction} (inv : ConnectInv s) (enabled : NetEnabled s a)
    (granted : Granted s a) : FailsAtomically s a := by
  intro l on failed
  cases a with
  | accept t l' made =>
    cases on
    have sockets : (s.net.useSocket l).sockets = s.net.sockets := rfl
    have cond : ∀ r rest, s.net.portMap (s.net.sockets l).port ≠ none →
        (s.net.sockets l).type.queue = r :: rest → made.isSome := by
      intro r rest mapped queue
      exact Option.isSome_iff_ne_none.mpr (granted r ⟨mapped,rest,queued_type queue⟩)
    change (sysAccept s.net t l made).1 = _ at failed
    have done : (∀ x, ((sysAccept s.net t l made).2.sockets x).type = (s.net.sockets x).type ∧
          ((sysAccept s.net t l made).2.sockets x).refcount = (s.net.sockets x).refcount) ∧
        (sysAccept s.net t l made).2.requests = s.net.requests ∧
        (sysAccept s.net t l made).2.nextSocket = s.net.nextSocket := by
      simp only [sysAccept, sockets] at failed ⊢
      split
      · exact ⟨fun x => ⟨rfl,rfl⟩,rfl,rfl⟩
      · rename_i legal
        split
        · exact ⟨fun x => ⟨rfl,rfl⟩,rfl,rfl⟩
        · rename_i listens
          rw [if_neg legal, if_neg listens] at failed
          have entry := fun x => add_ref_entry (s.net.useSocket l) l x 1
          have port : (((s.net.useSocket l).addRef l 1).sockets l).port = (s.net.sockets l).port := by
            simp [Net.addRef, Net.setSocket, sockets]
          obtain ⟨same,requests,next⟩ := pass_unmoved (n := (s.net.useSocket l).addRef l 1)
            (by rw [port, (entry l).1]; exact cond) (by rw [port]; omega) failed
          refine ⟨fun x => ?_,requests,next⟩
          refine ⟨(same x).1.trans (entry x).1,(same x).2.trans ?_⟩
          rw [(entry x).2, sockets]
          split <;> omega
    have net : (netExec s (.accept t l made)).net = (sysAccept s.net t l made).2 := by
      simp only [netExec, netStep, adopt_net, record_net]
    have fids : (netExec s (.accept t l made)).fids = s.fids := by
      simp only [netExec, netStep]
      rw [adopt_same (by rw [record_net]; exact done.2.2)]
      cases (sysAccept s.net t l made).1 <;> rfl
    refine ⟨fun x => net ▸ (done.1 x).1,net ▸ done.2.1,fids,fun x => ?_⟩
    rw [net, (done.1 x).2]
    simp [NetAction.ownRef]
  | resume t call signalled made =>
    cases call with
    | accept l' =>
      cases on
      have cond : ∀ r rest, s.net.portMap (s.net.sockets l).port ≠ none →
          (s.net.sockets l).type.queue = r :: rest → made.isSome := by
        intro r rest mapped queue
        exact Option.isSome_iff_ne_none.mpr (granted r ⟨mapped,rest,queued_type queue⟩)
      have legal (listens : (s.net.sockets l).type.IsListener) :
          0 ≤ (s.net.sockets l).port ∧ (s.net.sockets l).port ≤ maxPort :=
        (listener_ports inv.allocated l listens).1
      obtain ⟨same,requests,next⟩ := pass_unmoved (n := (s.leave t (.accept l)).net) cond legal
        failed
      have net : (netExec s (.resume t (.accept l) signalled made)).net =
          (acceptPass (s.leave t (.accept l)).net t l made).2 := by
        simp only [netExec, netStep, callPass, adopt_net, record_net]
      have fids : (netExec s (.resume t (.accept l) signalled made)).fids = s.fids := by
        simp only [netExec, netStep, callPass]
        rw [adopt_same (by rw [record_net]; exact next)]
        cases (acceptPass (s.leave t (.accept l)).net t l made).1 <;> rfl
      refine ⟨fun x => net ▸ (same x).1,net ▸ requests,fids,fun x => ?_⟩
      rw [net]
      exact (same x).2
    | _ => cases on
  | _ => cases on

/-- An Accept that takes a request and finds no file id for it returns NOFILE. -/
theorem ungranted_fails {a : NetAction} {r : RequestRef} (inv : ConnectInv s)
    (enabled : NetEnabled s a) (takes : s.Takes a r) (no : a.made = none) :
    (netStep s a).1 = .returns (-1) [] ∧ ∃ l, a.listener = some l := by
  have on : ∃ l rest, a.listener = some l ∧ s.view.type l = .listener (r :: rest) := by
    cases a with
    | accept t l made => exact ⟨l,takes.2.choose,rfl,takes.2.choose_spec⟩
    | resume t call signalled made =>
      cases call with
      | accept l => exact ⟨l,takes.2.choose,rfl,takes.2.choose_spec⟩
      | _ => cases takes
    | _ => cases takes
  obtain ⟨l,rest,listener,queue⟩ := on
  refine ⟨?_,l,listener⟩
  obtain ⟨before,after⟩ := takes_taken inv enabled takes queue
  obtain ⟨e,move,explained⟩ := step_move enabled
  generalize (netExec s a).view = w at move after
  cases move with
  | refuse l' r' rest' queue' => exact explained.2
  | honour l' r' rest' fcb queue' legal =>
    obtain ⟨admits,_⟩ := explained
    cases a with
    | accept t l made =>
      cases no
      cases admits
    | resume t call signalled made =>
      cases no
      cases call <;> cases admits
    | _ => cases admits
  | _ => exact absurd before after

/- With a file id the request that is taken is honoured. -/
theorem granted_honours {a : NetAction} {r : RequestRef} (ok : Allocated s.view)
    (enabled : NetEnabled s a) (takes : s.Takes a r) (file : a.made ≠ none) :
    ∃ b, (netExec s a).view.fate r = some (.honoured b) := by
  have admits : s.Admits a r := by
    cases a with
    | accept t l made => cases made <;> [exact absurd rfl file; exact takes]
    | resume t call signalled made =>
      cases call <;> cases made <;> first | exact takes | exact absurd rfl file
    | _ => cases takes
  have move := admits_move enabled (listener_ports ok) admits
  generalize (netExec s a).view = w at move
  cases move with
  | honour l _ rest fcb queue legal => exact ⟨_,Function.update_self ..⟩

/-- In a run in which each Accept finds a file id, no request has been taken in vain. -/
theorem granted_fates {u : NetRun} (reach : (netSystem.restrict Granted).Reach u) :
    ∀ r, u.view.fate r ≠ some .refused := by
  have kept : (netSystem.restrict Granted).Inductive fun s =>
      Allocated s.view ∧ ∀ r, s.view.fate r ≠ some .refused := by
    constructor
    · rintro s ⟨memory,rfl⟩
      refine ⟨boot_allocated memory,fun r refused => ?_⟩
      cases refused
    · rintro s a s' ⟨ok,fates⟩ ⟨⟨enabled,granted⟩,run⟩
      cases run
      obtain ⟨e,move,explained⟩ := step_move enabled
      refine ⟨move_allocated ok move,fun r refused => ?_⟩
      have honours := fun r takes => granted_honours (r := r) ok enabled takes (granted r takes)
      generalize (netExec s a).view = w at move refused honours
      cases move with
      | refuse l r' rest queue =>
        obtain ⟨b,honoured⟩ := honours r' explained.1
        have lost : (s.view.refuse l r' rest).fate r' = some .refused := Function.update_self ..
        cases lost.symm.trans honoured
      | honour l r' rest fcb queue legal =>
        by_cases same : r = r'
        · have won : (s.view.openNew (s.view.honour l r' rest fcb)).fate r =
              some (.honoured s.view.nextSocket) := same ▸ Function.update_self ..
          cases won.symm.trans refused
        · exact fates r ((Function.update_of_ne same ..).symm.trans refused)
      | _ => exact fates r refused
  exact (inductive_reach kept reach).2

/-- In runs that do not touch what is not there, such as the node of a Connect that has returned, a
    failing Accept changes nothing as long as there is a file id for each request that it takes, and
    at no other step; and then a Connect that nobody has accepted fails. -/
theorem failed_accept_atomic (reach : intactSystem.Reach s) :
    (∀ a, intactSystem.enabled s a → (FailsAtomically s a ↔ Granted s a)) ∧
    ((intactSystem.restrict Granted).Reach s → ∀ t a l r signalled made,
      intactSystem.enabled s (.resume t (.connect a l r) signalled made) →
      (∀ b, s.view.fate r ≠ some (.honoured b)) →
      (netStep s (.resume t (.connect a l r) signalled made)).1 = .returns (-1) []) := by
  have inv := inductive_reach connectInv_inductive (restrict_reach reach)
  refine ⟨fun a ⟨enabled,_⟩ => ⟨fun atomic r takes no => ?_,granted_atomic inv enabled⟩,?_⟩
  · obtain ⟨failed,l,on⟩ := ungranted_fails inv enabled takes no
    exact taken_touches inv enabled takes (atomic l on failed)
  · rintro granted t a l r signalled made ⟨enabled,_⟩ unaccepted
    have asks := inv.asks t a l r enabled.1
    have pending : s.view.fate r = none := by
      cases fate : s.view.fate r with
      | none => rfl
      | some f =>
        cases f with
        | refused => exact absurd fate (granted_fates (restrict_inner granted) r)
        | honoured b => exact absurd fate (unaccepted b)
    have waiting : s.view.admitted r ≠ true := fun yes =>
      (inv.requests.admitted r asks.made).mp yes pending
    rw [connect_reply, if_neg (fun ok => waiting ok.2)]

/- The request is there, and the Accept finds no file id; then a second Connect on the listener
   wakes the first. -/
def takenInVain : List NetAction :=
  oneRequest ++ [.accept (1,2) 0 none,.socket 0 (some (2,2)),.connect (1,3) 2 5]

theorem failed_accept_atomic_granted : ∃ s, intactSystem.Reach s ∧
    intactSystem.enabled s (.accept (1,2) 0 (some (2,2))) ∧ Granted s (.accept (1,2) 0 (some (2,2))) ∧
    FailsAtomically s (.accept (1,2) 0 (some (2,2))) := by
  have reach := play_reach (m := intactSystem) ⟨fun _ => blankPipe,rfl⟩ oneRequest rfl
  have file : (NetAction.accept (1,2) 0 (some (2,2))).made ≠ none := by decide
  exact ⟨_,reach,by decide,fun _ _ => file,
    ((failed_accept_atomic reach).1 _ (by decide)).mpr fun _ _ => file⟩

/-- The request has left the queue, marked as admitted, and its Connect returns 0. -/
theorem failed_accept_keeps_request :
    (∃ s, intactSystem.Reach s ∧ intactSystem.enabled s (.accept (1,2) 0 none) ∧
      ¬ FailsAtomically s (.accept (1,2) 0 none)) ∧
    ∃ s, intactSystem.Reach s ∧ intactSystem.enabled s (.resume (1,1) (.connect 1 0 0) true none) ∧
      s.view.fate 0 = some .refused ∧
      (netStep s (.resume (1,1) (.connect 1 0 0) true none)).1 = .returns 0 [] := by
  constructor
  · have reach := play_reach (m := intactSystem) ⟨fun _ => blankPipe,rfl⟩ oneRequest rfl
    refine ⟨_,reach,by decide,fun atomic => ?_⟩
    have same := (atomic 0 rfl rfl).types 0
    cases same
  · have reach := play_reach (m := intactSystem) ⟨fun _ => blankPipe,rfl⟩ takenInVain rfl
    exact ⟨_,reach,by decide,rfl,rfl⟩

end Runs
end KernelSocket
