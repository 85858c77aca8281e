import TinyOS.PipeEvents
import TinyOS.SocketTables

/- Two sockets that an Accept has connected, and the two pipes between them. -/
namespace KernelSocket
open KernelStreams KernelProc KernelPipe Monitor Transition

/- A pipe not handed out yet is untouched, and so is a socket that is no peer yet. -/
structure Untouched (s : NetRun) : Prop where
  allocated : Allocated s.view
  pipes : ∀ q, s.net.nextPipe ≤ q →
    s.net.pipeFrees q = 0 ∧ s.net.faults.count (.freedPipe q) = 0
  calls : ∀ t x q c, (t,NetCall.io x q c) ∈ s.calls → q < s.net.nextPipe ∧ s.view.type x ≠ .unbound
  silent : ∀ x, s.view.type x = .unbound → s.net.received x = [] ∧ s.net.sent x = []

theorem move_nextPipe {v w : View} {e : Event} (move : Move v e w) : v.nextPipe ≤ w.nextPipe := by
  cases move with
  | honour l r rest fcb queue legal => exact Nat.le_add_right _ 2
  | _ => exact Nat.le_refl _

theorem move_bound {v w : View} {e : Event} (ok : Allocated v) (move : Move v e w) {x : SocketRef}
    (bound : v.type x ≠ .unbound) : w.type x ≠ .unbound := by
  have fresh := ok.fresh
  cases move with
  | socket port fcb legal =>
    simp only [View.openNew, View.withOpen, View.addSocket]
    grind
  | listen a opens unbound port free =>
    simp only [View.listen, View.setType]
    grind
  | enqueue a l port opens unbound mapped listens =>
    simp only [View.enqueue, View.setType]
    grind
  | refuse l r rest queue =>
    simp only [View.refuse, View.takeRequest, View.setFate, View.setType]
    grind
  | honour l r rest fcb queue legal =>
    simp only [View.openNew, View.withOpen, View.honour, View.takeRequest, View.setFate, View.setType,
      View.addSocket, View.connectPeers]
    grind
  | _ => exact bound

section Pipes
variable {n : Net}

/- From r on no pipe has been made, or two, between two sockets that have become peers. -/
def Net.MakesPipes (n : Net) (r : PipeRef) : Prop :=
  n.nextPipe = r ∨
  ∃ a b m m', (n.sockets a).type ≠ .unbound ∧ (n.sockets b).type ≠ .unbound ∧
    n.pipes r = acquirePipeCB (n.sockets a).fcb (n.sockets b).fcb m ∧
    n.pipes (r + 1) = acquirePipeCB (n.sockets b).fcb (n.sockets a).fcb m'

theorem makesPipes_congr {n' : Net} {r : PipeRef} (makes : n.MakesPipes r)
    (next : n'.nextPipe = n.nextPipe) (pipes : n'.pipes = n.pipes)
    (same : ∀ x, (n'.sockets x).type = (n.sockets x).type ∧ (n'.sockets x).fcb = (n.sockets x).fcb) :
    n'.MakesPipes r := by
  rcases makes with none | ⟨a,b,m,m',made⟩
  · exact Or.inl (next.trans none)
  · refine Or.inr ⟨a,b,m,m',?_⟩
    rw [(same a).1, (same b).1, (same a).2, (same b).2, pipes]
    exact made

theorem addRef_same (a x : SocketRef) (c : Int) :
    ((n.addRef a c).sockets x).type = (n.sockets x).type ∧
      ((n.addRef a c).sockets x).fcb = (n.sockets x).fcb := by
  by_cases same : x = a <;> simp [Net.addRef, Net.setSocket, same]

theorem setType_fcb (a x : SocketRef) (ty : SocketType) :
    ((n.setType a ty).sockets x).fcb = (n.sockets x).fcb := by
  by_cases same : x = a <;> simp [Net.setType, Net.setSocket, same]

theorem connectPeers_makes (a b : SocketRef) : (connectPeers n a b).MakesPipes n.nextPipe := by
  have fcb (x : SocketRef) : ((connectPeers n a b).sockets x).fcb = (n.sockets x).fcb := by
    simp only [connectPeers, setType_fcb]
    rfl
  refine Or.inr ⟨a,b,(n.pipes n.nextPipe).BUFFER,(n.pipes (n.nextPipe + 1)).BUFFER,?_,?_,?_,?_⟩
  · by_cases same : a = b <;> simp [connectPeers, Net.newPipe, Net.setType, Net.setSocket, same]
  · simp [connectPeers, Net.newPipe, Net.setType, Net.setSocket]
  · rw [fcb, fcb]
    simp [connectPeers, Net.newPipe, Net.setType, Net.setSocket]
  · rw [fcb, fcb]
    simp [connectPeers, Net.newPipe, Net.setType, Net.setSocket]

theorem acceptRequest_makes (l : SocketRef) (r : RequestRef) (rest : List RequestRef)
    (made : Option (Fid × FcbRef)) : (acceptRequest n l r rest made).2.MakesPipes n.nextPipe := by
  have same : (sysSocket (popRequest n l r rest) (n.sockets l).port made).2.nextPipe =
      n.nextPipe := sysSocket_nextPipe _ made
  rcases acceptRequest_cases n l r rest made with
    ⟨net',result,accepted⟩ | ⟨fid,net',result,accepted⟩
  · rw [result] at same
    rw [accepted]
    exact Or.inl same
  · have peers := connectPeers_makes (n := net'.useSocket (n.requests r).peer) (n.requests r).peer
      n.nextSocket
    rw [result] at same
    rw [accepted]
    exact same ▸ makesPipes_congr peers rfl rfl fun x => addRef_same l x (-1)

theorem acceptPass_makes (t : Thread) (l : SocketRef) (made : Option (Fid × FcbRef)) :
    (acceptPass n t l made).2.MakesPipes n.nextPipe := by
  simp only [acceptPass]
  split
  · exact Or.inl rfl
  · exact Or.inl rfl
  · exact acceptRequest_makes (n := ((n.useSocket l).note (¬ (n.sockets l).type.IsListener)
      (.notListener l)).usePort (n.sockets l).port) l _ _ made

theorem sysAccept_makes (t : Thread) (l : SocketRef) (made : Option (Fid × FcbRef)) :
    (sysAccept n t l made).2.MakesPipes n.nextPipe := by
  simp only [sysAccept]
  split
  · exact Or.inl rfl
  · split
    · exact Or.inl rfl
    · exact acceptPass_makes (n := (n.useSocket l).addRef l 1) t l made

end Pipes

section Steps
variable {s : NetRun}

theorem socketTransfer_pipe {n : Net} {t : Thread} {a : SocketRef} {c : Call} {call : NetCall}
    (asleep : (socketTransfer n t a c).1 = .sleeps call) :
    ∃ link, (n.sockets a).type = .peer link ∧ call = .io a (link.pipe c) c := by
  have sockets : (n.useSocket a).sockets = n.sockets := rfl
  simp only [socketTransfer, sockets] at asleep
  split at asleep
  · cases asleep
  · cases asleep
  · rename_i link known
    exact ⟨link,known,endTransfer_sleeps asleep⟩

/- A Read or Write falls asleep on the pipe of its socket, or goes back to sleep. -/
theorem transfer_sleeps {a : NetAction} {x : SocketRef} {q : PipeRef} {c : Call}
    (asleep : (netStep s a).1 = .sleeps (.io x q c)) :
    (∃ link, s.view.type x = .peer link ∧ q = link.pipe c ∧ ∃ t, a = .io t x c) ∨
    ∃ t signalled made, a = .resume t (.io x q c) signalled made := by
  cases a with
  | connect t y port =>
    rcases sysConnect_view (n := s.net) (o := fun _ => True) t y port with
      ⟨failed,_⟩ | ⟨l,_,_,_,_,waits,_⟩
    · cases failed.symm.trans asleep
    · cases waits.symm.trans asleep
  | accept t l made =>
    rcases sysAccept_outcome (n := s.net) (o := fun _ => True) t l made with
      ⟨_,failed,_⟩ | ⟨_,_,outcome⟩
    · cases failed.symm.trans asleep
    · cases accept_sleeps outcome asleep
  | io t y c' =>
    obtain ⟨link,known,same⟩ := socketTransfer_pipe asleep
    cases same
    exact Or.inl ⟨link,known,rfl,t,rfl⟩
  | resume t call signalled made =>
    cases call with
    | connect y l r => exact absurd asleep (connectPass_returns _)
    | accept l => cases accept_sleeps (acceptPass_outcome (o := fun _ => True) t l made) asleep
    | io y r c' =>
      cases endTransfer_sleeps asleep
      exact Or.inr ⟨t,signalled,made,rfl⟩
  | _ => cases asleep

theorem closeEvents_nil {q : PipeRef} {ty : SocketType}
    (unused : ∀ link, ty = .peer link → link.readPipe ≠ q ∧ link.writePipe ≠ q) :
    ty.closeEvents q = [] := by
  cases ty with
  | peer link =>
    obtain ⟨read,write⟩ := unused link rfl
    simp [SocketType.closeEvents, read, write]
  | _ => rfl

/- A step that has nothing to do with the pipe q. -/
theorem pipeEvents_nil {q : PipeRef} {a : NetAction} (enabled : NetEnabled s a)
    (unused : ∀ x link, s.view.type x = .peer link → link.readPipe ≠ q ∧ link.writePipe ≠ q)
    (calls : ∀ t x r c, (t,NetCall.io x r c) ∈ s.calls → r ≠ q) : s.pipeEvents q a = [] := by
  have closes (x : SocketRef) : (s.net.sockets x).type.closeEvents q = [] :=
    closeEvents_nil (unused x)
  cases a with
  | io t x c =>
    simp only [NetRun.pipeEvents]
    split
    · rename_i link known
      obtain ⟨read,write⟩ := unused x link known
      cases c <;> simp [PeerSocket.pipe, read, write]
    · rfl
  | shutDown x how =>
    simp only [NetRun.pipeEvents]
    split
    · rename_i link known
      obtain ⟨read,write⟩ := unused x link known
      cases how <;> simp [ShutdownMode.events, read, write]
    · rfl
  | close x => simp [NetRun.pipeEvents, closes]
  | resume t call signalled made =>
    cases call with
    | io x r c => simp [NetRun.pipeEvents, closes, calls t x r c enabled.1]
    | _ => rfl
  | _ => rfl

theorem step_untouched {a : NetAction} (ok : Untouched s) (enabled : NetEnabled s a) :
    Untouched (netExec s a) := by
  obtain ⟨e,move,_⟩ := step_move enabled
  have next : s.net.nextPipe ≤ (netExec s a).net.nextPipe := move_nextPipe move
  refine ⟨move_allocated ok.allocated move,?_,?_,?_⟩
  · intro q beyond
    have later : s.net.nextPipe ≤ q := Nat.le_trans next beyond
    have none : s.pipeEvents q a = [] := by
      apply pipeEvents_nil enabled
      · intro x link known
        obtain ⟨_,read,write⟩ := ok.allocated.peers x link known
        exact ⟨Nat.ne_of_lt (Nat.lt_of_lt_of_le read later),
          Nat.ne_of_lt (Nat.lt_of_lt_of_le write later)⟩
      · intro t x r c asleep
        exact Nat.ne_of_lt (Nat.lt_of_lt_of_le (ok.calls t x r c asleep).1 later)
    obtain ⟨p,renewed,_⟩ := step_renews (q := q) (x := 0) enabled
    rw [none] at renewed
    have frees := congrArg Flow.frees renewed
    have faults := congrArg Flow.faults renewed
    have before := ok.pipes q later
    exact ⟨frees.trans before.1,faults.trans before.2⟩
  · intro t x q c asleep
    rcases step_calls asleep with old | new
    · obtain ⟨inside,bound⟩ := ok.calls t x q c old
      exact ⟨Nat.lt_of_lt_of_le inside next,move_bound ok.allocated move bound⟩
    · rcases transfer_sleeps new with ⟨link,known,rfl,_⟩ | ⟨t',signalled,made,rfl⟩
      · obtain ⟨_,read,write⟩ := ok.allocated.peers x link known
        refine ⟨Nat.lt_of_lt_of_le ?_ next,move_bound ok.allocated move (by rw [known]; simp)⟩
        cases c with
        | read n => exact read
        | write buf => exact write
      · obtain ⟨inside,bound⟩ := ok.calls t' x q c enabled.1
        exact ⟨Nat.lt_of_lt_of_le inside next,move_bound ok.allocated move bound⟩
  · intro x unbound
    have before : s.view.type x = .unbound := by
      by_contra bound
      exact move_bound ok.allocated move bound unbound
    have still : s.moved x a = ([],[]) := by
      cases a with
      | io t y c =>
        simp only [NetRun.moved]
        split
        · rename_i link known
          have apart : y ≠ x := by
            rintro rfl
            cases before.symm.trans known
          simp [transferOf, apart]
        · rfl
      | resume t call signalled made =>
        cases call with
        | io y r c =>
          have apart : y ≠ x := by
            rintro rfl
            exact (ok.calls t y r c enabled.1).2 before
          simp [NetRun.moved, transferOf, apart]
        | _ => rfl
      | _ => rfl
    obtain ⟨received,sent⟩ := step_moved enabled x
    rw [still] at received sent
    obtain ⟨received',sent'⟩ := ok.silent x before
    exact ⟨by rw [received, received']; rfl,by rw [sent, sent']; rfl⟩

theorem untouched_inductive : netSystem.Inductive Untouched := by
  constructor
  · rintro s ⟨memory,rfl⟩
    refine ⟨boot_allocated memory,fun q _ => ⟨rfl,rfl⟩,by simp [bootNet],fun x _ => ⟨rfl,rfl⟩⟩
  · rintro s a s' ok ⟨enabled,run⟩
    cases run
    exact step_untouched ok enabled

end Steps

/- An Accept is about to make the new socket b the peer of a, with the pipes r and r + 1. -/
structure NetRun.Connects (s : NetRun) (act : NetAction) (a b : SocketRef) (r : PipeRef) : Prop where
  enabled : NetEnabled s act
  admits : ∃ q, s.Admits act q ∧ s.view.owner q = a
  made : s.net.nextSocket = b
  pipe : s.net.nextPipe = r

/- The two are each other's peers, and their pipes nobody else's; b has asked for no connection. -/
structure View.Joined (v : View) (a b : SocketRef) (r : PipeRef) : Prop where
  left : v.type a = .peer { peer := b, readPipe := r, writePipe := r + 1 }
  right : v.type b = .peer { peer := a, readPipe := r + 1, writePipe := r }
  others : ∀ x link, x ≠ a → x ≠ b → v.type x = .peer link →
    (link.readPipe ≠ r ∧ link.readPipe ≠ r + 1) ∧ (link.writePipe ≠ r ∧ link.writePipe ≠ r + 1)
  owners : ∀ q, q < v.nextRequest → v.owner q ≠ b

theorem honour_joined {v w : View} {q : RequestRef} (ok : Allocated v)
    (move : Move v (.honoured q) w) : w.Joined (v.owner q) v.nextSocket v.nextPipe := by
  have peers := ok.peers
  have owners := ok.owners
  cases move with
  | honour l q rest fcb queue legal =>
    have asked := ok.queues l _ queue q (by simp)
    have owner := owners q asked
    constructor <;> simp only [View.openNew, View.withOpen, View.honour, View.takeRequest,
      View.setFate, View.setType, View.addSocket, View.connectPeers] <;> grind

theorem move_joined {v w : View} {e : Event} {a b : SocketRef} {r : PipeRef} (ok : Allocated v)
    (joined : v.Joined a b r) (move : Move v e w)
    (alone : ∀ q, e = .honoured q → v.owner q ≠ a) : w.Joined a b r := by
  have fresh := ok.fresh
  have peers := ok.peers
  have queues := ok.queues
  obtain ⟨left,right,others,owners⟩ := joined
  cases move with
  | quiet => exact ⟨left,right,others,owners⟩
  | socket port fcb legal =>
    constructor <;> simp only [View.openNew, View.withOpen, View.addSocket] <;> grind
  | listen x opens unbound bound free =>
    constructor <;> simp only [View.listen, View.setType] <;> grind
  | enqueue x l port opens unbound mapped listens =>
    obtain ⟨queue,known⟩ := listens
    constructor <;> simp only [View.enqueue, View.setType] <;> grind
  | refuse l q rest queue =>
    constructor <;> simp only [View.refuse, View.takeRequest, View.setFate, View.setType] <;> grind
  | honour l q rest fcb queue legal =>
    have asked := queues l _ queue q (by simp)
    have stranger := owners q asked
    have other := alone q rfl
    have inside := (peers a _ left).2.2
    constructor <;> simp only [View.openNew, View.withOpen, View.honour, View.takeRequest,
      View.setFate, View.setType, View.addSocket, View.connectPeers] <;> grind
  | close x opens => exact ⟨left,right,others,owners⟩

/- The state of a connection. -/
structure Wired (s : NetRun) (a b : SocketRef) (r : PipeRef) : Prop where
  untouched : Untouched s
  joined : s.view.Joined a b r
  calls : ∀ t x q c, (t,NetCall.io x q c) ∈ s.calls → q = r ∨ q = r + 1 →
    ∃ link, s.view.type x = .peer link ∧ q = link.pipe c

/- No Accept honours another request of the socket. -/
def SingleRequest (a : SocketRef) (s : NetRun) (act : NetAction) : Prop :=
  ∀ q, s.Admits act q → s.view.owner q ≠ a

section Wiring
variable {s : NetRun} {a b : SocketRef} {r : PipeRef}

theorem older_pipe {q r : Nat} (older : q < r) : ¬ (q = r ∨ q = r + 1) := by
  omega

/- Only the two sockets have to do with the pipes. -/
theorem joined_ends {v : View} (joined : v.Joined a b r) {x : SocketRef} {link : PeerSocket}
    (known : v.type x = .peer link) {c : Call} (here : link.pipe c = r ∨ link.pipe c = r + 1) :
    x = a ∨ x = b := by
  by_contra other
  obtain ⟨first,second⟩ := not_or.mp other
  obtain ⟨read,write⟩ := joined.others x link first second known
  cases c with
  | read n => exact here.elim read.1 read.2
  | write buf => exact here.elim write.1 write.2

theorem admits_accepts {act : NetAction} {q : RequestRef} (admits : s.Admits act q) :
    (∃ t l made, act = .accept t l made) ∨
    ∃ t l signalled made, act = .resume t (.accept l) signalled made := by
  cases act with
  | accept t l made => exact Or.inl ⟨t,l,made,rfl⟩
  | resume t call signalled made =>
    cases call with
    | accept l => exact Or.inr ⟨t,l,signalled,made,rfl⟩
    | _ => cases made <;> cases admits
  | _ => cases admits

/- The pipes of a new connection are empty and open at both ends. -/
theorem connects_pipes (ok : Untouched s) {act : NetAction} (connects : s.Connects act a b r) :
    (∃ reader writer m, (netExec s act).net.pipes r = acquirePipeCB (some reader) (some writer) m) ∧
    ∃ reader writer m,
      (netExec s act).net.pipes (r + 1) = acquirePipeCB (some reader) (some writer) m := by
  obtain ⟨enabled,⟨q,admits,rfl⟩,rfl,rfl⟩ := connects
  have move := admits_move enabled (listener_ports ok.allocated) admits
  have allocated := move_allocated ok.allocated move
  have next : (netExec s act).view.nextPipe = s.view.nextPipe + 2 := by
    generalize (netExec s act).view = w at move ⊢
    cases move
    rfl
  have makes : (netExec s act).net.MakesPipes s.net.nextPipe := by
    rcases admits_accepts admits with ⟨t,l,made,rfl⟩ | ⟨t,l,signalled,made,rfl⟩
    · simp only [netExec, netStep, adopt_net, record_net]
      exact sysAccept_makes t l made
    · simp only [netExec, netStep, adopt_net, record_net]
      exact acceptPass_makes (n := (s.leave t (.accept l)).net) t l made
  rcases makes with same | ⟨a,b,m,m',boundA,boundB,first,second⟩
  · have none : s.view.nextPipe + 2 = s.view.nextPipe := next.symm.trans same
    exact absurd none (Nat.ne_of_gt (Nat.lt_add_of_pos_right Nat.two_pos))
  · have fcb (x : SocketRef) (bound : ((netExec s act).net.sockets x).type ≠ .unbound) :
        ∃ f, ((netExec s act).net.sockets x).fcb = some f := by
      have inside : x < (netExec s act).view.nextSocket := by
        by_contra beyond
        exact bound (allocated.fresh x (Nat.le_of_not_lt beyond))
      exact Option.ne_none_iff_exists'.mp (allocated.fcbs x inside)
    obtain ⟨f,left⟩ := fcb a boundA
    obtain ⟨g,right⟩ := fcb b boundB
    rw [left, right] at first second
    exact ⟨⟨f,g,m,first⟩,⟨g,f,m',second⟩⟩

theorem connects_wired (ok : Untouched s) {act : NetAction} (connects : s.Connects act a b r) :
    Wired (netExec s act) a b r := by
  obtain ⟨enabled,⟨q,admits,rfl⟩,rfl,rfl⟩ := connects
  have move := admits_move enabled (listener_ports ok.allocated) admits
  refine ⟨step_untouched ok enabled,honour_joined ok.allocated move,?_⟩
  intro t x q' c asleep here
  rcases step_calls asleep with old | new
  · exact absurd here (older_pipe (ok.calls t x q' c old).1)
  · rcases transfer_sleeps new with ⟨link,known,rfl,_⟩ | ⟨t',signalled,made,rfl⟩
    · obtain ⟨_,read,write⟩ := ok.allocated.peers x link known
      cases c with
      | read n => exact absurd here (older_pipe read)
      | write buf => exact absurd here (older_pipe write)
    · cases made <;> cases admits

theorem step_wired {act : NetAction} (wired : Wired s a b r) (enabled : NetEnabled s act)
    (single : SingleRequest a s act) : Wired (netExec s act) a b r := by
  obtain ⟨e,move,explained⟩ := step_move enabled
  have alone (q : RequestRef) (same : e = .honoured q) : s.view.owner q ≠ a := by
    subst same
    exact single q explained.1
  have joined := move_joined wired.untouched.allocated wired.joined move alone
  have peers (x : SocketRef) (link : PeerSocket) (known : s.view.type x = .peer link) (c : Call)
      (here : link.pipe c = r ∨ link.pipe c = r + 1) :
      (netExec s act).view.type x = .peer link := by
    rcases joined_ends wired.joined known here with rfl | rfl
    · exact joined.left.trans (wired.joined.left.symm.trans known)
    · exact joined.right.trans (wired.joined.right.symm.trans known)
  refine ⟨step_untouched wired.untouched enabled,joined,?_⟩
  intro t x q c asleep here
  rcases step_calls asleep with old | new
  · obtain ⟨link,known,rfl⟩ := wired.calls t x q c old here
    exact ⟨link,peers x link known c here,rfl⟩
  · rcases transfer_sleeps new with ⟨link,known,rfl,_⟩ | ⟨t',signalled,made,rfl⟩
    · exact ⟨link,peers x link known c here,rfl⟩
    · obtain ⟨link,known,rfl⟩ := wired.calls t' x q c enabled.1 here
      exact ⟨link,peers x link known c here,rfl⟩

end Wiring
end KernelSocket
