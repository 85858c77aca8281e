import TinyOS.SocketView

/- References are handed out in order, over all runs. -/
namespace KernelSocket
open KernelStreams KernelProc KernelPipe Monitor Transition

/- References stay below the next one that xmalloc hands out. -/
structure Allocated (v : View) : Prop where
  opened : ∀ x, v.isOpen x → x < v.nextSocket
  fresh : ∀ x, v.nextSocket ≤ x → v.type x = .unbound
  peers : ∀ x link, v.type x = .peer link →
    link.peer < v.nextSocket ∧ link.readPipe < v.nextPipe ∧ link.writePipe < v.nextPipe
  apart : ∀ x link, v.type x = .peer link → link.peer ≠ x
  queues : ∀ x queue, v.type x = .listener queue → ∀ r ∈ queue, r < v.nextRequest
  owners : ∀ r, r < v.nextRequest → v.owner r < v.nextSocket
  ports : ∀ x, x < v.nextSocket → 0 ≤ v.port x ∧ v.port x ≤ maxPort
  listening : ∀ x queue, v.type x = .listener queue → v.port x ≠ noport
  fcbs : ∀ x, x < v.nextSocket → v.fcb x ≠ none

theorem move_allocated {v w : View} {e : Event} (ok : Allocated v)
    (move : Move v e w) : Allocated w := by
  obtain ⟨opened,fresh,peers,apart,queues,owners,ports,listening,fcbs⟩ := ok
  cases move with
  | quiet => exact ⟨opened,fresh,peers,apart,queues,owners,ports,listening,fcbs⟩
  | socket port fcb legal =>
    constructor <;> simp only [View.openNew, View.withOpen, View.addSocket] <;> grind
  | listen a opens unbound bound free =>
    constructor <;> simp only [View.listen, View.setType] <;> grind
  | enqueue a l port opens unbound mapped listens =>
    obtain ⟨q,known⟩ := listens
    have queue : (v.type l).queue = q := by
      rw [known]
      rfl
    constructor <;> simp only [View.enqueue, View.setType, queue] <;> grind
  | refuse l r rest queue =>
    constructor <;> simp only [View.refuse, View.takeRequest, View.setFate, View.setType] <;> grind
  | honour l r rest fcb queue legal =>
    have asked := queues l _ queue r (by simp)
    have owner := owners r asked
    constructor <;> simp only [View.openNew, View.withOpen, View.honour, View.takeRequest, View.setFate,
      View.setType, View.addSocket, View.connectPeers] <;> grind
  | close a opens =>
    constructor <;> simp only [View.close, View.unmap, View.withOpen] <;> grind

theorem boot_allocated (memory : PipeRef → PipeCB) : Allocated (bootNet memory).view := by
  constructor <;> simp [bootNet, NetRun.view, Net.view, NetRun.refcount, NetRun.holds]

theorem listener_ports {v : View} (ok : Allocated v) (l : SocketRef)
    (listens : (v.type l).IsListener) :
    (0 ≤ v.port l ∧ v.port l ≤ maxPort) ∧ v.port l ≠ noport := by
  obtain ⟨queue,known⟩ := listens
  have made : l < v.nextSocket := by
    by_contra beyond
    have unbound := ok.fresh l (Nat.le_of_not_lt beyond)
    rw [known] at unbound
    cases unbound
  exact ⟨ok.ports l made,ok.listening l queue known⟩

def blankPipe : PipeCB := acquirePipeCB none none fun _ => 0

/- Socket 0 listens, and socket 1 asks for a connection. -/
def oneRequest : List NetAction :=
  [.socket 5 (some (0,0)),.listen 0,.socket 0 (some (1,1)),.connect (1,1) 1 5]

def oneConnection : List NetAction := oneRequest ++ [.accept (1,2) 0 (some (2,2))]

end KernelSocket
