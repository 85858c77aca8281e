import TinyOS.SocketTables

/- Which threads sleep on which condition of the sockets. -/
namespace KernelSocket
open KernelStreams KernelProc KernelPipe Monitor Transition

/- The condition a sleeping call sleeps on. -/
def NetCall.WaitsOn : NetCall → NetCV → Prop
  | .connect _ l _, cv => cv = .reqAvailable l
  | .accept l, cv => cv = .reqAvailable l
  | .io _ r _, cv => ∃ pcv, cv = .pipe r pcv

/- A call that runs wakes some threads; if it falls asleep, it does so afterwards. -/
def Settles (w : Waits Thread NetCV) (t : Thread) (w' : Waits Thread NetCV) : Progress → Prop
  | .returns _ _ => w.Wakes w'
  | .sleeps call => ∃ w1 cv, w.Wakes w1 ∧ call.WaitsOn cv ∧ w' = w1.wait cv t

section Calls
variable {n : Net}

theorem closeEnd_wakes (r : PipeRef) (e : Option PipeCV × PipeCB) :
    n.waits.Wakes (closeEnd n r e).waits := by
  obtain ⟨cv,p⟩ := e
  cases cv with
  | none => exact .refl _
  | some cv => exact broadcast_wakes _ _

theorem readerClose_wakes (r : PipeRef) : n.waits.Wakes (readerClose n r).2.waits :=
  closeEnd_wakes (n := n.usePipe r) r _

theorem writerClose_wakes (r : PipeRef) : n.waits.Wakes (writerClose n r).2.waits :=
  closeEnd_wakes (n := n.usePipe r) r _

theorem sysShutDown_wakes (a : SocketRef) (how : ShutdownMode) :
    n.waits.Wakes (sysShutDown n a how).2.waits := by
  simp only [sysShutDown]
  split
  · cases how with
    | read => exact readerClose_wakes (n := n.useSocket a) _
    | write => exact writerClose_wakes (n := n.useSocket a) _
    | both => exact (readerClose_wakes (n := n.useSocket a) _).trans (writerClose_wakes _)
  · exact .refl _

theorem freeUnused_waits (a : SocketRef) : (freeUnused n a).waits = n.waits := by
  unfold freeUnused
  split <;> rfl

theorem socketClose_wakes (a : SocketRef) : n.waits.Wakes (socketClose n a).2.waits := by
  have sockets : (n.useSocket a).sockets = n.sockets := rfl
  cases known : (n.sockets a).type with
  | unbound =>
    simp only [socketClose, sockets, known, freeUnused_waits]
    exact .refl _
  | listener queue =>
    simp only [socketClose, sockets, known]
    split <;> exact broadcast_wakes _ _
  | peer link =>
    have first := writerClose_wakes (n := n.useSocket a) link.writePipe
    simp only [socketClose, sockets, known, readerClose, writerClose, ne_eq, not_true_eq_false,
      if_false, freeUnused_waits] at first ⊢
    exact first.trans (closeEnd_wakes (n := (closeEnd ((n.useSocket a).usePipe link.writePipe)
      link.writePipe (pipeWriterClose (n.pipes link.writePipe))).usePipe link.readPipe) _ _)

theorem endTransfer_settles (t : Thread) (a : SocketRef) (r : PipeRef) (c : Call) (e : Pass × PipeCB) :
    Settles n.waits t (endTransfer n t a r c e).2.waits (endTransfer n t a r c e).1 := by
  obtain ⟨pass,p⟩ := e
  cases pass with
  | sleeps cv => exact ⟨_,.pipe r cv,.refl _,⟨cv,rfl⟩,rfl⟩
  | returns value data cv =>
    cases cv with
    | none => exact .refl _
    | some cv => exact broadcast_wakes _ _

theorem socketTransfer_settles (t : Thread) (a : SocketRef) (c : Call) :
    Settles n.waits t (socketTransfer n t a c).2.waits (socketTransfer n t a c).1 := by
  simp only [socketTransfer]
  split
  · exact .refl _
  · exact .refl _
  · exact endTransfer_settles (n := (n.useSocket a).usePipe _) t a _ c _

theorem sysSocket_waits (port : Int) (made : Option (Fid × FcbRef)) :
    (sysSocket n port made).2.waits = n.waits := by
  unfold sysSocket
  split
  · rfl
  · cases made <;> rfl

theorem sysListen_waits (a : SocketRef) : (sysListen n a).2.waits = n.waits := by
  simp only [sysListen]
  split
  · rfl
  · split
    · split <;> rfl
    · rfl

/- The request is signalled before the thread falls asleep on the same condition. -/
def ConnectSettles (w : Waits Thread NetCV) (t : Thread) (a : SocketRef) (r : RequestRef)
    (mapped : Option SocketRef) (w' : Waits Thread NetCV) : Progress → Prop
  | .returns _ _ => w' = w
  | .sleeps call => ∃ l, call = .connect a l r ∧ mapped = some l ∧
      w' = (w.signal (.reqAvailable l)).wait (.reqAvailable l) t

theorem sysConnect_waits (t : Thread) (a : SocketRef) (port : Int) :
    ConnectSettles n.waits t a n.nextRequest (n.portMap port)
      (sysConnect n t a port).2.waits (sysConnect n t a port).1 := by
  have ports : (n.usePort port).portMap = n.portMap := rfl
  simp only [sysConnect, ports]
  split
  · rfl
  · split
    · rfl
    · rename_i l mapped
      split
      · rfl
      · split
        · rfl
        · exact ⟨l,rfl,mapped,rfl⟩

theorem acceptRequest_wakes (sound : n.waits.Sound) (l : SocketRef) (r : RequestRef)
    (rest : List RequestRef) (made : Option (Fid × FcbRef)) :
    n.waits.Wakes (acceptRequest n l r rest made).2.waits := by
  have same := sysSocket_waits (n := popRequest n l r rest) (n.sockets l).port made
  rcases acceptRequest_cases n l r rest made with
    ⟨net',result,accepted⟩ | ⟨fid,net',result,accepted⟩
  · rw [result] at same
    rw [accepted]
    change n.waits.Wakes net'.waits
    rw [same]
    exact .refl _
  · rw [result] at same
    rw [accepted]
    change n.waits.Wakes (net'.waits.signal (.connected r))
    rw [same]
    exact signal_wakes sound _

theorem acceptPass_settles (sound : n.waits.Sound) (t : Thread) (l : SocketRef)
    (made : Option (Fid × FcbRef)) :
    Settles n.waits t (acceptPass n t l made).2.waits (acceptPass n t l made).1 := by
  have sockets : (n.useSocket l).sockets = n.sockets := rfl
  simp only [acceptPass, sockets]
  split
  · exact .refl _
  · exact ⟨_,_,.refl _,rfl,rfl⟩
  · exact acceptRequest_wakes (n := ((n.useSocket l).note (¬ (n.sockets l).type.IsListener)
      (.notListener l)).usePort (n.sockets l).port) sound l _ _ made

theorem sysAccept_settles (sound : n.waits.Sound) (t : Thread) (l : SocketRef)
    (made : Option (Fid × FcbRef)) :
    Settles n.waits t (sysAccept n t l made).2.waits (sysAccept n t l made).1 := by
  simp only [sysAccept]
  split
  · exact .refl _
  · split
    · exact .refl _
    · exact acceptPass_settles (n := (n.useSocket l).addRef l 1) sound t l made

theorem sysConnect_settles (sound : n.waits.Sound) (t : Thread) (a : SocketRef) (port : Int) :
    Settles n.waits t (sysConnect n t a port).2.waits (sysConnect n t a port).1 := by
  have spec := sysConnect_waits (n := n) t a port
  cases known : (sysConnect n t a port).1 with
  | returns value data =>
    rw [known] at spec
    exact spec ▸ .refl _
  | sleeps call =>
    rw [known] at spec
    obtain ⟨l,rfl,_,waits⟩ := spec
    exact ⟨_,_,signal_wakes sound _,rfl,waits⟩

theorem connectPass_waits (a l : SocketRef) (r : RequestRef) (signalled : Bool) :
    (connectPass n a l r signalled).2.waits = n.waits := by
  simp only [connectPass]
  split
  · split <;> rfl
  · rfl

theorem callPass_settles (sound : n.waits.Sound) (t : Thread) (signalled : Bool)
    (made : Option (Fid × FcbRef)) (call : NetCall) :
    Settles n.waits t (callPass n t signalled made call).2.waits
      (callPass n t signalled made call).1 := by
  cases call with
  | connect a l r =>
    have same := connectPass_waits (n := n) a l r signalled
    simp only [callPass]
    cases known : (connectPass n a l r signalled).1 with
    | returns value data => exact same ▸ .refl _
    | sleeps call => exact absurd known (connectPass_returns call)
  | accept l => exact acceptPass_settles sound t l made
  | io a r c => exact endTransfer_settles (n := n.usePipe r) t a r c _

end Calls

/- How the waits and the sleeping calls move in one step, which replies. -/
inductive WaitStep (s s' : NetRun) : NetAction → Progress → Prop where
  | woke {a : NetAction} (value : Int) (data : List Byte)
      (wakes : s.net.waits.Wakes s'.net.waits) (calls : s'.calls = s.calls) :
      WaitStep s s' a (.returns value data)
  | slept {a : NetAction} (t : Thread) (call : NetCall) (cv : NetCV) (w : Waits Thread NetCV)
      (idle : s.Idle t) (wakes : s.net.waits.Wakes w) (on : call.WaitsOn cv)
      (waits : s'.net.waits = w.wait cv t) (calls : s'.calls = (t,call) :: s.calls) :
      WaitStep s s' a (.sleeps call)
  | left {t : Thread} {call : NetCall} {signalled : Bool} {made : Option (Fid × FcbRef)}
      (value : Int) (data : List Byte) (wakes : (s.net.waits.resume t).Wakes s'.net.waits)
      (calls : s'.calls = s.calls.erase (t,call)) :
      WaitStep s s' (.resume t call signalled made) (.returns value data)
  | again {t : Thread} {call : NetCall} {signalled : Bool} {made : Option (Fid × FcbRef)}
      (call' : NetCall) (cv : NetCV) (w : Waits Thread NetCV)
      (wakes : (s.net.waits.resume t).Wakes w) (on : call'.WaitsOn cv)
      (waits : s'.net.waits = w.wait cv t)
      (calls : s'.calls = (t,call') :: s.calls.erase (t,call)) :
      WaitStep s s' (.resume t call signalled made) (.sleeps call')
  | expired {t : Thread} {a l : SocketRef} {r : RequestRef}
      (waits : s'.net.waits = s.net.waits.expire (.reqAvailable l) t) (calls : s'.calls = s.calls) :
      WaitStep s s' (.expire t a l r) (reply 0)

section Steps
variable {s : NetRun}

theorem release_wakes (a : SocketRef) : s.net.waits.Wakes (s.release a).net.waits := by
  unfold NetRun.release
  split
  · exact socketClose_wakes a
  · exact .refl _

/- A call that starts. -/
theorem started_waits {t : Thread} {a : NetAction} {p : Progress} {net : Net} (idle : s.Idle t)
    (settles : Settles s.net.waits t net.waits p) : WaitStep s (s.record t p net) a p := by
  cases p with
  | returns value data => exact .woke value data settles rfl
  | sleeps call =>
    obtain ⟨w,cv,wakes,on,waits⟩ := settles
    exact .slept t call cv w idle wakes on waits rfl

/- A call that runs on. -/
theorem resumed_waits {t : Thread} (call : NetCall) {signalled : Bool}
    {made : Option (Fid × FcbRef)} {p : Progress} {net : Net}
    (settles : Settles (s.net.waits.resume t) t net.waits p) :
    WaitStep s ((s.leave t call).record t p net) (.resume t call signalled made) p := by
  cases p with
  | returns value data => exact .left value data settles rfl
  | sleeps call' =>
    obtain ⟨w,cv,wakes,on,waits⟩ := settles
    exact .again call' cv w wakes on waits rfl

theorem record_asleep {t : Thread} {p : Progress} {net : Net} {call : NetCall}
    (asleep : p = .sleeps call) : (t,call) ∈ (s.record t p net).calls := by
  rw [asleep]
  exact List.mem_cons_self

theorem step_adopt {s' : NetRun} {a : NetAction} {p : Progress} (before : Net)
    (step : WaitStep s s' a p) : WaitStep s (s'.adopt before) a p := by
  have waits : (s'.adopt before).net = s'.net := adopt_net before
  have calls : (s'.adopt before).calls = s'.calls := adopt_calls before
  cases step with
  | woke value data wakes same => exact .woke value data (waits ▸ wakes) (calls.trans same)
  | slept t call cv w idle wakes on slept same =>
    exact .slept t call cv w idle wakes on (waits ▸ slept) (calls.trans same)
  | left value data wakes same => exact .left value data (waits ▸ wakes) (calls.trans same)
  | again call' cv w wakes on slept same =>
    exact .again call' cv w wakes on (waits ▸ slept) (calls.trans same)
  | expired expired same => exact .expired (waits ▸ expired) (calls.trans same)

/- A call that has fallen asleep still holds its socket. -/
theorem step_release {s' : NetRun} {a : NetAction} {p : Progress} {x : SocketRef}
    (held : ∀ call, p = .sleeps call → ∃ t r c, (t,.io x r c) ∈ s'.calls)
    (ends : ∀ t a' l r, a ≠ .expire t a' l r)
    (step : WaitStep s s' a p) : WaitStep s (s'.release x) a p := by
  have calls : (s'.release x).calls = s'.calls := release_calls x
  have more := release_wakes (s := s') x
  cases step with
  | woke value data wakes same => exact .woke value data (wakes.trans more) (calls.trans same)
  | slept t call cv w idle wakes on slept same =>
    obtain ⟨_,_,_,asleep⟩ := held call rfl
    rw [release_open (holds_open asleep)]
    exact .slept t call cv w idle wakes on slept same
  | left value data wakes same => exact .left value data (wakes.trans more) (calls.trans same)
  | again call' cv w wakes on slept same =>
    obtain ⟨_,_,_,asleep⟩ := held call' rfl
    rw [release_open (holds_open asleep)]
    exact .again call' cv w wakes on slept same
  | expired expired same => exact absurd rfl (ends _ _ _ _)

/-- What one step does to the waits. -/
theorem step_waits {a : NetAction} (sound : s.net.waits.Sound) (enabled : NetEnabled s a) :
    WaitStep s (netExec s a) a (netStep s a).1 := by
  cases a with
  | socket port made =>
    have same := sysSocket_waits (n := s.net) port made
    apply step_adopt
    exact .woke _ _ (same ▸ .refl _) rfl
  | listen a => exact .woke _ _ (sysListen_waits (n := s.net) a ▸ .refl _) rfl
  | connect t a port => exact started_waits enabled.2 (sysConnect_settles sound t a port)
  | accept t l made =>
    exact step_adopt _ (started_waits enabled.2 (sysAccept_settles sound t l made))
  | io t a c =>
    refine step_release ?_ (by rintro _ _ _ _ ⟨⟩)
      (started_waits enabled.2 (socketTransfer_settles t a c))
    intro call asleep
    obtain ⟨r,rfl⟩ := socketTransfer_sleeps asleep
    exact ⟨t,r,c,record_asleep asleep⟩
  | shutDown a how => exact .woke _ _ (sysShutDown_wakes a how) rfl
  | share a => exact .woke _ _ (.refl _) rfl
  | close a =>
    have step : WaitStep s { s with fids := Function.update s.fids a (s.fids a - 1) } (.close a)
        (netStep s (.close a)).1 := .woke _ _ (.refl _) rfl
    refine step_release ?_ (by rintro _ _ _ _ ⟨⟩) step
    rintro call ⟨⟩
  | resume t call signalled made =>
    have settles := callPass_settles (n := (s.leave t call).net) (resume_sound sound t) t signalled
      made call
    have step : WaitStep s _ (.resume t call signalled made) _ :=
      step_adopt s.net (resumed_waits call settles)
    cases call with
    | connect a l r => exact step
    | accept l => exact step
    | io a r c =>
      refine step_release ?_ (by rintro _ _ _ _ ⟨⟩) step
      intro call asleep
      have same := endTransfer_sleeps asleep
      subst same
      refine ⟨t,r,c,?_⟩
      rw [adopt_calls]
      exact record_asleep asleep
  | expire t a l r => exact .expired rfl rfl

end Steps

/- The waits and the calls belong together. -/
structure WaitsOk (s : NetRun) : Prop where
  sound : s.net.waits.Sound
  threads : (s.calls.map Prod.fst).Nodup
  sleepers : ∀ cv t, t ∈ s.net.waits.asleep cv → ∃ call, (t,call) ∈ s.calls ∧ call.WaitsOn cv
  idle : ∀ t, s.Idle t → s.net.waits.woken t = none

section Preserved
variable {s s' : NetRun}

theorem idle_awake (ok : WaitsOk s) {t : Thread} (idle : s.Idle t) (cv : NetCV) :
    t ∉ s.net.waits.asleep cv := by
  intro asleep
  obtain ⟨call,member,_⟩ := ok.sleepers cv t asleep
  exact idle (List.mem_map_of_mem member)

theorem woken_awake (ok : WaitsOk s) {t : Thread} {signalled : Bool}
    (woken : s.net.waits.woken t = some signalled) (cv : NetCV) : t ∉ s.net.waits.asleep cv := by
  intro asleep
  cases (ok.sound.unwoken cv t asleep).symm.trans woken

theorem erased_apart (ok : WaitsOk s) {t : Thread} {call : NetCall} (member : (t,call) ∈ s.calls) :
    t ∉ (s.calls.erase (t,call)).map Prod.fst := by
  have perm := (List.perm_cons_erase member).map Prod.fst
  exact (List.nodup_cons.mp (perm.nodup_iff.mp ok.threads)).1

theorem woken_idle {t u : Thread} {call : NetCall}
    (other : u ≠ t) (idle : u ∉ (s.calls.erase (t,call)).map Prod.fst) : s.Idle u := by
  intro busy
  obtain ⟨⟨_,call'⟩,member,rfl⟩ := List.mem_map.mp busy
  refine idle (List.mem_map.mpr ⟨_,(List.mem_erase_of_ne ?_).mpr member,rfl⟩)
  intro same
  exact other (congrArg Prod.fst same)

/- A thread goes to sleep in its call. -/
theorem slept_waitsOk (ok : WaitsOk s) {t : Thread} {call : NetCall} {cv : NetCV}
    {w : Waits Thread NetCV} (idle : s.Idle t) (wakes : s.net.waits.Wakes w)
    (on : call.WaitsOn cv) (waits : s'.net.waits = w.wait cv t)
    (calls : s'.calls = (t,call) :: s.calls) : WaitsOk s' := by
  have awake (cv : NetCV) : t ∉ w.asleep cv := fun asleep =>
    idle_awake ok idle cv ((wakes.asleep cv).subset asleep)
  have unwoken : w.woken t = none :=
    (wakes_awake wakes (idle_awake ok idle)).trans (ok.idle t idle)
  refine ⟨?_,?_,?_,?_⟩
  · rw [waits]
    exact wait_sound (wakes_sound ok.sound wakes) cv awake unwoken
  · rw [calls]
    exact List.nodup_cons.mpr ⟨idle,ok.threads⟩
  · intro cv' u asleep
    rw [waits, mem_wait] at asleep
    rw [calls]
    rcases asleep with old | ⟨rfl,rfl⟩
    · obtain ⟨call',member,on'⟩ := ok.sleepers cv' u ((wakes.asleep cv').subset old)
      exact ⟨call',List.mem_cons_of_mem _ member,on'⟩
    · exact ⟨call,List.mem_cons_self,on⟩
  · intro u idle'
    rw [NetRun.Idle, calls, List.map_cons, List.mem_cons, not_or] at idle'
    rw [waits]
    exact (wakes_awake wakes (idle_awake ok idle'.2)).trans (ok.idle u idle'.2)

/- One that has been woken returns from its call. -/
theorem left_waitsOk (ok : WaitsOk s) {t : Thread} {call : NetCall} {signalled : Bool}
    (woken : s.net.waits.woken t = some signalled)
    (wakes : (s.net.waits.resume t).Wakes s'.net.waits)
    (calls : s'.calls = s.calls.erase (t,call)) : WaitsOk s' := by
  have sound := resume_sound ok.sound t
  refine ⟨wakes_sound sound wakes,?_,?_,?_⟩
  · rw [calls]
    exact ok.threads.sublist (List.erase_sublist.map _)
  · intro cv u asleep
    have before := (wakes.asleep cv).subset asleep
    obtain ⟨call',member',on⟩ := ok.sleepers cv u before
    rw [calls]
    refine ⟨call',(List.mem_erase_of_ne ?_).mpr member',on⟩
    rintro ⟨⟩
    exact woken_awake ok woken cv before
  · intro u idle
    rw [NetRun.Idle, calls] at idle
    by_cases same : u = t
    · subst same
      rw [wakes_awake wakes (woken_awake ok woken)]
      exact Function.update_self _ _ _
    · have before := woken_idle same idle
      rw [wakes_awake wakes (idle_awake ok before)]
      exact (Function.update_of_ne same _ _).trans (ok.idle u before)

/- Or it sleeps again, perhaps on another condition variable, as if it had left its call. -/
theorem again_waitsOk (ok : WaitsOk s) {t : Thread} {call call' : NetCall} {signalled : Bool}
    {cv : NetCV} {w : Waits Thread NetCV} (member : (t,call) ∈ s.calls)
    (woken : s.net.waits.woken t = some signalled) (wakes : (s.net.waits.resume t).Wakes w)
    (on : call'.WaitsOn cv) (waits : s'.net.waits = w.wait cv t)
    (calls : s'.calls = (t,call') :: s.calls.erase (t,call)) : WaitsOk s' := by
  let outside : NetRun := { s with
    net := { s.net with waits := s.net.waits.resume t }
    calls := s.calls.erase (t,call) }
  have left : WaitsOk outside := left_waitsOk ok woken (.refl _) rfl
  have idle : outside.Idle t := erased_apart ok member
  exact slept_waitsOk left idle wakes on waits calls

theorem step_waitsOk {a : NetAction} (ok : WaitsOk s) (enabled : NetEnabled s a) :
    WaitsOk (netExec s a) := by
  have step := step_waits ok.sound enabled
  generalize (netStep s a).1 = p, netExec s a = s' at step
  cases step with
  | woke value data wakes calls =>
    refine ⟨wakes_sound ok.sound wakes,calls ▸ ok.threads,?_,?_⟩
    · intro cv t asleep
      rw [calls]
      exact ok.sleepers cv t ((wakes.asleep cv).subset asleep)
    · intro t idle
      have before : s.Idle t := by rwa [NetRun.Idle, calls] at idle
      rw [wakes_awake wakes (idle_awake ok before)]
      exact ok.idle t before
  | slept t call cv w idle wakes on waits calls => exact slept_waitsOk ok idle wakes on waits calls
  | left value data wakes calls => exact left_waitsOk ok enabled.2 wakes calls
  | again call' cv w wakes on waits calls =>
    exact again_waitsOk ok enabled.1 enabled.2 wakes on waits calls
  | expired waits calls =>
    rename_i t x l r
    obtain ⟨member,asleep⟩ := enabled
    refine ⟨?_,calls ▸ ok.threads,?_,?_⟩
    · rw [waits]
      exact expire_sound ok.sound asleep
    · intro cv u still
      rw [waits] at still
      rw [calls]
      exact ok.sleepers cv u ((expire_sublist _ _ _ _).subset still)
    · intro u idle
      have before : s.Idle u := by rwa [NetRun.Idle, calls] at idle
      have other : u ≠ t := by
        rintro rfl
        exact before (List.mem_map_of_mem member)
      rw [waits]
      exact (Function.update_of_ne other _ _).trans (ok.idle u before)

theorem waitsOk_inductive : netSystem.Inductive WaitsOk := by
  constructor
  · rintro s ⟨memory,rfl⟩
    exact ⟨empty_sound,List.nodup_nil,by simp [bootNet, Waits.empty],fun _ _ => rfl⟩
  · rintro s a s' ok ⟨enabled,run⟩
    cases run
    exact step_waitsOk ok enabled

end Preserved
end KernelSocket
