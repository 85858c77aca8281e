import TinyOS.Execute

/- The remote shell of tinyos_shell.c: how RemoteClient sends a command and rsrv_client receives
   it. The socket is a stream of bytes in order, of which Write takes and Read delivers any part. -/
namespace RemoteShell
open KernelStreams ArgVector ProcInfo Transition

abbrev sizeofInt : Nat := 4
abbrev maxRequest : Nat := 2048

/- An int in memory, its lowest byte first. -/
def intBytes (n : Int) : List Byte :=
  (List.range sizeofInt).map fun i => UInt8.ofNat ((n % 2 ^ 32).toNat / 256 ^ i)

def intValue (b : List Byte) : Int := toInt (b.foldr (fun x n => x.toNat + 256 * n) 0 : Nat)

def charBytes (cs : List Char) : List Byte := cs.map fun c => UInt8.ofNat c.toNat

def rsrvName : CString := ⟨charBytes "rsrv_process".toList,by decide⟩

def sockValue (sock : Fid) : CString :=
  ⟨charBytes (Nat.toDigits 10 sock.val),by revert sock; decide⟩

theorem string_at_free {a s : List Byte} (found : stringAt a = some s) : 0 ∉ s := by
  induction a generalizing s with
  | nil => cases found
  | cons b a ih =>
    unfold stringAt at found
    split at found
    · cases found
      exact List.not_mem_nil
    · rename_i apart
      obtain ⟨rest,found',rfl⟩ := Option.map_eq_some_iff.mp found
      rintro (_ | member)
      · exact apart rfl
      · exact ih found' (by assumption)

def cstringAt (a : List Byte) : Option CString :=
  (stringAt a).pmap (fun s free => ⟨s,free⟩) fun _ => string_at_free

/- The strings of a request; a read out of bounds is none. -/
def decodeArgs (argl : Int) (args : List Byte) : Option (List CString) := do
  let argc ← argscount argl args
  let (pointers, _) ← argvunpack argc args
  pointers.mapM cstringAt

/- What rsrv_client hands to Execute with rsrv_process. -/
def rsrvArgs (sock : Fid) (strings : List CString) : List CString :=
  rsrvName :: sockValue sock :: strings

/- `packing` is RemoteClient before its first send_message, and the two others are the loops of
   send_message with their count. It ends with ShutDown, or is gone before. -/
inductive Client where
  | packing
  | length (count : Nat)
  | args (count : Nat)
  | done
  | gone
  deriving DecidableEq, Repr

/- The loops of recv_message with what they have received. `executed` holds the arguments of the
   call of Execute. -/
inductive Server where
  | length (buf : List Byte)
  | args (argl : Int) (buf : List Byte)
  | aborted
  | failed
  | executed (argv : List CString)
  deriving DecidableEq

/- `wire` is what is left to read of what has been sent. -/
structure Session where
  client : Client
  sent : List Byte
  wire : List Byte
  ended : Bool
  server : Server
  deriving DecidableEq

inductive RemoteAction where
  | pack
  | write (n : Nat)
  | sendReturns
  | hangUp
  | read (n : Nat)
  | readEnd
  | recvReturns
  deriving DecidableEq, Repr

section System
variable (argv : List CString) (sock : Fid)

def Client.message : Client → Option (List Byte × Nat)
  | .length count => some (intBytes (toInt (argvlen argv)), count)
  | .args count => some ((argvpack argv).2, count)
  | _ => none

def Client.advance (n : Nat) : Client → Client
  | .length count => .length (count + n)
  | .args count => .args (count + n)
  | c => c

/- len and buf of recv_message. -/
def Server.buffer : Server → Option (Nat × List Byte)
  | .length buf => some (sizeofInt, buf)
  | .args argl buf => some (argl.toNat, buf)
  | _ => none

def Server.store (b : List Byte) : Server → Server
  | .length buf => .length (buf ++ b)
  | .args argl buf => .args argl (buf ++ b)
  | s => s

/- Without the end of the stream a Read of an empty one waits. -/
def RemoteEnabled (s : Session) : RemoteAction → Prop
  | .pack => s.client = .packing
  | .write n => ∃ m ∈ s.client.message argv, 1 ≤ n ∧ m.2 + n ≤ m.1.length
  | .sendReturns => ∃ m ∈ s.client.message argv, m.2 = m.1.length
  | .hangUp => s.client ≠ .done ∧ s.client ≠ .gone
  | .read n => ∃ b ∈ s.server.buffer, 1 ≤ n ∧ b.2.length + n ≤ b.1 ∧ n ≤ s.wire.length
  | .readEnd => (∃ b ∈ s.server.buffer, b.2.length < b.1) ∧ s.wire = [] ∧ s.ended = true
  | .recvReturns => ∃ b ∈ s.server.buffer, b.2.length = b.1

def Client.chunk (n : Nat) (c : Client) : List Byte :=
  match c.message argv with
  | some (m, count) => (m.drop count).take n
  | none => []

/- argl and args on the stack of the client; the packed strings must fit. -/
def Session.pack (s : Session) : Option Session :=
  if toInt (argvlen argv) < argvlen argv then none else some { s with client := .length 0 }

def Session.sendReturns (s : Session) : Session :=
  match s.client with
  | .length _ => { s with client := .args 0 }
  | .args _ => { s with client := .done, ended := true }
  | _ => s

def Session.recvReturns (s : Session) : Option Session :=
  match s.server with
  | .length buf =>
    let argl := intValue buf
    if 0 < argl ∧ argl ≤ maxRequest then some { s with server := .args argl [] }
    else some { s with server := .aborted }
  | .args argl buf =>
    (decodeArgs argl buf).map fun strings => { s with server := .executed (rsrvArgs sock strings) }
  | _ => some s

def remoteExec (s : Session) : RemoteAction → Option Session
  | .pack => s.pack argv
  | .write n =>
    let b := s.client.chunk argv n
    some { s with client := s.client.advance n, sent := s.sent ++ b, wire := s.wire ++ b }
  | .sendReturns => some s.sendReturns
  | .hangUp => some { s with client := .gone, ended := true }
  | .read n => some { s with wire := s.wire.drop n, server := s.server.store (s.wire.take n) }
  | .readEnd => some { s with server := .failed }
  | .recvReturns => s.recvReturns sock

def remoteSystem : Machine Session RemoteAction where
  start s := s =
    { client := .packing, sent := [], wire := [], ended := false, server := .length [] }
  enabled := RemoteEnabled argv
  exec := remoteExec argv sock

end System

section Decoding
variable {argv : List CString} {sock : Fid}

@[simp] theorem int_bytes_length (n : Int) : (intBytes n).length = sizeofInt := by
  simp [intBytes]

theorem int_value_bytes {n : Nat} (small : n < 2 ^ 31) : intValue (intBytes n) = n := by
  have range : ((n : Int) % 2 ^ 32).toNat = n := by omega
  have value : (intBytes n).foldr (fun x m => x.toNat + 256 * m) 0 = n := by
    simp only [intBytes, range, List.range, List.range.loop, List.map_cons, List.map_nil,
      List.foldr_cons, List.foldr_nil, UInt8.toNat_ofNat']
    omega
  rw [intValue, value]
  exact toInt_small small

theorem cstring_at_some {a : List Byte} {s : CString} (found : stringAt a = some s.val) :
    cstringAt a = some s := by
  unfold cstringAt
  simp only [found, Option.pmap_some]

theorem decode_pointers {pointers : List (List Byte)} :
    ∀ {argv : List CString}, pointers.map stringAt = argv.map (fun s => some s.val) →
      pointers.mapM cstringAt = some argv := by
  induction pointers with
  | nil =>
    intro argv strings
    cases argv with
    | nil => rfl
    | cons s argv => cases strings
  | cons a pointers ih =>
    intro argv strings
    cases argv with
    | nil => cases strings
    | cons s argv =>
      simp only [List.map_cons, List.cons.injEq] at strings
      rw [List.mapM_cons, cstring_at_some strings.1, ih strings.2]
      rfl

/-- The server gets the strings of the client back. -/
theorem decode_packed {argv : List CString} (small : argvlen argv < 2 ^ 31) :
    decodeArgs (argvlen argv) (packed argv) = some argv := by
  rw [argvlen_packed] at small
  have counted := argscount_packed small []
  obtain ⟨pointers,unpacked,strings⟩ := argvunpack_packed argv []
  rw [List.append_nil] at counted unpacked
  have decoded := decode_pointers strings
  simp only [decodeArgs, argvlen_packed, counted, unpacked, decoded, Option.bind_eq_bind,
    Option.bind_some]

theorem sock_value_short (sock : Fid) : (sockValue sock).val.length ≤ 2 := by
  revert sock
  decide

theorem rsrv_args_length (sock : Fid) (argv : List CString) :
    packedLength (rsrvArgs sock argv) ≤ argvlen argv + 24 := by
  have name : rsrvName.val.length = 12 := rfl
  have short := sock_value_short sock
  simp only [packedLength, argvlen_packed, rsrvArgs, packed_cons, List.length_append,
    List.length_cons, name, sizeofProgram]
  omega

end Decoding

section Stream
variable {argv : List CString} {sock : Fid} {s s' : Session}

def request (argv : List CString) : List Byte :=
  intBytes (toInt (argvlen argv)) ++ (argvpack argv).2

theorem request_length (argv : List CString) :
    (request argv).length = sizeofInt + argvlen argv := by
  rw [request, List.length_append, int_bytes_length, argvpack_bytes, argvlen_packed]

/- How far the client has come with the request. -/
def Client.Sent (argv : List CString) (sent : List Byte) : Client → Prop
  | .packing => sent = []
  | .length count => count ≤ sizeofInt ∧ sent = (request argv).take count
  | .args count => count ≤ argvlen argv ∧ sent = (request argv).take (sizeofInt + count)
  | .done => sent = request argv
  | .gone => sent <+: request argv

/- What the server has made of the part it has read. -/
def Session.Received (argv : List CString) (sock : Fid) (s : Session) : Prop :=
  match s.server with
  | .length buf => buf ++ s.wire = s.sent ∧ buf.length ≤ sizeofInt
  | .args argl buf => argl = argvlen argv ∧ argvlen argv ≤ maxRequest ∧
      intBytes (argvlen argv) ++ buf ++ s.wire = s.sent ∧ buf.length ≤ argvlen argv
  | .aborted => maxRequest < argvlen argv
  | .failed => s.client = .gone ∧ s.sent.length < (request argv).length
  | .executed v => v = rsrvArgs sock argv ∧ s.sent = request argv

structure SessionInv (argv : List CString) (sock : Fid) (s : Session) : Prop where
  packs : argvlen argv < 2 ^ 31 ∨ s.sent = [] ∧ (s.client = .packing ∨ s.client = .gone)
  sends : s.client.Sent argv s.sent
  ended : s.ended = true ↔ s.client = .done ∨ s.client = .gone
  received : s.Received argv sock

theorem sent_part {c : Client} {sent : List Byte} (sends : c.Sent argv sent) :
    sent <+: request argv := by
  cases c with
  | packing => exact sends ▸ List.nil_prefix
  | length count => exact sends.2 ▸ List.take_prefix ..
  | args count => exact sends.2 ▸ List.take_prefix ..
  | done => exact sends ▸ List.prefix_refl _
  | gone => exact sends

theorem message_running {c : Client} {m : List Byte × Nat} (at' : m ∈ c.message argv) :
    c ≠ .packing ∧ c ≠ .gone ∧ c ≠ .done := by
  cases c with
  | length count | args count => simp
  | _ => cases at'

/-- The message that is being sent, as a part of the request. -/
theorem message_request {c : Client} {m : List Byte × Nat} (at' : m ∈ c.message argv) :
    ∃ base, base + m.1.length ≤ (request argv).length ∧
      m.1 = ((request argv).drop base).take m.1.length ∧
      (∀ sent, c.Sent argv sent ↔ m.2 ≤ m.1.length ∧ sent = (request argv).take (base + m.2)) ∧
      ∀ n sent, m.2 + n ≤ m.1.length → sent = (request argv).take (base + (m.2 + n)) →
        (c.advance n).Sent argv sent := by
  have whole := request_length argv
  cases c with
  | length count =>
    cases at'
    refine ⟨0,?_,?_,fun sent => ?_,fun n sent fits same => ⟨?_,?_⟩⟩
    · simp [whole]
    · simp [request]
    · simp [Client.Sent]
    · simpa using fits
    · simpa using same
  | args count =>
    cases at'
    have length : (argvpack argv).2.length = argvlen argv := by
      rw [argvpack_bytes, argvlen_packed]
    refine ⟨sizeofInt,?_,?_,fun sent => ?_,fun n sent fits same => ⟨?_,?_⟩⟩
    · simp [whole, length]
    · simp [request]
    · simp [Client.Sent, length]
    · simpa [length] using fits
    · simpa using same
  | _ => cases at'

/-- Write puts the next bytes of the request on the wire. -/
theorem write_sends {c : Client} {sent : List Byte} {n : Nat} (sends : c.Sent argv sent)
    (enabled : ∃ m ∈ c.message argv, 1 ≤ n ∧ m.2 + n ≤ m.1.length) :
    (c.advance n).Sent argv (sent ++ c.chunk argv n) ∧ (c.chunk argv n).length = n := by
  obtain ⟨m,at',_,fits⟩ := enabled
  obtain ⟨base,inside,part,sent',advances⟩ := message_request at'
  obtain ⟨_,rfl⟩ := (sent' sent).mp sends
  have chunk : c.chunk argv n = ((request argv).drop (base + m.2)).take n := by
    have found : c.message argv = some m := at'
    rw [Client.chunk, found]
    simp only
    rw [part, List.drop_take, List.take_take, List.drop_drop]
    congr 1
    omega
  refine ⟨advances n _ fits ?_,?_⟩
  · rw [chunk, ← Nat.add_assoc]
    exact List.take_add.symm
  · rw [chunk, List.length_take, List.length_drop]
    omega

/-- A Read of a part of the wire. -/
theorem read_received {n : Nat} (received : s.Received argv sock)
    (enabled : ∃ b ∈ s.server.buffer, 1 ≤ n ∧ b.2.length + n ≤ b.1 ∧ n ≤ s.wire.length) :
    Session.Received argv sock
      { s with wire := s.wire.drop n, server := s.server.store (s.wire.take n) } := by
  obtain ⟨b,at',_,fits,there⟩ := enabled
  unfold Session.Received at received ⊢
  cases phase : s.server with
  | length buf =>
    rw [phase] at at' received
    cases at'
    simp only [Server.store]
    refine ⟨?_,?_⟩
    · rw [List.append_assoc, List.take_append_drop, received.1]
    · rw [List.length_append, List.length_take_of_le there]
      exact fits
  | args argl buf =>
    rw [phase] at at' received
    cases at'
    obtain ⟨rfl,legal,same,_⟩ := received
    refine ⟨rfl,legal,?_,?_⟩
    · rw [← same, List.append_assoc, List.append_assoc, List.append_assoc, List.take_append_drop]
    · rw [List.length_append, List.length_take_of_le there]
      exact fits
  | _ =>
    rw [phase] at at'
    cases at'

/-- A Read at the end of the stream comes too early only when the client has gone. -/
theorem read_end_received (inv : SessionInv argv sock s)
    (enabled : (∃ b ∈ s.server.buffer, b.2.length < b.1) ∧ s.wire = [] ∧ s.ended = true) :
    s.client = .gone ∧ s.sent.length < (request argv).length := by
  obtain ⟨⟨b,at',short⟩,empty,ended⟩ := enabled
  have received := inv.received
  have sends := inv.sends
  have whole := request_length argv
  have less : s.sent.length < (request argv).length := by
    unfold Session.Received at received
    cases phase : s.server with
    | length buf =>
      rw [phase] at at' received
      cases at'
      have same := congrArg List.length received.1
      rw [empty, List.append_nil] at same
      simp only at short
      omega
    | args argl buf =>
      rw [phase] at at' received
      cases at'
      obtain ⟨rfl,_,same,_⟩ := received
      have same := congrArg List.length same
      rw [empty, List.append_nil, List.length_append, int_bytes_length] at same
      simp only [Int.toNat_natCast] at short
      omega
    | _ =>
      rw [phase] at at'
      cases at'
  refine ⟨(inv.ended.mp ended).resolve_left fun done => ?_,less⟩
  rw [done] at sends
  exact absurd less (by rw [show s.sent = request argv from sends]; exact Nat.lt_irrefl _)

/-- The length that the server has received is that of the client. -/
theorem length_received (inv : SessionInv argv sock s) {buf : List Byte}
    (phase : s.server = .length buf) (full : buf.length = sizeofInt) :
    argvlen argv < 2 ^ 31 ∧ buf = intBytes (argvlen argv) := by
  have received := inv.received
  simp only [Session.Received, phase] at received
  have part : buf <+: request argv :=
    (received.1 ▸ List.prefix_append ..).trans (sent_part inv.sends)
  have small : argvlen argv < 2 ^ 31 := by
    refine inv.packs.resolve_right fun early => ?_
    have none := (List.append_eq_nil_iff.mp (received.1.trans early.1)).1
    rw [none] at full
    cases full
  refine ⟨small,?_⟩
  have same := List.prefix_iff_eq_take.mp part
  rw [full, request, toInt_small small, List.take_append_of_le_length (by simp),
    List.take_of_length_le (by simp)] at same
  exact same

/-- What the server has received in full are the packed strings. -/
theorem args_received (inv : SessionInv argv sock s) {argl : Int} {buf : List Byte}
    (phase : s.server = .args argl buf) (full : buf.length = argl.toNat) :
    decodeArgs argl buf = some argv ∧ s.sent = request argv := by
  have received := inv.received
  simp only [Session.Received, phase] at received
  obtain ⟨rfl,legal,same,_⟩ := received
  have small : argvlen argv < 2 ^ 31 := Nat.lt_of_le_of_lt legal (by decide)
  rw [Int.toNat_natCast] at full
  have part := sent_part inv.sends
  rw [← same, request, toInt_small small, argvpack_bytes, List.append_assoc,
    List.prefix_append_right_inj] at part
  have length := argvlen_packed argv
  have exact : buf = packed argv :=
    List.IsPrefix.eq_of_length ((List.prefix_append ..).trans part) (full.trans length)
  subst exact
  have rest : s.wire = [] := by
    have short := part.length_le
    rw [List.length_append] at short
    exact List.length_eq_zero_iff.mp (by omega)
  refine ⟨decode_packed small,?_⟩
  rw [← same, rest, List.append_nil, request, toInt_small small, argvpack_bytes]

/- While the client is there, what the server has received is a matter of the bytes alone. -/
theorem received_kept {t : Session} (received : s.Received argv sock) (running : s.client ≠ .gone)
    (server : t.server = s.server) (wire : t.wire = s.wire) (sent : t.sent = s.sent) :
    t.Received argv sock := by
  unfold Session.Received at received ⊢
  rw [server, wire, sent]
  cases phase : s.server with
  | failed =>
    rw [phase] at received
    exact absurd received.1 running
  | _ =>
    rw [phase] at received
    exact received

/-- The client sends the length before the strings, and then shuts the stream down. -/
theorem send_returns_inv (inv : SessionInv argv sock s)
    (enabled : ∃ m ∈ s.client.message argv, m.2 = m.1.length) :
    SessionInv argv sock s.sendReturns := by
  obtain ⟨m,at',full⟩ := enabled
  have sends := inv.sends
  obtain ⟨unpacked,running,_⟩ := message_running at'
  have small := inv.packs.resolve_right fun early => early.2.elim unpacked running
  cases phase : s.client with
  | length count =>
    rw [phase] at at' sends
    cases at'
    simp only [int_bytes_length] at full
    have same : s.sendReturns = { s with client := .args 0 } := by
      simp only [Session.sendReturns, phase]
    rw [same]
    have going : s.ended ≠ true := fun ended => by simpa [phase] using inv.ended.mp ended
    refine ⟨Or.inl small,⟨Nat.zero_le _,by rw [sends.2, full]⟩,?_,
      received_kept inv.received running rfl rfl rfl⟩
    exact ⟨fun ended => absurd ended going,fun over' => by simp at over'⟩
  | args count =>
    rw [phase] at at' sends
    cases at'
    have same : s.sendReturns = { s with client := .done, ended := true } := by
      simp only [Session.sendReturns, phase]
    rw [same]
    refine ⟨Or.inl small,?_,⟨fun _ => Or.inl rfl,fun _ => rfl⟩,
      received_kept inv.received running rfl rfl rfl⟩
    have count' : count = argvlen argv := by
      rw [argvlen_packed, ← argvpack_bytes]
      exact full
    rw [sends.2, count', ← request_length, List.take_length]
    exact rfl
  | _ =>
    rw [phase] at at'
    cases at'

theorem pack_inv (inv : SessionInv argv sock s) (start : s.client = .packing)
    (run : s.pack argv = some s') : SessionInv argv sock s' := by
  have sends := inv.sends
  rw [start] at sends
  simp only [Session.pack] at run
  split at run
  · cases run
  · rename_i fits
    cases run
    have below := toInt_below (argvlen argv)
    have none : s.sent = [] := sends
    refine ⟨Or.inl (by omega),⟨Nat.zero_le _,by simpa using none⟩,?_,
      received_kept inv.received (by simp [start]) rfl rfl rfl⟩
    exact ⟨fun ended => by simpa [start] using inv.ended.mp ended,fun over' => by simp at over'⟩

theorem write_inv {n : Nat} (inv : SessionInv argv sock s)
    (enabled : ∃ m ∈ s.client.message argv, 1 ≤ n ∧ m.2 + n ≤ m.1.length) :
    SessionInv argv sock { s with
      client := s.client.advance n, sent := s.sent ++ s.client.chunk argv n
      wire := s.wire ++ s.client.chunk argv n } := by
  obtain ⟨sends,length⟩ := write_sends inv.sends enabled
  obtain ⟨m,at',positive,_⟩ := enabled
  obtain ⟨unpacked,running,_⟩ := message_running at'
  have small := inv.packs.resolve_right fun early => early.2.elim unpacked running
  refine ⟨Or.inl small,sends,?_,?_⟩
  · have same : (s.client.advance n = .done ∨ s.client.advance n = .gone) ↔
        (s.client = .done ∨ s.client = .gone) := by
      cases s.client <;> simp [Client.advance]
    exact inv.ended.trans same.symm
  · have received := inv.received
    unfold Session.Received at received ⊢
    cases phase : s.server with
    | length buf =>
      rw [phase] at received
      exact ⟨by rw [← List.append_assoc, received.1],received.2⟩
    | args argl buf =>
      rw [phase] at received
      obtain ⟨same,legal,stream,short⟩ := received
      exact ⟨same,legal,by rw [← List.append_assoc, stream],short⟩
    | aborted =>
      rw [phase] at received
      exact received
    | failed =>
      rw [phase] at received
      exact absurd received.1 running
    | executed v =>
      rw [phase] at received
      -- nothing more can be sent
      have more := (sent_part sends).length_le
      rw [List.length_append, length, received.2] at more
      omega

/-- The length leads to the buffer for the strings, and the strings to the program. -/
theorem recv_returns_inv (given : argv ≠ []) (inv : SessionInv argv sock s)
    (enabled : ∃ b ∈ s.server.buffer, b.2.length = b.1) (run : s.recvReturns sock = some s') :
    SessionInv argv sock s' := by
  obtain ⟨b,at',full⟩ := enabled
  simp only [Session.recvReturns] at run
  have positive : 0 < argvlen argv := by
    obtain ⟨first,rest,rfl⟩ := List.exists_cons_of_ne_nil given
    rw [argvlen_packed, packed_cons, List.length_append, List.length_cons]
    omega
  cases phase : s.server with
  | length buf =>
    rw [phase] at at' run
    cases at'
    obtain ⟨small,rfl⟩ := length_received inv phase full
    have received := inv.received
    simp only [Session.Received, phase] at received
    simp only [int_value_bytes small] at run
    split at run
    · rename_i legal
      cases run
      refine ⟨inv.packs,inv.sends,inv.ended,rfl,by omega,?_,Nat.zero_le _⟩
      simpa using received.1
    · rename_i illegal
      cases run
      exact ⟨inv.packs,inv.sends,inv.ended,by simp only [Session.Received]; omega⟩
  | args argl buf =>
    rw [phase] at at' run
    cases at'
    obtain ⟨decoded,sent⟩ := args_received inv phase full
    simp only [decoded, Option.map_some] at run
    cases run
    exact ⟨inv.packs,inv.sends,inv.ended,rfl,sent⟩
  | _ =>
    rw [phase] at at'
    cases at'

theorem remote_step {a : RemoteAction} (given : argv ≠ []) (inv : SessionInv argv sock s)
    (move : (remoteSystem argv sock).Step s a s') : SessionInv argv sock s' := by
  obtain ⟨enabled,run⟩ := move
  cases a with
  | pack =>
    simp only [remoteSystem, remoteExec] at run
    exact pack_inv inv enabled run
  | write n => exact Option.some.inj run ▸ write_inv inv enabled
  | sendReturns =>
    cases run
    exact send_returns_inv inv enabled
  | hangUp =>
    cases run
    exact ⟨inv.packs.imp_right fun early => ⟨early.1,Or.inr rfl⟩,sent_part inv.sends,
      ⟨fun _ => Or.inr rfl,fun _ => rfl⟩,received_kept inv.received enabled.2 rfl rfl rfl⟩
  | read n =>
    cases run
    exact ⟨inv.packs,inv.sends,inv.ended,read_received inv.received enabled⟩
  | readEnd =>
    cases run
    have early := read_end_received inv enabled
    exact ⟨inv.packs,inv.sends,inv.ended,early⟩
  | recvReturns => exact recv_returns_inv given inv enabled run

theorem remote_reach (given : argv ≠ []) (reach : (remoteSystem argv sock).Reach s) :
    SessionInv argv sock s := by
  refine inductive_reach ⟨?_,fun s a s' inv move => remote_step given inv move⟩ reach
  rintro s rfl
  exact ⟨Or.inr ⟨rfl,Or.inl rfl⟩,rfl,by simp,rfl,Nat.zero_le _⟩

/-- Only a packing that does not fit, and a decoding, could fault. -/
theorem remote_never_faults (given : argv ≠ []) (small : argvlen argv < 2 ^ 31) :
    (remoteSystem argv sock).NeverFaults := by
  intro s a reach enabled
  have inv := remote_reach given reach
  cases a with
  | pack =>
    simp only [remoteSystem, remoteExec, Session.pack, toInt_small small]
    simp
  | recvReturns =>
    obtain ⟨b,at',full⟩ := enabled
    simp only [remoteSystem, remoteExec, Session.recvReturns]
    cases phase : s.server with
    | length buf =>
      simp only
      split <;> rfl
    | args argl buf =>
      rw [phase] at at'
      cases at'
      simp only [(args_received inv phase full).1, Option.map_some, Option.isSome_some]
    | _ => rfl
  | _ => rfl

def Client.work (argv : List CString) : Client → Nat
  | .packing => sizeofInt + argvlen argv + 4
  | .length count => sizeofInt - count + argvlen argv + 3
  | .args count => argvlen argv - count + 2
  | .done | .gone => 0

def Server.work (argv : List CString) : Server → Nat
  | .length buf => sizeofInt - buf.length + argvlen argv + 3
  | .args _ buf => argvlen argv - buf.length + 2
  | .aborted | .failed | .executed _ => 0

def Session.work (argv : List CString) (s : Session) : Nat :=
  s.client.work argv + s.server.work argv

theorem write_work {n : Nat}
    (enabled : ∃ m ∈ s.client.message argv, 1 ≤ n ∧ m.2 + n ≤ m.1.length) :
    (s.client.advance n).work argv < s.client.work argv := by
  obtain ⟨m,at',positive,fits⟩ := enabled
  cases phase : s.client with
  | length count =>
    rw [phase] at at'
    cases at'
    simp only [int_bytes_length] at fits
    simp only [Client.advance, Client.work]
    omega
  | args count =>
    rw [phase] at at'
    cases at'
    simp only [argvpack_bytes, ← argvlen_packed] at fits
    simp only [Client.advance, Client.work]
    omega
  | _ =>
    rw [phase] at at'
    cases at'

theorem read_work {n : Nat} (received : s.Received argv sock)
    (enabled : ∃ b ∈ s.server.buffer, 1 ≤ n ∧ b.2.length + n ≤ b.1 ∧ n ≤ s.wire.length) :
    (s.server.store (s.wire.take n)).work argv < s.server.work argv := by
  obtain ⟨b,at',positive,fits,there⟩ := enabled
  cases phase : s.server with
  | length buf =>
    rw [phase] at at'
    cases at'
    have fits : buf.length + n ≤ sizeofInt := fits
    simp only [Server.store, Server.work, List.length_append,
      List.length_take_of_le there]
    omega
  | args argl buf =>
    rw [phase] at at'
    cases at'
    simp only [Session.Received, phase] at received
    simp only [received.1, Int.toNat_natCast] at fits
    simp only [Server.store, Server.work, List.length_append,
      List.length_take_of_le there]
    omega
  | _ =>
    rw [phase] at at'
    cases at'

/-- Every step comes nearer to the end. -/
theorem remote_work {a : RemoteAction} (inv : SessionInv argv sock s)
    (move : (remoteSystem argv sock).Step s a s') : s'.work argv < s.work argv := by
  obtain ⟨enabled,run⟩ := move
  cases a with
  | pack =>
    have start : s.client = .packing := enabled
    simp only [remoteSystem, remoteExec, Session.pack] at run
    split at run
    · cases run
    · cases run
      simp only [Session.work, start, Client.work]
      omega
  | write n =>
    cases run
    exact Nat.add_lt_add_right (write_work enabled) _
  | sendReturns =>
    cases run
    obtain ⟨m,at',_⟩ := enabled
    cases phase : s.client with
    | length count | args count =>
      simp only [Session.work, Session.sendReturns, phase, Client.work]
      omega
    | _ =>
      rw [phase] at at'
      cases at'
  | hangUp =>
    cases run
    obtain ⟨undone,here⟩ := enabled
    cases phase : s.client with
    | packing | length count | args count =>
      simp only [Session.work, phase, Client.work]
      omega
    | done => exact absurd phase undone
    | gone => exact absurd phase here
  | read n =>
    cases run
    exact Nat.add_lt_add_left (read_work inv.received enabled) _
  | readEnd =>
    cases run
    obtain ⟨⟨b,at',_⟩,_⟩ := enabled
    cases phase : s.server with
    | length buf | args argl buf =>
      simp only [Session.work, phase, Server.work]
      omega
    | _ =>
      rw [phase] at at'
      cases at'
  | recvReturns =>
    obtain ⟨b,at',full⟩ := enabled
    simp only [remoteSystem, remoteExec, Session.recvReturns] at run
    cases phase : s.server with
    | length buf =>
      simp only [phase] at run
      split at run <;> cases run <;> simp [Session.work, phase, Server.work]
    | args argl buf =>
      simp only [phase] at run
      obtain ⟨strings,_,rfl⟩ := Option.map_eq_some_iff.mp run
      simp only [Session.work, phase, Server.work]
      omega
    | _ =>
      rw [phase] at at'
      cases at'

theorem remote_runs_work {as : List RemoteAction} (given : argv ≠ [])
    (inv : SessionInv argv sock s) (runs : (remoteSystem argv sock).Runs s as s') :
    s'.work argv + as.length ≤ s.work argv := by
  induction runs with
  | nil => exact le_refl _
  | cons move rest ih =>
    have less := remote_work inv move
    have later := ih (remote_step given inv move)
    rw [List.length_cons]
    omega

/- Nothing is left to do for a client that does not break off. -/
def Stuck (argv : List CString) (sock : Fid) (s : Session) : Prop :=
  ∀ a s', a ≠ .hangUp → ¬ (remoteSystem argv sock).Step s a s'

/-- The client goes on until it is done. -/
theorem client_goes_on (inv : SessionInv argv sock s) (going : s.client ≠ .done)
    (here : s.client ≠ .gone) : ∃ a, a ≠ .hangUp ∧ RemoteEnabled argv s a := by
  have next {m : List Byte × Nat} (at' : m ∈ s.client.message argv) (few : m.2 ≤ m.1.length) :
      ∃ a, a ≠ .hangUp ∧ RemoteEnabled argv s a := by
    rcases Nat.lt_or_eq_of_le few with short | full
    · exact ⟨.write 1,by simp,m,at',le_refl 1,short⟩
    · exact ⟨.sendReturns,by simp,m,at',full⟩
  have sends := inv.sends
  cases phase : s.client with
  | packing => exact ⟨.pack,by simp,phase⟩
  | length count =>
    rw [phase] at sends
    exact next (by rw [phase]; rfl) (by simpa using sends.1)
  | args count =>
    rw [phase] at sends
    refine next (by rw [phase]; rfl) ?_
    rw [argvpack_bytes, ← argvlen_packed]
    exact sends.1
  | done => exact absurd phase going
  | gone => exact absurd phase here

/-- When nothing is left to do the server is out of its loops. -/
theorem stuck_ends (inv : SessionInv argv sock s) (faultless : ∀ a, RemoteEnabled argv s a →
    (remoteExec argv sock s a).isSome) (stuck : Stuck argv sock s) :
    s.server.buffer = none ∧ (s.client = .done ∨ s.client = .gone) := by
  have blocked (a : RemoteAction) (stays : a ≠ .hangUp) : ¬ RemoteEnabled argv s a := by
    intro enabled
    obtain ⟨s',run⟩ := Option.isSome_iff_exists.mp (faultless a enabled)
    exact stuck a s' stays ⟨enabled,run⟩
  have over' : s.client = .done ∨ s.client = .gone := by
    by_contra going
    rw [not_or] at going
    obtain ⟨a,stays,enabled⟩ := client_goes_on inv going.1 going.2
    exact blocked a stays enabled
  refine ⟨?_,over'⟩
  cases buffer : s.server.buffer with
  | none => rfl
  | some b =>
    have received := inv.received
    have few : b.2.length ≤ b.1 := by
      unfold Session.Received at received
      cases phase : s.server with
      | length buf =>
        rw [phase] at buffer received
        cases buffer
        exact received.2
      | args argl buf =>
        rw [phase] at buffer received
        cases buffer
        obtain ⟨rfl,_,_,short⟩ := received
        simpa using short
      | _ =>
        rw [phase] at buffer
        cases buffer
    rcases Nat.lt_or_eq_of_le few with short | full
    · cases wire : s.wire with
      | nil => exact absurd ⟨⟨b,buffer,short⟩,wire,inv.ended.mpr over'⟩ (blocked .readEnd (by simp))
      | cons x rest =>
        exact absurd ⟨b,buffer,le_refl 1,short,by simp [wire]⟩ (blocked (.read 1) (by simp))
    · exact absurd ⟨b,buffer,full⟩ (blocked .recvReturns (by simp))

/- The pointers to the strings of the longest request, and to the two arguments before them. -/
abbrev requestRoom : Nat := sizeofPointer * (maxRequest + 2)

/- The request survives every way the socket splits it, and every run comes to its end; when the
   client breaks off before the announced bytes nothing is executed. -/
structure Served (argv : List CString) (sock : Fid) : Prop where
  faultless : (remoteSystem argv sock).NeverFaults
  asserted : ∀ s, (remoteSystem argv sock).Reach s → s.server ≠ .aborted
  executed : ∀ s v, (remoteSystem argv sock).Reach s → s.server = .executed v →
    v = rsrvArgs sock argv ∧ ∀ prog, ∀ room : StackRoom, requestRoom ≤ room → ∃ call,
      execWrapper room (packedLength v) (some (executeArgs prog v)) = some call ∧ call.Is prog v
  finishes : ∀ s₀ as s, (remoteSystem argv sock).start s₀ → (remoteSystem argv sock).Runs s₀ as s →
    as.length ≤ 2 * argvlen argv + 15 ∧
      (Stuck argv sock s → s.client ≠ .gone → s.server = .executed (rsrvArgs sock argv))
  truncated : ∀ s, (remoteSystem argv sock).Reach s → s.client = .gone →
    s.sent.length < (request argv).length →
      (∀ v, s.server ≠ .executed v) ∧ (Stuck argv sock s → s.server = .failed)
  failed : ∀ s, (remoteSystem argv sock).Reach s → s.server = .failed →
    s.client = .gone ∧ s.sent.length < (request argv).length

theorem short_request_served (given : argv ≠ []) (sock : Fid) (short : argvlen argv ≤ maxRequest) :
    Served argv sock := by
  have small : argvlen argv < 2 ^ 31 := Nat.lt_of_le_of_lt short (by decide)
  have faultless := @remote_never_faults argv sock given small
  have asserted (s : Session) (reach : (remoteSystem argv sock).Reach s) : s.server ≠ .aborted := by
    intro phase
    have received := (remote_reach given reach).received
    simp only [Session.Received, phase] at received
    omega
  have failed (s : Session) (reach : (remoteSystem argv sock).Reach s)
      (phase : s.server = .failed) :
      s.client = .gone ∧ s.sent.length < (request argv).length := by
    have received := (remote_reach given reach).received
    simpa only [Session.Received, phase] using received
  have executed (s : Session) (v : List CString) (reach : (remoteSystem argv sock).Reach s)
      (phase : s.server = .executed v) : v = rsrvArgs sock argv ∧ s.sent = request argv := by
    have received := (remote_reach given reach).received
    simpa only [Session.Received, phase] using received
  have ends (s : Session) (reach : (remoteSystem argv sock).Reach s) (stuck : Stuck argv sock s) :
      s.server = .failed ∨ s.server = .executed (rsrvArgs sock argv) := by
    have out := (stuck_ends (remote_reach given reach) (fun a => faultless s a reach) stuck).1
    cases phase : s.server with
    | length buf | args argl buf =>
      rw [phase] at out
      cases out
    | aborted => exact absurd phase (asserted s reach)
    | failed => exact Or.inl rfl
    | executed v => exact Or.inr (by rw [(executed s v reach phase).1])
  refine ⟨faultless,asserted,fun s v reach phase => ?_,fun s₀ as s first runs => ?_,
    fun s reach gone less => ?_,failed⟩
  · obtain ⟨rfl,_⟩ := executed s v reach phase
    have length := rsrv_args_length sock argv
    have fits : packedLength (rsrvArgs sock argv) < 2 ^ 31 := by
      simp only [maxRequest] at short
      omega
    have pointers : sizeofPointer * (rsrvArgs sock argv).length ≤ requestRoom := by
      have few := List.count_le_length (a := (0 : Byte)) (l := packed argv)
      rw [packed_zeros, ← argvlen_packed] at few
      exact Nat.mul_le_mul_left _ (Nat.add_le_add_right (few.trans short) 2)
    exact ⟨rfl,fun prog room enough => (exec_wrapper_calls fits room).mpr (pointers.trans enough)⟩
  · have reach := runs_reach runs (.start first)
    have work := remote_runs_work given (remote_reach given (.start first)) runs
    refine ⟨?_,fun stuck here => (ends s reach stuck).resolve_left fun phase =>
      here (failed s reach phase).1⟩
    have start : s₀.work argv = 2 * argvlen argv + 15 := by
      rw [show s₀ = _ from first]
      simp only [Session.work, Client.work, Server.work, sizeofInt, List.length_nil]
      omega
    omega
  · have unexecuted (v : List CString) : s.server ≠ .executed v := by
      intro phase
      rw [(executed s v reach phase).2] at less
      exact Nat.lt_irrefl _ less
    exact ⟨unexecuted,fun stuck => (ends s reach stuck).resolve_right (unexecuted _)⟩

/-- The client sends a length of any size, but the server asserts its own limit. -/
theorem long_request_aborts (argv : List CString) (sock : Fid) (small : argvlen argv < 2 ^ 31)
    (long : maxRequest < argvlen argv) :
    ∃ s, (remoteSystem argv sock).Reach s ∧ s.server = .aborted := by
  let bytes := intBytes (argvlen argv)
  let sent : Session :=
    { client := .length 4, sent := bytes, wire := bytes, ended := false, server := .length [] }
  have length : bytes.length = 4 := int_bytes_length _
  have start : (remoteSystem argv sock).Reach
      { client := .packing, sent := [], wire := [], ended := false, server := .length [] } :=
    .start rfl
  have packed : (remoteSystem argv sock).Reach
      { client := .length 0, sent := [], wire := [], ended := false, server := .length [] } := by
    refine start.step (a := .pack) ⟨rfl,?_⟩
    simp [remoteSystem, remoteExec, Session.pack, toInt_small small]
  have written : (remoteSystem argv sock).Reach sent := by
    refine packed.step (a := .write 4) ⟨⟨_,rfl,by decide,by simp⟩,?_⟩
    have chunk : Client.chunk argv 4 (.length 0) = bytes := by
      simp only [Client.chunk, Client.message, List.drop_zero, toInt_small small]
      exact List.take_of_length_le length.le
    simp only [remoteSystem, remoteExec, chunk]
    rfl
  have read : (remoteSystem argv sock).Reach
      { sent with wire := bytes.drop 4, server := .length (bytes.take 4) } :=
    written.step (a := .read 4) ⟨⟨_,rfl,by decide,by decide,length.ge⟩,rfl⟩
  have whole : bytes.take 4 = bytes := List.take_of_length_le length.le
  have value : intValue bytes = argvlen argv := int_value_bytes small
  refine ⟨{ sent with wire := bytes.drop 4, server := .aborted },
    read.step (a := .recvReturns) ⟨⟨_,rfl,by rw [whole]; exact length⟩,?_⟩,rfl⟩
  simp only [remoteSystem, remoteExec, Session.recvReturns, whole, value]
  rw [if_neg (by omega)]

/-- A request is served exactly if its strings fit the limit of the server. -/
theorem remote_request_served_iff (given : argv ≠ []) (sock : Fid) :
    Served argv sock ↔ argvlen argv ≤ maxRequest := by
  refine ⟨fun served => ?_,short_request_served given sock⟩
  by_contra long
  have long' : maxRequest < argvlen argv := Nat.not_le.mp long
  by_cases small : argvlen argv < 2 ^ 31
  · obtain ⟨s,reach,phase⟩ := long_request_aborts argv sock small long'
    exact served.asserted s reach phase
  · have below := toInt_below (argvlen argv)
    have packs := served.faultless _ .pack (.start rfl) rfl
    simp only [remoteSystem, remoteExec, Session.pack] at packs
    rw [if_pos (by omega)] at packs
    cases packs

def lsCommand : List CString := [⟨charBytes "ls".toList,by decide⟩]

theorem remote_request_served_ls : Served lsCommand 2 :=
  (remote_request_served_iff (by decide) 2).mpr (by decide)

def longCommand : List CString := [⟨List.replicate 2048 97,fun member => by
  cases List.eq_of_mem_replicate member⟩]

theorem remote_request_long : ¬ Served longCommand 2 := by
  intro served
  have length : argvlen longCommand = 2049 := by
    rw [argvlen_packed, longCommand, packed_cons, packed_nil, List.length_append,
      List.length_replicate, List.length_singleton]
  obtain ⟨s,reach,phase⟩ := long_request_aborts longCommand 2
    (by rw [length]; decide) (by rw [length]; decide)
  exact served.asserted s reach phase

end Stream
end RemoteShell
