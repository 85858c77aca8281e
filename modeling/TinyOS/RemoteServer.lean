import TinyOS.Transition
import TinyOS.Monitor

/- The threads of RemoteServer in tinyos_shell.c: the console, the listener and one thread for each
   connection, over the globals that are a variable of the console's function. What a client and its
   server say to each other is in RemoteShell. -/
namespace RemoteServer
open Transition Monitor

inductive Message where
  | failedAccept
  | started (id : UInt64)
  | receiveError (id : UInt64)
  | finished (id : UInt64) (status : Int)
  deriving DecidableEq, Repr

structure LogRec where
  num : UInt64
  message : Message
  deriving DecidableEq, Repr

/- In rsrv_client: at and inside its first section, in log_message, in the two recv_message, from
   Execute to WaitChild, and in the section at finish, with what it has read of active_conn. -/
inductive Client where
  | idLock
  | idInside
  | logLock (id : UInt64) (message : Message)
  | logInside (id : UInt64) (message : Message)
  | receiving (id : UInt64) (args : Bool)
  | executing (id : UInt64)
  | finishLock
  | finishRead
  | finishWrite (active : UInt64)
  | finishBroadcast
  | finishUnlock
  | returned
  deriving DecidableEq, Repr

/- In rsrv_listener_thread: at Socket and Listen, in Accept, at the test of quit, in log_message, in
   active_conn++ and total_conn++, and at CreateThread. -/
inductive Listener where
  | opening
  | accepting
  | testQuit
  | logLock
  | logInside
  | readActive
  | writeActive (active : UInt64)
  | countTotal
  | create
  | returned
  deriving DecidableEq, Repr

/- In RemoteServer: at the console, in log_print, after the command q at Close and ThreadJoin, in
   the section that waits for active_conn, and in log_truncate, with what it has yet to free. -/
inductive Console where
  | reading
  | printLock
  | printInside
  | closing
  | joining
  | waitLock
  | testing
  | asleep
  | relock
  | unlocking
  | truncateLock
  | truncateInside
  | freeing (list : List LogRec)
  | returned (atEof : Bool)
  deriving DecidableEq, Repr

inductive Party where
  | console | listener | client (n : Nat)
  deriving DecidableEq, Repr

/- `stored` says whether listener_socket has been assigned, and `closed` whether it has been closed;
   `woken` whether the console, asleep on conn_done, has been signalled. The last five are history:
   the clients in the order in which they took an id, the records that have been logged and those
   that have been freed, whether listener_socket was closed before it was assigned, and whether a
   thread has used the globals after RemoteServer returned. -/
structure Globals where
  quit : Bool
  stored : Bool
  closed : Bool
  activeConn : UInt64
  totalConn : UInt64
  connIdCounter : UInt64
  log : List LogRec
  logcount : UInt64
  mx : Option Party
  woken : Bool
  console : Console
  listener : Listener
  clients : List Client
  ids : List Nat
  records : List LogRec
  freed : List LogRec
  stray : Bool
  late : Bool

inductive Command where
  | quit | statistics | help | list | unknown | eof
  deriving DecidableEq, Repr

/- `accept` is the return of an Accept, `receive` that of a recv_message and `exit` that of
   WaitChild; `console`, `listener` and `client` are their other steps. -/
inductive Action where
  | command (c : Command)
  | console
  | listen (ok : Bool)
  | accept (ok : Bool)
  | listener
  | receive (n : Nat) (ok : Bool)
  | exit (n : Nat) (status : Int)
  | client (n : Nat)
  deriving DecidableEq, Repr

def Console.Returned : Console → Bool
  | .returned _ => true
  | _ => false

def Globals.setClient (s : Globals) (n : Nat) (c : Client) : Globals :=
  { s with clients := s.clients.set n c }

/- A use of the globals. -/
def Globals.touch (s : Globals) : Globals := { s with late := s.late || s.console.Returned }

/- The section of log_message. -/
def logMessage (s : Globals) (message : Message) : Globals :=
  { s with
    logcount := s.logcount + 1
    log := s.log ++ [⟨s.logcount + 1,message⟩]
    records := s.records ++ [⟨s.logcount + 1,message⟩]
    mx := none }

/- What rsrv_client does after it has logged a message. -/
def afterLog (id : UInt64) : Message → Client
  | .started _ => .receiving id false
  | .failedAccept | .receiveError _ | .finished _ _ => .finishLock

def command (s : Globals) : Command → Globals
  | .quit => { s with quit := true, console := .closing }
  | .list => { s with console := .printLock }
  | .eof => { s with console := .returned true }
  | .statistics | .help | .unknown => s

def consoleStep (s : Globals) : Option Globals :=
  match s.console with
  | .reading | .returned _ => none
  -- log_print
  | .printLock => some { s with mx := some .console, console := .printInside }
  | .printInside => some { s with mx := none, console := .reading }
  -- the command q
  | .closing =>
    if s.stored then some { s with closed := true, console := .joining }
    else some { s with stray := true, console := .joining }
  | .joining => some { s with console := .waitLock }
  | .waitLock | .relock => some { s with mx := some .console, console := .testing }
  | .testing =>
    if s.activeConn > 0 then some { s with mx := none, woken := false, console := .asleep }
    else some { s with console := .unlocking }
  | .asleep => some { s with console := .relock }
  | .unlocking => some { s with mx := none, console := .truncateLock }
  -- log_truncate
  | .truncateLock => some { s with mx := some .console, console := .truncateInside }
  | .truncateInside => some { s with mx := none, log := [], console := .freeing s.log }
  | .freeing [] => some { s with console := .returned false }
  | .freeing (r :: list) => some { s with freed := s.freed ++ [r], console := .freeing list }

def listenerStep (s : Globals) : Option Globals :=
  match s.listener with
  | .opening | .accepting | .returned => none
  | .testQuit =>
    if s.quit then some { s.touch with listener := .returned }
    else some { s.touch with listener := .logLock }
  | .logLock => some { s.touch with mx := some .listener, listener := .logInside }
  | .logInside => some { (logMessage s.touch .failedAccept) with listener := .accepting }
  | .readActive => some { s.touch with listener := .writeActive s.activeConn }
  | .writeActive active => some { s.touch with activeConn := active + 1, listener := .countTotal }
  | .countTotal => some { s.touch with totalConn := s.totalConn + 1, listener := .create }
  | .create => some { s with clients := s.clients ++ [.idLock], listener := .accepting }

/- Cond_Broadcast(&conn_done) -/
def broadcast (s : Globals) : Globals :=
  { s with woken := s.woken || s.console = .asleep }

def clientStep (s : Globals) (n : Nat) : Option Globals :=
  match s.clients[n]? with
  | none | some (.receiving _ _) | some (.executing _) | some .returned => none
  | some .idLock => some { s.touch.setClient n .idInside with mx := some (.client n) }
  | some .idInside =>
    some
      { s.touch.setClient n (.logLock (s.connIdCounter + 1) (.started (s.connIdCounter + 1))) with
        connIdCounter := s.connIdCounter + 1, ids := s.ids ++ [n], mx := none }
  | some (.logLock id message) =>
    some { s.touch.setClient n (.logInside id message) with mx := some (.client n) }
  | some (.logInside id message) =>
    some ((logMessage s.touch message).setClient n (afterLog id message))
  | some .finishLock => some { s.touch.setClient n .finishRead with mx := some (.client n) }
  | some .finishRead => some (s.touch.setClient n (.finishWrite s.activeConn))
  | some (.finishWrite active) =>
    some { s.touch.setClient n .finishBroadcast with activeConn := active - 1 }
  | some .finishBroadcast => some ((broadcast s.touch).setClient n .finishUnlock)
  | some .finishUnlock => some { s.touch.setClient n .returned with mx := none }

def receive (s : Globals) (n : Nat) (ok : Bool) : Option Globals :=
  match s.clients[n]? with
  | some (.receiving id args) =>
    if ok then
      if args then some (s.setClient n (.executing id))
      else some (s.setClient n (.receiving id true))
    else some (s.setClient n (.logLock id (.receiveError id)))
  | _ => none

def exit (s : Globals) (n : Nat) (status : Int) : Option Globals :=
  match s.clients[n]? with
  | some (.executing id) => some (s.setClient n (.logLock id (.finished id status)))
  | _ => none

def act (s : Globals) : Action → Option Globals
  | .command c => some (command s c)
  | .console => consoleStep s
  | .listen ok =>
    if ok then some { s.touch with stored := true, listener := .accepting }
    else some { s with listener := .returned }
  | .accept ok => some { s with listener := if ok then .readActive else .testQuit }
  | .listener => listenerStep s
  | .receive n ok => receive s n ok
  | .exit n status => exit s n status
  | .client n => clientStep s n

/- At a Mutex_Lock of mx. -/
def Console.Locks : Console → Bool
  | .printLock | .waitLock | .relock | .truncateLock => true
  | _ => false

def Client.Locks : Client → Bool
  | .idLock | .logLock _ _ | .finishLock => true
  | _ => false

def Client.Receives : Client → Bool
  | .receiving _ _ => true
  | _ => false

def Client.Executes : Client → Bool
  | .executing _ => true
  | _ => false

def Client.Steps (s : Globals) (c : Client) : Bool :=
  !c.Receives && !c.Executes && c ≠ .returned && (!c.Locks || s.mx = none)

def Listener.Steps : Listener → Bool
  | .opening | .accepting | .returned => false
  | _ => true

def Console.Steps (s : Globals) : Console → Bool
  | .reading | .returned _ => false
  | .asleep => s.woken
  | .joining => s.listener = .returned
  | _ => true

def Enabled (s : Globals) : Action → Prop
  | .command _ => s.console = .reading
  | .console => s.console.Steps s = true ∧ (s.console.Locks = true → s.mx = none)
  | .listen _ => s.listener = .opening
  | .accept _ => s.listener = .accepting
  | .listener => s.listener.Steps = true ∧ (s.listener = .logLock → s.mx = none)
  | .receive n _ => (s.clients[n]?).any Client.Receives = true
  | .exit n _ => (s.clients[n]?).any Client.Executes = true
  | .client n => (s.clients[n]?).any (·.Steps s) = true

instance enabledDecidable (s : Globals) (a : Action) : Decidable (Enabled s a) :=
  match a with
  | .command _ => inferInstanceAs (Decidable (s.console = .reading))
  | .console => inferInstanceAs (Decidable (_ ∧ (_ → _)))
  | .listen _ => inferInstanceAs (Decidable (s.listener = .opening))
  | .accept _ => inferInstanceAs (Decidable (s.listener = .accepting))
  | .listener => inferInstanceAs (Decidable (_ ∧ (_ → _)))
  | .receive n _ => inferInstanceAs (Decidable ((s.clients[n]?).any Client.Receives = true))
  | .exit n _ => inferInstanceAs (Decidable ((s.clients[n]?).any Client.Executes = true))
  | .client n => inferInstanceAs (Decidable ((s.clients[n]?).any (·.Steps s) = true))

/- At the first command; the listener has been created. -/
def initial : Globals where
  quit := false
  stored := false
  closed := false
  activeConn := 0
  totalConn := 0
  connIdCounter := 0
  log := []
  logcount := 0
  mx := none
  woken := false
  console := .reading
  listener := .opening
  clients := []
  ids := []
  records := []
  freed := []
  stray := false
  late := false

def serverSystem : Machine Globals Action where
  start s := s = initial
  enabled := Enabled
  exec := act

instance serverSystemDecidable (s : Globals) (a : Action) :
    Decidable (serverSystem.enabled s a) := inferInstanceAs (Decidable (Enabled s a))

end RemoteServer
