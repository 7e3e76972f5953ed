import SysHelo.SharedBuffer
import SysHelo.Lib.System

/-! Clients with their sessions and calls, and the server that they reach; and the service that they are to
see, which carries out one call after the other. -/
namespace SysHelo
open CString Stdio Loop MinIni IpcService

/-- The wait says that there is something from a session. -/
def KernelAnswers.Names (k : KernelAnswers) (server : IpcServer) (session : Handle) : Prop :=
  k.waitResult = 0 ∧ 0 < k.handleIndex ∧ server.table[k.handleIndex.toNat]? = some session

/-- A call that a client waits in: the stub, with the client's buffer and structure. -/
structure Call where
  stub : Stub
  dataWords : Nat
  client : Memory
  out : Memory

namespace Call

/-- The message in the buffer of the client. -/
def sent (call : Call) : TlsMessage := serviceMakeRequest call.dataWords call.stub.dispatch call.client

/-- The message in the buffer of the server, which held `tls` before. -/
def received (call : Call) (tls : Memory) : TlsMessage := call.sent.deliver tls

/-- What the stub gives back when this reply is in the buffer of the server. -/
def answer (call : Call) (tls : Memory) (content : Reply (List UInt8)) : Option (Result × Option OutData) :=
  call.stub.receive call.out ((content.stored (call.received tls).tls).deliver call.sent.tls)

end Call

/-- A call that has come back, and what it gave: nothing when what came back was no response. -/
structure Answer (ι : Type) where
  client : ι
  stub : Stub
  given : Option (Result × Option OutData)

/-- The calls in the order in which they were sent, the number of the last one of each client, and the numbers
of those that have been answered, in that order, and of those whose client has gone. -/
structure Ledger (ι : Type) where
  sent : List (ι × Stub)
  last : ι → Nat
  answered : List Nat
  givenUp : List Nat

/-- The server with what it works on, and the clients: the session of each that has one, as the server knows
it, the call that it waits in, and the answers in the order in which they were given. For what is said about a
run: its calls. -/
structure Network (ι : Type) where
  server : IpcServer
  state : State
  sessions : ι → Option Handle
  calls : ι → Option Call
  answers : List (Answer ι)
  ledger : Ledger ι

/-- The reply that is sent to a session. -/
def replyTo (h : Handle) (events : List (IpcEvent α)) : Option (Reply α) :=
  events.findSome? fun event => match event with
    | .reply session content => if session = h then some content else none
    | _ => none

/-- What the main thread and other programs do meanwhile. -/
inductive Meanwhile : State → State → Prop where
  | contextRefreshed (applicationId : UInt64) :
      Meanwhile state { state with mgr := (state.mgr.refreshContext applicationId).1 }
  | configRefreshed (stack : Chars INI_BUFFERSIZE) (stat stat' : Option Int) (file : Option ReadFile) :
      Meanwhile state { state with
        mgr := { state.mgr with config := (state.mgr.config.refresh stack stat stat' file).1 } }
  | edited (files : Files) : Meanwhile state { state with files }

/-- The manager when the service is started. -/
def HeloManager.started : HeloManager :=
  { HeloManager.create.setRunning true with config := Config.createDefault.setEnabled true }

section
variable {ι : Type} [DecidableEq ι] (targetVersion : List UInt8)

namespace Ledger

def send (c : ι) (stub : Stub) (ledger : Ledger ι) : Ledger ι := { ledger with
  sent := ledger.sent ++ [(c, stub)]
  last := Function.update ledger.last c ledger.sent.length }

def answer (c : ι) (ledger : Ledger ι) : Ledger ι :=
  { ledger with answered := ledger.answered ++ [ledger.last c] }

def giveUp (c : ι) (ledger : Ledger ι) : Ledger ι :=
  { ledger with givenUp := ledger.givenUp ++ [ledger.last c] }

end Ledger

namespace Network

/-- A client that waits comes back with what the reply gives, if there is one. -/
def receives (c : ι) (call : Call) (tls : Memory) (reply : Option (Reply (List UInt8))) (n : Network ι) :
    Network ι :=
  match reply with
  | some content => { n with
      calls := Function.update n.calls c none
      answers := n.answers ++ [⟨c, call.stub, call.answer tls content⟩]
      ledger := n.ledger.answer c }
  | none => n

/-- A client takes a session, sends a call, or goes and leaves its session to the server; the server takes one
turn. What the kernel reports of a client's session is the call that the client waits in, and a client that
waits is there for the reply; of a session that no client has it may report anything. -/
inductive Step : Network ι → Network ι → Prop where
  | sent (connected : n.sessions c = some h) (idle : n.calls c = none) (call : Call) :
      Step n { n with
        calls := Function.update n.calls c (some call)
        ledger := n.ledger.send c call.stub }
  | left (c : ι) :
      Step n { n with
        sessions := Function.update n.sessions c none
        calls := Function.update n.calls c none
        ledger := if (n.calls c).isSome then n.ledger.giveUp c else n.ledger }
  | meanwhile (changed : Meanwhile n.state state') : Step n { n with state := state' }
  | connected (c : ι) {server : IpcServer} {events : List (IpcEvent (List UInt8))}
      (unconnected : n.sessions c = none)
      (index : k.waitResult = 0 ∧ k.handleIndex = 0 ∧ k.acceptResult = 0) (fresh : k.session ∉ n.server.table)
      (returns : Returns (ipcServerProcess (byteHandler targetVersion stack o data) k n.server n.state)
        (server, state', rc, events)) :
      Step n { n with
        server
        state := state'
        sessions := Function.update n.sessions c (if rc = 0 then some k.session else none) }
  | turned (c : ι) {server : IpcServer} {events : List (IpcEvent (List UInt8))}
      (connected : n.sessions c = some h) (waiting : n.calls c = some call)
      (named : k.Names n.server h) (delivered : k.replied = 0)
      (received : k.receiveResult = 0 ∧ k.message = (call.received tls).message)
      (returns : Returns (ipcServerProcess (byteHandler targetVersion stack o data) k n.server n.state)
        (server, state', rc, events)) :
      Step n (receives c call tls (replyTo h events) { n with server, state := state' })
  | served {server : IpcServer} {events : List (IpcEvent (List UInt8))}
      (others : ∀ c h, n.sessions c = some h → ¬ k.Names n.server h)
      (fresh : k.handleIndex = 0 → k.session ∉ n.server.table)
      (returns : Returns (ipcServerProcess (byteHandler targetVersion stack o data) k n.server n.state)
        (server, state', rc, events)) :
      Step n { n with server, state := state' }

/-- The service has been registered, and nobody has a session. -/
inductive Start : Network ι → Prop where
  | init {before server : IpcServer} {events : List (IpcEvent (List UInt8))} (files : Files)
      (initialised : ipcServerInit before srvName 42 registerResult port = (server, 0, events)) :
      Start ⟨server, ⟨.started, files⟩, fun _ => none, fun _ => none, [], ⟨[], fun _ => 0, [], []⟩⟩

def system : System (Network ι) := ⟨Start, Step targetVersion⟩

end Network

/-! The service without messages, sessions and handles. -/

/-- A call that has been carried out: its method's result and output. -/
structure Performed (ι : Type) where
  client : ι
  stub : Stub
  result : Result
  output : Option OutData

/-- What the client of a call that has been carried out is to get. -/
def Performed.answer (performed : Performed ι) : Answer ι :=
  ⟨performed.client, performed.stub, some (performed.result, performed.output)⟩

structure Service (ι : Type) where
  state : State
  performed : List (Performed ι)

namespace Service

/-- A call of a client is one step. So is a request that is none of theirs. -/
inductive Step : Service ι → Service ι → Prop where
  | performed (c : ι) (returns : Returns (stub.method stack o s.state) (state', result, output)) :
      Step s ⟨state', s.performed ++ [⟨c, stub, result, output⟩]⟩
  | requested (returns : Returns (serviceHandlerFunc targetVersion stack o r s.state) (state', response)) :
      Step s { s with state := state' }
  | meanwhile (changed : Meanwhile s.state state') : Step s { s with state := state' }

def system : System (Service ι) where
  start s := s.state.mgr = .started ∧ s.performed = []
  step := Step targetVersion

end Service

end

end SysHelo
