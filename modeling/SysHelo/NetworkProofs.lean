import Mathlib.Data.List.Nodup
import SysHelo.Acknowledged
import SysHelo.Network

/-! Whatever the order in which clients come, call and go, they see the service that carries out one call
after the other. -/
namespace SysHelo
open CString Stdio Loop MinIni IpcService IpcServer

theorem stored_prepared (rc : Result) (bytes : List UInt8) (tls : Memory) :
    (ipcServerPrepareResponse rc (some bytes) bytes.length).stored tls = prepareResponse rc bytes tls := by
  by_cases success : rc = 0
  · subst success
    rfl
  · simp only [Reply.stored, prepareResponse, ipcServerPrepareResponse, storeResponse, success, if_false]

section
variable {targetVersion : List UInt8} {stack : Chars INI_BUFFERSIZE} {o : Outcomes} {state state' : State}
  {result : Result} {output : Option OutData}

theorem method_stable (s : Stub) (state : State) : Stable (s.method stack o state) := by
  cases s with
  | setConfigValues configValues => exact .bind (setConfigValues_stable _ _ _ _ _) fun _ => .pure _
  | _ => exact .pure _

/-- What a method gives is what the client reads out of its response. -/
theorem receive_method (s : Stub) (returns : Returns (s.method stack o state) (state', result, output))
    (data out tls tls' : Memory) :
    s.receive out
      ((prepareResponse result (Response.bytes ⟨result, output, s.dispatch.outSize⟩ data) tls).deliver
      tls') = some (result, output) := by
  obtain ⟨version, context, values⟩ := read_stored data
  cases s with
  | getAPIVersion =>
    obtain ⟨-, rfl, rfl⟩ := returns.unique (.pure _)
    exact receive_output _ (version _) ..
  | getCurrentContext =>
    obtain ⟨-, rfl, rfl⟩ := returns.unique (.pure _)
    exact receive_output _ (context _) ..
  | setEnabled enabled =>
    obtain ⟨-, rfl, rfl⟩ := returns.unique (.pure _)
    exact receive_none _ _ (fun _ _ => rfl) ..
  | getConfigValues =>
    have given : (state', result, output) = (state, (IpcService.getConfigValues state.mgr).1,
        (IpcService.getConfigValues state.mgr).2.map .configValues) := returns.unique (.pure _)
    obtain refused | ⟨list, found⟩ := getConfigValues_cases state.mgr
    · rw [refused] at given
      obtain ⟨-, rfl, rfl⟩ := given
      exact receive_none _ _ (fun success => absurd success (by decide)) ..
    · rw [found] at given
      obtain ⟨-, rfl, rfl⟩ := given
      exact receive_output _ (values list) ..
  | setConfigValues configValues =>
    obtain ⟨_, -, rest⟩ := (setConfigValues_stable _ _ _ _ _).bind_inv returns
    obtain ⟨-, -, rfl⟩ := rest.unique (.pure _)
    exact receive_none _ _ (fun _ _ => rfl) ..

/-- The server reads the request of a call, and the handler runs its method. -/
theorem call_request (targetVersion : List UInt8) (stack : Chars INI_BUFFERSIZE) (o : Outcomes) (call : Call)
    (tls : Memory) :
    ∃ r, ipcServerParseRequest (call.received tls).message = .ok r ∧ r.hipc.type = CmifCommandType_Request ∧
      ∀ state, serviceHandlerFunc targetVersion stack o r state = (do
        let (state, result, output) ← call.stub.method stack o state
        pure (state, ⟨result, output, call.stub.dispatch.outSize⟩)) := by
  have small := inData_lt call.stub
  have parsed := serviceMakeRequest_parsed call.dataWords call.client tls small
  have argument := serviceMakeRequest_argument call.dataWords call.client tls small
  have enough : call.stub.dispatch.inData.length ≤
      (35 + call.stub.dispatch.inData.length) / 4 * 4 - RAW_HEADER_SIZE := by
    rw [RAW_HEADER_SIZE]
    omega
  refine ⟨_, ?_, rfl, fun state =>
    serviceHandlerFunc_stub targetVersion stack o state call.stub enough argument⟩
  rw [parseRequest_message]
  exact congrArg (Except.map _) parsed

variable {data : Memory} {call : Call} {r : IpcServerRequest}

theorem respond_call (request : r.hipc.type = CmifCommandType_Request)
    (handled : serviceHandlerFunc targetVersion stack o r state = (do
      let (state, result, output) ← call.stub.method stack o state
      pure (state, ⟨result, output, call.stub.dispatch.outSize⟩)))
    (returns : Returns (call.stub.method stack o state) (state', result, output)) (data tls : Memory) :
    ∃ content, Returns (ipcServerRespond (byteHandler targetVersion stack o data) r state)
        (state', content, false) ∧
      call.answer tls content = some (result, output) := by
  let response : Response OutData := ⟨result, output, call.stub.dispatch.outSize⟩
  have size : (response.bytes data).length = response.dataSize := Memory.length_load _
  refine ⟨ipcServerPrepareResponse result (some (response.bytes data)) response.dataSize, ?_, ?_⟩
  · have carried : Returns (serviceHandlerFunc targetVersion stack o r state) (state', response) :=
      handled ▸ .bind returns (.pure _)
    unfold ipcServerRespond
    rw [if_pos request]
    exact .bind (.bind carried (.pure _)) (.pure _)
  · rw [Call.answer, ← size, stored_prepared]
    exact receive_method call.stub returns ..

theorem respond_any {content : Reply (List UInt8)} {close : Bool}
    (responded : Returns (ipcServerRespond (byteHandler targetVersion stack o data) r state)
      (state', content, close)) :
    state' = state ∨ ∃ response, Returns (serviceHandlerFunc targetVersion stack o r state)
      (state', response) := by
  unfold ipcServerRespond at responded
  split at responded
  · obtain ⟨⟨after, bytes⟩, handled, rest⟩ := (byteHandler_stable _ _ _ _ _ _).bind_inv responded
    obtain ⟨⟨served, response⟩, ran, given⟩ := (serviceHandlerFunc_stable _ _ _ _ _).bind_inv handled
    obtain ⟨rfl, -⟩ := rest.unique (.pure _)
    obtain ⟨rfl, -⟩ := given.unique (.pure _)
    exact .inr ⟨response, ran⟩
  · split at responded
    · exact .inl (Prod.mk.inj (responded.unique (.pure _))).1
    · exact .inl (Prod.mk.inj (responded.unique (.pure _))).1

end

section Turn
variable {α σ : Type} {handler : IpcServerRequestHandler σ α} {k : KernelAnswers} {userdata userdata' : σ}
  {server : IpcServer} {table table' : List Handle} {events : List (IpcEvent α)} {h : Handle} {most : Nat}

theorem turn_named (named : k.Names server h)
    (turn : Turn handler k most server.table userdata table' userdata' events) :
    ∃ closed later, events = .wait server.table :: later ∧ Served handler k h userdata userdata'
      later closed ∧
      table' = if closed then server.table.eraseIdx k.handleIndex.toNat else server.table := by
  obtain ⟨waited, positive, there⟩ := named
  have inside := (List.getElem?_eq_some_iff.mp there).1
  cases turn with
  | idle failed =>
    rcases failed with failed | below | beyond
    · exact absurd waited failed
    · omega
    · omega
  | unaccepted waited index | accepted waited index | refused waited index => omega
  | served waited index first session served =>
    rw [index, Int.toNat_natCast] at there ⊢
    obtain rfl := Option.some.inj (session.symm.trans there)
    exact ⟨_, _, rfl, served, rfl⟩

/-- A turn keeps every session but the one that it is spent on, and no handle comes twice. -/
theorem turn_keeps (turn : Turn handler k most server.table userdata table' userdata' events)
    (nodup : server.table.Nodup) (fresh : k.handleIndex = 0 → k.session ∉ server.table) :
    table'.Nodup ∧ ∀ h ∈ server.table.tail, ¬ k.Names server h → h ∈ table'.tail := by
  cases turn with
  | idle failed => exact ⟨nodup, fun h member _ => member⟩
  | unaccepted waited index port failed => exact ⟨nodup, fun h member _ => member⟩
  | refused waited index port taken full => exact ⟨nodup, fun h member _ => member⟩
  | accepted waited index port taken room =>
    have new := fresh index
    constructor
    · rw [List.nodup_append]
      refine ⟨nodup, List.nodup_singleton _, ?_⟩
      rintro a member b single rfl
      exact new (List.mem_singleton.mp single ▸ member)
    · intro h member _
      rw [List.tail_append_of_ne_nil (List.ne_nil_of_mem (List.mem_of_mem_tail member))]
      exact List.mem_append_left _ member
  | @served _ _ _ closed i waited index positive session served =>
    cases closed with
    | false => exact ⟨nodup, fun h member _ => member⟩
    | true =>
      refine ⟨nodup.eraseIdx i, fun h member other => ?_⟩
      have apart : server.table[i]? ≠ some h := by
        intro same
        refine other ⟨waited, by omega, ?_⟩
        rw [index, Int.toNat_natCast]
        exact same
      obtain ⟨j, rfl⟩ : ∃ j, i = j + 1 := ⟨i - 1, by omega⟩
      cases shape : server.table with
      | nil => simp [shape] at member
      | cons port rest =>
        rw [shape, List.tail_cons] at member
        rw [shape, List.getElem?_cons_succ] at apart
        simp only [if_true, List.eraseIdx_cons_succ, List.tail_cons]
        obtain ⟨position, there⟩ := List.mem_iff_getElem?.mp member
        refine List.mem_eraseIdx_iff_getElem?.mpr ⟨position, ?_, there⟩
        rintro rfl
        exact apart there

/-- A connection that is accepted is put behind the others, or is refused because the table is full. -/
theorem accept_turn {server' : IpcServer} {rc : Result} (sound : server.Sound)
    (index : k.waitResult = 0 ∧ k.handleIndex = 0 ∧ k.acceptResult = 0)
    (returns : Returns (ipcServerProcess handler k server userdata) (server', userdata', rc, events)) :
    userdata' = userdata ∧ server'.table = if rc = 0 then server.table ++ [k.session] else server.table := by
  obtain ⟨waited, port, taken⟩ := index
  have valid := sound.first_valid
  simp only [ipcServerProcess, waited, port, valid, and_false, if_false, if_true, ne_eq, not_true_eq_false,
    ipcServerProcessNewSession, taken] at returns
  by_cases room : server.count < server.max
  · obtain ⟨added, add, -, -, -, table⟩ := addSession_room sound room k.session
    simp only [add] at returns
    obtain ⟨rfl, rfl, rfl, -⟩ := returns.unique (.pure _)
    exact ⟨rfl, table⟩
  · simp only [addSession_full (Nat.le_of_not_lt room)] at returns
    obtain ⟨rfl, rfl, rfl, -⟩ := returns.unique (.pure _)
    exact ⟨rfl, rfl⟩

end Turn

section Answered
variable {targetVersion : List UInt8} {stack : Chars INI_BUFFERSIZE} {o : Outcomes} {data tls : Memory}
  {server server' : IpcServer} {state state' : State} {k : KernelAnswers} {h : Handle} {call : Call}

/-- When a client's call is received, its method is carried out, that client gets what it gives, and the
session stays. -/
theorem answered_turn {rc : Result} {events : List (IpcEvent (List UInt8))}
    (sound : server.Sound) (named : k.Names server h)
    (received : k.receiveResult = 0 ∧ k.message = (call.received tls).message) (delivered : k.replied = 0)
    (returns : Returns (ipcServerProcess (byteHandler targetVersion stack o data) k server state)
      (server', state', rc, events)) :
    server'.Sound ∧ server'.table = server.table ∧ ∃ content result output, replyTo h events = some content ∧
      Returns (call.stub.method stack o state) (state', result, output) ∧
        call.answer tls content = some (result, output) := by
  obtain ⟨r, parsed, request, handled⟩ := call_request targetVersion stack o call tls
  have accepted : k.received = .ok r := by
    rw [KernelAnswers.received, if_pos received.1, received.2, parsed]
  obtain ⟨turn, sound', -, -⟩ := process_turn sound returns
  obtain ⟨closed, later, rfl, served, table⟩ := turn_named named turn
  -- whatever the response is, it is the one of the method
  have responds {close : Bool} {given : Reply (List UInt8)} {r' : IpcServerRequest}
      (same : k.received = .ok r')
      (responded : Returns (ipcServerRespond (byteHandler targetVersion stack o data) r' state)
        (state', given, close)) :
      close = false ∧ ∃ result output, Returns (call.stub.method stack o state) (state', result, output) ∧
        call.answer tls given = some (result, output) := by
    obtain rfl := Except.ok.inj (accepted.symm.trans same)
    obtain ⟨⟨after, result, output⟩, returns⟩ : ∃ given, Returns (call.stub.method stack o state) given := by
      have whole := responded
      unfold ipcServerRespond at whole
      rw [if_pos request] at whole
      obtain ⟨_, carried, -⟩ := (byteHandler_stable _ _ _ _ _ _).bind_inv whole
      obtain ⟨_, ran, -⟩ := (serviceHandlerFunc_stable _ _ _ _ _).bind_inv carried
      rw [handled] at ran
      obtain ⟨given, method, -⟩ := (method_stable _ _).bind_inv ran
      exact ⟨given, method⟩
    obtain ⟨other, responds, answer⟩ := respond_call request (handled state) returns data tls
    obtain ⟨rfl, rfl, rfl⟩ := responded.unique responds
    exact ⟨rfl, result, output, returns, answer⟩
  cases served with
  | unreceived failed => rw [accepted] at failed; contradiction
  | kept same responded _ =>
    obtain ⟨-, result, output, carried⟩ := responds same responded
    exact ⟨sound', table, _, result, output, by simp [replyTo], carried⟩
  | ended same responded ended =>
    obtain ⟨rfl, -⟩ := responds same responded
    simp [delivered] at ended

/-- A reply goes to the session that the wait has named. -/
theorem reply_named {α σ : Type} {handler : IpcServerRequestHandler σ α} {userdata userdata' : σ}
    {rc : Result}
    {events : List (IpcEvent α)} {content : Reply α} (sound : server.Sound)
    (returns : Returns (ipcServerProcess handler k server userdata) (server', userdata', rc, events))
    (replied : .reply h content ∈ events) : k.Names server h := by
  obtain ⟨turn, -⟩ := process_turn sound returns
  generalize server'.table = table' at turn
  cases turn with
  | idle | unaccepted | accepted | refused => simp at replied
  | served waited index positive session served =>
    refine ⟨waited, by omega, ?_⟩
    rw [index, Int.toNat_natCast, session]
    cases served with
    | unreceived => simp at replied
    | kept | ended =>
      obtain ⟨rfl, -⟩ : h = _ ∧ content = _ := by simpa using replied
      rfl

end Answered

namespace Network
variable {ι : Type}

/-- Each client's session is one of the server's and nobody else's, and who waits has one. -/
structure Connected (server : IpcServer) (sessions : ι → Option Handle) (calls : ι → Option Call) : Prop where
  sound : server.Sound
  nodup : server.table.Nodup
  inside : ∀ c h, sessions c = some h → h ∈ server.table.tail
  single : ∀ c c' h, sessions c = some h → sessions c' = some h → c = c'
  waiting : ∀ c call, calls c = some call → (sessions c).isSome

theorem update_some {β : Type} [DecidableEq ι] {f : ι → Option β} {c c' : ι} {new : Option β} {b : β}
    (given : Function.update f c new c' = some b) : c' = c ∧ new = some b ∨ c' ≠ c ∧ f c' = some b := by
  by_cases same : c' = c
  · rw [same, Function.update_self] at given
    exact .inl ⟨same, given⟩
  · rw [Function.update_of_ne same] at given
    exact .inr ⟨same, given⟩

namespace Connected
variable {server server' : IpcServer} {sessions : ι → Option Handle} {calls : ι → Option Call}
  {c : ι} {h : Handle}

theorem start {n : Network ι} (start : Start n) : Connected n.server n.sessions n.calls := by
  obtain ⟨files, initialised⟩ := start
  obtain ⟨sound, table, -⟩ := init_table initialised
  refine ⟨sound, ?_, ?_, ?_, ?_⟩
  · rw [table]
    exact List.nodup_singleton _
  · intro c h bad
    contradiction
  · intro c c' h bad
    contradiction
  · intro c call bad
    contradiction

theorem session_index (connected : Connected server sessions calls) (session : sessions c = some h) :
    ∃ i, 0 < i ∧ server.table[i]? = some h := by
  obtain ⟨i, there⟩ := List.mem_iff_getElem?.mp (connected.inside c h session)
  refine ⟨i + 1, Nat.succ_pos i, ?_⟩
  rwa [List.getElem?_tail] at there

theorem turned (connected : Connected server sessions calls) (sound : server'.Sound)
    (nodup : server'.table.Nodup) (keeps : ∀ c h, sessions c = some h → h ∈ server'.table.tail) :
    Connected server' sessions calls :=
  ⟨sound, nodup, keeps, connected.single, connected.waiting⟩

variable [DecidableEq ι]

theorem sent (connected : Connected server sessions calls) (session : sessions c = some h) (call : Call) :
    Connected server sessions (Function.update calls c (some call)) := by
  refine ⟨connected.sound, connected.nodup, connected.inside, connected.single, fun c' call' waits => ?_⟩
  obtain ⟨rfl, -⟩ | ⟨-, waits⟩ := update_some waits
  · exact Option.isSome_of_eq_some session
  · exact connected.waiting c' call' waits

theorem answered (connected : Connected server sessions calls) (c : ι) :
    Connected server sessions (Function.update calls c none) := by
  refine ⟨connected.sound, connected.nodup, connected.inside, connected.single, fun c' call waits => ?_⟩
  obtain ⟨-, bad⟩ | ⟨-, waits⟩ := update_some waits
  · contradiction
  · exact connected.waiting c' call waits

theorem left (connected : Connected server sessions calls) (c : ι) :
    Connected server (Function.update sessions c none) (Function.update calls c none) := by
  refine ⟨connected.sound, connected.nodup, ?_, ?_, ?_⟩
  · intro c' h session
    obtain ⟨-, bad⟩ | ⟨-, session⟩ := update_some session
    · contradiction
    · exact connected.inside c' h session
  · intro c' c'' h session session'
    obtain ⟨-, bad⟩ | ⟨-, session⟩ := update_some session
    · contradiction
    obtain ⟨-, bad⟩ | ⟨-, session'⟩ := update_some session'
    · contradiction
    exact connected.single c' c'' h session session'
  · intro c' call waits
    obtain ⟨-, bad⟩ | ⟨other, waits⟩ := update_some waits
    · contradiction
    rw [Function.update_of_ne other]
    exact connected.waiting c' call waits

theorem accepted {session : Handle} (connected : Connected server sessions calls)
    (unconnected : sessions c = none)
    (fresh : session ∉ server.table) (sound : server'.Sound)
      (table : server'.table = server.table ++ [session]) :
    Connected server' (Function.update sessions c (some session)) calls := by
  have port := List.ne_nil_of_mem (List.mem_of_getElem? connected.sound.port)
  have tail : server'.table.tail = server.table.tail ++ [session] := by
    rw [table, List.tail_append_of_ne_nil port]
  have new {c' : ι} (there : sessions c' = some session) : False :=
    fresh (List.mem_of_mem_tail (connected.inside c' session there))
  refine ⟨sound, ?_, ?_, ?_, ?_⟩
  · rw [table, List.nodup_append]
    refine ⟨connected.nodup, List.nodup_singleton _, ?_⟩
    rintro a member b single rfl
    exact fresh (List.mem_singleton.mp single ▸ member)
  · intro c' h there
    rw [tail]
    obtain ⟨-, same⟩ | ⟨-, there⟩ := update_some there
    · obtain rfl := Option.some.inj same
      exact List.mem_append_right _ List.mem_cons_self
    · exact List.mem_append_left _ (connected.inside c' h there)
  · intro c' c'' h there there'
    obtain ⟨rfl, same⟩ | ⟨-, before⟩ := update_some there
    · obtain rfl := Option.some.inj same
      obtain ⟨rfl, -⟩ | ⟨-, before⟩ := update_some there'
      · rfl
      · exact (new before).elim
    · obtain ⟨-, same⟩ | ⟨-, before'⟩ := update_some there'
      · obtain rfl := Option.some.inj same
        exact (new before).elim
      · exact connected.single c' c'' h before before'
  · intro c' call waits
    have before := connected.waiting c' call waits
    have other : c' ≠ c := by
      rintro rfl
      rw [unconnected] at before
      contradiction
    rw [Function.update_of_ne other]
    exact before

end Connected

section Represents
variable [DecidableEq ι] {targetVersion : List UInt8} {n n' : Network ι} {s : Service ι}

/-- The service has the state of the network, and has carried out the calls that have been answered. -/
structure Represents (n : Network ι) (s : Service ι) : Prop where
  connected : Connected n.server n.sessions n.calls
  state : s.state = n.state
  answers : n.answers = s.performed.map Performed.answer

/-- A turn that is not spent on a client's call leaves the state, or carries out a request. -/
theorem others_turn {stack : Chars INI_BUFFERSIZE} {o : Outcomes} {data : Memory}
    {k : KernelAnswers} {most : Nat}
    {table table' : List Handle} {state state' : State} {events : List (IpcEvent (List UInt8))}
    (turn : Turn (byteHandler targetVersion stack o data) k most table state table' state' events) :
    state' = state ∨ ∃ r response, Returns (serviceHandlerFunc targetVersion stack o r state)
      (state', response) := by
  cases turn with
  | idle | unaccepted | accepted | refused => exact .inl rfl
  | served waited index positive session served =>
    cases served with
    | unreceived failed => exact .inl rfl
    | kept request responded replied => exact (respond_any responded).imp_right (Exists.intro _)
    | ended request responded ended => exact (respond_any responded).imp_right (Exists.intro _)

/-- Each step of the network is one of the service, or none. -/
theorem Represents.step (represents : Represents n s) (taken : Step targetVersion n n') :
    ∃ s', Relation.ReflTransGen (Service.Step targetVersion) s s' ∧ Represents n' s' := by
  obtain ⟨connected, state, answers⟩ := represents
  cases taken with
  | sent session idle call => exact ⟨s, .refl, connected.sent session call, state, answers⟩
  | left c => exact ⟨s, .refl, connected.left c, state, answers⟩
  | meanwhile changed => exact ⟨_, .single (.meanwhile (state ▸ changed)), connected, rfl, answers⟩
  | connected c unconnected index fresh returns =>
    obtain ⟨turn, sound, -, -⟩ := process_turn connected.sound returns
    obtain ⟨rfl, table⟩ := accept_turn connected.sound index returns
    refine ⟨s, .refl, ?_, state, answers⟩
    dsimp only
    split at table
    · rename_i success
      rw [if_pos success]
      exact connected.accepted unconnected fresh sound table
    · rename_i refused
      rw [if_neg refused, Function.update_eq_self_iff.mpr unconnected.symm]
      exact connected.turned sound (table ▸ connected.nodup) (table ▸ connected.inside)
  | turned c session waiting named delivered received returns =>
    obtain ⟨sound, table, content, result, output, replied, performed, answer⟩ :=
      answered_turn connected.sound named received delivered returns
    rw [replied]
    refine ⟨_, .single (.performed c (state ▸ performed)), ?_, rfl, ?_⟩
    · exact (connected.turned sound (table ▸ connected.nodup) (table ▸ connected.inside)).answered c
    · rw [receives, answers, answer, List.map_append]
      rfl
  | served others fresh returns =>
    obtain ⟨turn, sound, -, -⟩ := process_turn connected.sound returns
    obtain ⟨nodup, keeps⟩ := turn_keeps turn connected.nodup fresh
    have kept := connected.turned sound nodup fun c h session =>
      keeps h (connected.inside c h session) (others c h session)
    obtain rfl | ⟨r, response, ran⟩ := others_turn turn
    · exact ⟨s, .refl, kept, state, answers⟩
    · exact ⟨_, .single (.requested (state ▸ ran)), kept, rfl, answers⟩

theorem refines : (system targetVersion : System (Network ι)).Refines
    (Service.system targetVersion) Represents where
  start n initial := by
    have connected := Connected.start initial
    obtain ⟨files, -⟩ := initial
    exact ⟨⟨⟨.started, files⟩, []⟩, ⟨rfl, rfl⟩, connected, rfl, rfl⟩
  step _ _ _ represents taken := represents.step taken

end Represents

section Accounts
variable {targetVersion : List UInt8} {n n' : Network ι} {ledger : Ledger ι} {calls : ι → Option Call}
  {answers : List (Answer ι)} {c : ι} {call : Call}

/-- Every call that has been sent is one of these, and only once: answered, to the client that has sent it and
for the stub that it was; given up, when its client has gone; or the one that its client waits in. -/
structure Accounts (ledger : Ledger ι) (calls : ι → Option Call) (answers : List (Answer ι)) : Prop where
  answered : List.Forall₂ (fun i answer => ledger.sent[i]? = some (answer.client, answer.stub))
    ledger.answered answers
  waiting : ∀ c call, calls c = some call → ledger.sent[ledger.last c]? = some (c, call.stub) ∧
    ledger.last c ∉ ledger.answered ++ ledger.givenUp
  once : (ledger.answered ++ ledger.givenUp).Nodup
  all : ∀ i, i < ledger.sent.length ↔
    i ∈ ledger.answered ++ ledger.givenUp ∨ ∃ c call, calls c = some call ∧ i = ledger.last c

namespace Accounts

theorem start : Accounts (⟨[], fun _ => 0, [], []⟩ : Ledger ι) (fun _ => none) [] := by
  refine ⟨.nil, ?_, .nil, ?_⟩
  · intro c call bad
    contradiction
  · intro i
    simp

/-- Two clients do not wait in the same call. -/
theorem apart (accounts : Accounts ledger calls answers) {c' : ι} {call' : Call} (waits : calls c = some call)
    (other : calls c' = some call') (same : ledger.last c' = ledger.last c) : c' = c := by
  have sent := (accounts.waiting c call waits).1
  rw [← same, (accounts.waiting c' call' other).1] at sent
  exact (Prod.mk.inj (Option.some.inj sent)).1

variable [DecidableEq ι]

theorem send (accounts : Accounts ledger calls answers) (idle : calls c = none) (call : Call) :
    Accounts (ledger.send c call.stub) (Function.update calls c (some call)) answers := by
  have before {i : Nat} {x : ι × Stub} (there : ledger.sent[i]? = some x) :
      (ledger.sent ++ [(c, call.stub)])[i]? = some x := by
    rw [List.getElem?_append_left (List.getElem?_eq_some_iff.mp there).1, there]
  have fresh : ledger.sent.length ∉ ledger.answered ++ ledger.givenUp := fun bad =>
    absurd ((accounts.all _).mpr (.inl bad)) (Nat.lt_irrefl _)
  have keeps {c' : ι} (other : c' ≠ c) : Function.update ledger.last c ledger.sent.length c' =
      ledger.last c' :=
    Function.update_of_ne other ..
  have new : Function.update ledger.last c ledger.sent.length c = ledger.sent.length :=
      Function.update_self ..
  refine ⟨accounts.answered.imp fun _ _ => before, fun c' call' waits => ?_, accounts.once, fun i => ?_⟩
  · obtain ⟨rfl, same⟩ | ⟨other, waits⟩ := update_some waits
    · obtain rfl := Option.some.inj same
      simp only [Ledger.send, new]
      exact ⟨List.getElem?_concat_length, fresh⟩
    · simp only [Ledger.send, keeps other]
      exact (accounts.waiting c' call' waits).imp_left before
  · simp only [Ledger.send, List.length_append, List.length_singleton]
    rw [Nat.lt_add_one_iff_lt_or_eq, accounts.all, or_assoc]
    refine or_congr_right ⟨?_, ?_⟩
    · rintro (⟨c', call', waits, rfl⟩ | rfl)
      · have other : c' ≠ c := by
          rintro rfl
          rw [idle] at waits
          contradiction
        exact ⟨c', call', (Function.update_of_ne other ..).trans waits, (keeps other).symm⟩
      · exact ⟨c, call, Function.update_self .., new.symm⟩
    · rintro ⟨c', call', waits, rfl⟩
      obtain ⟨rfl, -⟩ | ⟨other, waits⟩ := update_some waits
      · exact .inr new
      · exact .inl ⟨c', call', waits, keeps other⟩

/-- Who waits no longer moves to those that are done. -/
theorem done (waits : calls c = some call) (i : Nat) :
    (i ∈ ledger.answered ++ ledger.givenUp ∨ ∃ c call, calls c = some call ∧ i = ledger.last c) ↔
      (i ∈ ledger.answered ++ ledger.givenUp ∨ i = ledger.last c) ∨
        ∃ c' call, Function.update calls c none c' = some call ∧ i = ledger.last c' := by
  rw [or_assoc]
  refine or_congr_right ⟨?_, ?_⟩
  · rintro ⟨c', call', other, rfl⟩
    by_cases same : c' = c
    · exact .inl (congrArg _ same)
    · exact .inr ⟨c', call', (Function.update_of_ne same ..).trans other, rfl⟩
  · rintro (rfl | ⟨c', call', other, rfl⟩)
    · exact ⟨c, call, waits, rfl⟩
    · obtain ⟨-, bad⟩ | ⟨-, other⟩ := update_some other
      · contradiction
      · exact ⟨c', call', other, rfl⟩

theorem still (accounts : Accounts ledger calls answers) (waits : calls c = some call) {c' : ι} {call' : Call}
    (other : Function.update calls c none c' = some call') :
    ledger.sent[ledger.last c']? = some (c', call'.stub) ∧
      ledger.last c' ∉ ledger.answered ++ ledger.givenUp ∧ ledger.last c' ≠ ledger.last c := by
  obtain ⟨-, bad⟩ | ⟨apart, other⟩ := update_some other
  · contradiction
  · obtain ⟨sent, outstanding⟩ := accounts.waiting c' call' other
    exact ⟨sent, outstanding, fun same => apart (accounts.apart waits other same)⟩

theorem answer (accounts : Accounts ledger calls answers) (waits : calls c = some call)
    (given : Option (Result × Option OutData)) :
    Accounts (ledger.answer c) (Function.update calls c none) (answers ++ [⟨c, call.stub, given⟩]) := by
  obtain ⟨sent, outstanding⟩ := accounts.waiting c call waits
  have member (i : Nat) : i ∈ ledger.answered ++ [ledger.last c] ++ ledger.givenUp ↔
      i ∈ ledger.answered ++ ledger.givenUp ∨ i = ledger.last c := by
    simp only [List.mem_append, List.mem_singleton]
    tauto
  refine ⟨List.rel_append accounts.answered (.cons sent .nil), fun c' call' other => ?_, ?_, fun i => ?_⟩
  · obtain ⟨sent', outstanding', apart⟩ := accounts.still waits other
    refine ⟨sent', fun bad => ?_⟩
    rcases (member _).mp bad with done | same
    · exact outstanding' done
    · exact apart same
  · have order : (ledger.answered ++ [ledger.last c] ++ ledger.givenUp).Perm
        (ledger.last c :: (ledger.answered ++ ledger.givenUp)) := by
      rw [List.append_assoc]
      exact List.perm_middle
    exact order.nodup_iff.mpr (List.nodup_cons.mpr ⟨outstanding, accounts.once⟩)
  · rw [Ledger.answer, accounts.all, done waits, member]

theorem giveUp (accounts : Accounts ledger calls answers) (waits : calls c = some call) :
    Accounts (ledger.giveUp c) (Function.update calls c none) answers := by
  obtain ⟨sent, outstanding⟩ := accounts.waiting c call waits
  have member (i : Nat) : i ∈ ledger.answered ++ (ledger.givenUp ++ [ledger.last c]) ↔
      i ∈ ledger.answered ++ ledger.givenUp ∨ i = ledger.last c := by
    rw [← List.append_assoc, List.mem_append, List.mem_singleton]
  refine ⟨accounts.answered, fun c' call' other => ?_, ?_, fun i => ?_⟩
  · obtain ⟨sent', outstanding', apart⟩ := accounts.still waits other
    refine ⟨sent', fun bad => ?_⟩
    rcases (member _).mp bad with done | same
    · exact outstanding' done
    · exact apart same
  · have order : (ledger.answered ++ (ledger.givenUp ++ [ledger.last c])).Perm
        (ledger.last c :: (ledger.answered ++ ledger.givenUp)) := by
      rw [← List.append_assoc]
      exact List.perm_append_singleton ..
    exact order.nodup_iff.mpr (List.nodup_cons.mpr ⟨outstanding, accounts.once⟩)
  · rw [Ledger.giveUp, accounts.all, done waits, member]

theorem step (accounts : Accounts n.ledger n.calls n.answers) (taken : Step targetVersion n n') :
    Accounts n'.ledger n'.calls n'.answers := by
  cases taken with
  | sent session idle call => exact accounts.send idle call
  | left c =>
    cases waits : n.calls c with
    | none =>
      have same : Function.update n.calls c none = n.calls := Function.update_eq_self_iff.mpr waits.symm
      simpa [waits, same] using accounts
    | some call => simpa [waits] using accounts.giveUp waits
  | turned c session waits named delivered received returns =>
    unfold receives
    split
    · exact accounts.answer waits _
    · exact accounts
  | meanwhile | connected | served => exact accounts

theorem invariant : (system targetVersion : System (Network ι)).Invariant
    fun n => Accounts n.ledger n.calls n.answers where
  start n initial := by
    obtain ⟨files, -⟩ := initial
    exact .start
  step _ _ accounts taken := accounts.step taken

end Accounts

end Accounts

end Network

/-- Every value in memory is a valid one. -/
def HeloManager.Valid (mgr : HeloManager) : Prop :=
  ∀ kval, sysHeloValidConfigValue kval (mgr.config.configValues kval)

/-- Values stay valid, and what has been loaded stays loaded. -/
structure HeloManager.Keeps (mgr mgr' : HeloManager) : Prop where
  valid : mgr.Valid → mgr'.Valid
  loaded : mgr.config.loaded → mgr'.config.loaded

section Keeps
variable {targetVersion : List UInt8} {stack : Chars INI_BUFFERSIZE} {o : Outcomes} {state state' : State}

theorem HeloManager.Keeps.refl (mgr : HeloManager) : mgr.Keeps mgr := ⟨id, id⟩

theorem setConfigValues_keeps {configValues : SysHeloConfigValueList} {files files' : Files}
    {mgr mgr' : HeloManager} {rc : Result}
      (answered : Returns (IpcService.setConfigValues stack o configValues files mgr) (files', mgr', rc)) :
    mgr.Keeps mgr' ∧ (mgr.config.loaded → rc ≠ SYSHELO_ERROR .configNotLoaded) := by
  obtain ⟨unloaded, -, -, rfl⟩ | ⟨loaded, saved, -, rfl, rfl⟩ := setConfigValues_inv answered
  · exact ⟨.refl _, fun loaded => by rw [unloaded] at loaded; contradiction⟩
  · cases saved with
    | true =>
      refine ⟨⟨fun _ kval => ?_, fun loaded => loaded⟩, fun _ bad => absurd bad (by decide)⟩
      exact Config.accepted_valid kval (configValues kval)
    | false => exact ⟨.refl _, fun _ bad => absurd bad (by decide)⟩

theorem handled_keeps {r : IpcServerRequest} (handled : Handled stack o r state state') :
    state.mgr.Keeps state'.mgr := by
  cases handled with
  | unchanged stays missing => exact .refl _
  | exited command => exact ⟨id, id⟩
  | enabled command given long => exact ⟨id, id⟩
  | saved command saving => exact (setConfigValues_keeps saving).1

theorem meanwhile_keeps (changed : Meanwhile state state') : state.mgr.Keeps state'.mgr := by
  cases changed with
  | contextRefreshed applicationId =>
    rw [HeloManager.refreshContext_eq]
    exact ⟨id, id⟩
  | configRefreshed stack stat stat' file =>
    rw [Config.refresh_eq]
    split
    · rw [Config.load_any]
      exact ⟨fun _ kval => Config.loadedValue_valid stack stat' file kval, fun _ => rfl⟩
    · exact .refl _
  | edited files => exact .refl _

end Keeps

namespace Service
variable {ι : Type} {targetVersion : List UInt8} {s s' : Service ι}

/-- A call that has given the list of values. -/
def Listed (performed : Performed ι) : Prop :=
  ∃ list, performed.result = 0 ∧ performed.output = some (.configValues list)

theorem not_listed {performed : Performed ι} (none : ∀ list, performed.output ≠ some (.configValues list)) :
    ¬ Listed performed := by
  rintro ⟨list, -, given⟩
  exact none list given

/-- The version is the one of the interface, and a list that is asked for has valid values, or nothing has
been loaded. -/
def Answered (performed : Performed ι) : Prop :=
  match performed.stub with
  | .getAPIVersion => performed.result = 0 ∧ performed.output = some (.apiVersion SYSHELO_IPC_API_VERSION)
  | .getConfigValues =>
    performed.result = SYSHELO_ERROR .configNotLoaded ∧ performed.output = none ∨
      ∃ list, performed.result = 0 ∧ performed.output = some (.configValues list) ∧
        ∀ kval, sysHeloValidConfigValue kval (list kval)
  | _ => True

/-- Once the list has been given, nobody is told that nothing has been loaded. -/
def Ordered (before after : Performed ι) : Prop :=
  Listed before → after.result ≠ SYSHELO_ERROR .configNotLoaded

structure Consistent (s : Service ι) : Prop where
  valid : s.state.mgr.Valid
  answered : ∀ p ∈ s.performed, Answered p
  loaded : ∀ p ∈ s.performed, Listed p → s.state.mgr.config.loaded
  ordered : s.performed.Pairwise Ordered

theorem method_answers {stub : Stub} {stack : Chars INI_BUFFERSIZE} {o : Outcomes} {state state' : State}
    {result : Result} {output : Option OutData}
    (returns : Returns (stub.method stack o state) (state', result, output))
      (valid : state.mgr.Valid) (c : ι) :
    state.mgr.Keeps state'.mgr ∧ Answered ⟨c, stub, result, output⟩ ∧
      (Listed (⟨c, stub, result, output⟩ : Performed ι) → state'.mgr.config.loaded) ∧
      (state.mgr.config.loaded → result ≠ SYSHELO_ERROR .configNotLoaded) := by
  have success : (0 : Result) ≠ SYSHELO_ERROR .configNotLoaded := by decide
  cases stub with
  | getAPIVersion =>
    obtain ⟨rfl, rfl, rfl⟩ := returns.unique (.pure _)
    exact ⟨.refl _, ⟨rfl, rfl⟩, fun listed => absurd listed (not_listed (by simp)), fun _ => success⟩
  | getCurrentContext =>
    obtain ⟨rfl, rfl, rfl⟩ := returns.unique (.pure _)
    exact ⟨.refl _, trivial, fun listed => absurd listed (not_listed (by simp)), fun _ => success⟩
  | setEnabled enabled =>
    obtain ⟨rfl, rfl, rfl⟩ := returns.unique (.pure _)
    exact ⟨⟨id, id⟩, trivial, fun listed => absurd listed (not_listed (by simp)), fun _ => success⟩
  | getConfigValues =>
    have given : (state', result, output) = (state, (IpcService.getConfigValues state.mgr).1,
        (IpcService.getConfigValues state.mgr).2.map .configValues) := returns.unique (.pure _)
    cases loaded : state.mgr.config.loaded with
    | true =>
      rw [getConfigValues_loaded loaded] at given
      obtain ⟨rfl, rfl, rfl⟩ := given
      exact ⟨.refl _, .inr ⟨_, rfl, rfl, valid⟩, fun _ => loaded, fun _ => success⟩
    | false =>
      have refused : IpcService.getConfigValues state.mgr = (SYSHELO_ERROR .configNotLoaded, none) := by
        simp [IpcService.getConfigValues, Config.hasLoaded, loaded]
      rw [refused] at given
      obtain ⟨rfl, rfl, rfl⟩ := given
      exact ⟨.refl _, .inl ⟨rfl, rfl⟩, fun listed => absurd listed (not_listed (by simp)),
        fun bad => absurd bad (by simp)⟩
  | setConfigValues configValues =>
    obtain ⟨_, saving, rest⟩ := (setConfigValues_stable _ _ _ _ _).bind_inv returns
    obtain ⟨rfl, rfl, rfl⟩ := rest.unique (.pure _)
    obtain ⟨keeps, refused⟩ := setConfigValues_keeps saving
    exact ⟨keeps, trivial, fun listed => absurd listed (not_listed (by simp)), refused⟩

namespace Consistent

theorem changed (consistent : Consistent s) {state : State} (keeps : s.state.mgr.Keeps state.mgr) :
    Consistent { s with state } :=
  ⟨keeps.valid consistent.valid, consistent.answered,
    fun p member listed => keeps.loaded (consistent.loaded p member listed), consistent.ordered⟩

theorem step (consistent : Consistent s) (taken : Service.Step targetVersion s s') : Consistent s' := by
  cases taken with
  | performed c returns =>
    obtain ⟨keeps, answered, loads, refused⟩ := method_answers returns consistent.valid c
    refine ⟨keeps.valid consistent.valid, fun p member => ?_, fun p member listed => ?_, ?_⟩
    · rcases List.mem_append.mp member with before | last
      · exact consistent.answered p before
      · obtain rfl := List.mem_singleton.mp last
        exact answered
    · rcases List.mem_append.mp member with before | last
      · exact keeps.loaded (consistent.loaded p before listed)
      · obtain rfl := List.mem_singleton.mp last
        exact loads listed
    · refine List.pairwise_append.mpr ⟨consistent.ordered, List.pairwise_singleton _ _, ?_⟩
      intro p member q last listed
      obtain rfl := List.mem_singleton.mp last
      exact refused (consistent.loaded p member listed)
  | requested returns => exact consistent.changed (handled_keeps (serviceHandlerFunc_handled returns))
  | meanwhile changed => exact consistent.changed (meanwhile_keeps changed)

theorem invariant : (Service.system targetVersion : System (Service ι)).Invariant Consistent where
  start s initial := by
    obtain ⟨manager, nothing⟩ := initial
    refine ⟨?_, ?_, ?_, ?_⟩
    · rw [manager]
      exact default_valid
    · rw [nothing]
      exact fun p bad => absurd bad List.not_mem_nil
    · rw [nothing]
      exact fun p bad => absurd bad List.not_mem_nil
    · rw [nothing]
      exact .nil
  step _ _ consistent taken := consistent.step taken

end Consistent

end Service

namespace Network
variable {ι : Type} [DecidableEq ι] {targetVersion : List UInt8} {n : Network ι}

theorem Connected.serves (connected : Connected n.server n.sessions n.calls) (session : n.sessions c = some h)
    (waits : n.calls c = some call) {stack : Chars INI_BUFFERSIZE} {o : Outcomes} {state : State}
      {result : Result}
    {output : Option OutData}
      (performed : Returns (call.stub.method stack o n.state) (state, result, output)) :
    ∃ server : IpcServer, server.table = n.server.table ∧ Step targetVersion n { n with
      server, state
      calls := Function.update n.calls c none
      answers := n.answers ++ [⟨c, call.stub, some (result, output)⟩]
      ledger := n.ledger.answer c } := by
  obtain ⟨i, positive, there⟩ := connected.session_index session
  obtain ⟨r, parsed, request, handled⟩ := call_request targetVersion stack o call fun _ => 0
  obtain ⟨content, responded, answer⟩ :=
    respond_call request (handled n.state) performed (fun _ => 0) fun _ => 0
  -- the kernel names the session, gives out the client's message, and delivers the reply
  let k : KernelAnswers := ⟨0, i, 0, 0, 0, (call.received fun _ => 0).message, KernelError_TimedOut⟩
  have received : k.received = .ok r := parsed
  have turn : Turn (byteHandler targetVersion stack o fun _ => 0) k n.server.max n.server.table n.state
      n.server.table state [.wait n.server.table, .receive h, .reply h content] :=
    .served rfl rfl positive there (.kept received responded rfl)
  obtain ⟨server, rc, returns, table⟩ := turn_process connected.sound turn
  have named : k.Names n.server h := ⟨rfl, Int.natCast_pos.mpr positive, there⟩
  have taken : Step targetVersion n _ := .turned c session waits named rfl ⟨rfl, rfl⟩ returns
  have replied : replyTo h [.wait n.server.table, .receive h, .reply h content] = some content := by
    simp [replyTo]
  rw [replied, receives, answer] at taken
  exact ⟨server, table, taken⟩

def exampleServer : IpcServer := ⟨0, (Vector.replicate _ 0).setIfInBounds 0 7, 43, 1⟩

def exampleNetwork : Network Unit where
  server := exampleServer
  state := ⟨.started, fun _ => none⟩
  sessions _ := none
  calls _ := none
  answers := []
  ledger := ⟨[], fun _ => 0, [], []⟩

def askingServer : IpcServer := ⟨0, ((Vector.replicate _ 0).setIfInBounds 0 7).setIfInBounds 1 8, 43, 2⟩

def exampleCall : Call := ⟨.getAPIVersion, 8, fun _ => 0, fun _ => 0⟩

def askingNetwork : Network Unit := { exampleNetwork with
  server := askingServer
  sessions := Function.update exampleNetwork.sessions () (some 8)
  calls := Function.update exampleNetwork.calls () (some exampleCall)
  ledger := exampleNetwork.ledger.send () .getAPIVersion }

theorem waits_asking : askingNetwork.calls () = some exampleCall := rfl

theorem reached_asking : (system []).Reachable askingNetwork := by
  have initial : Start exampleNetwork := @Start.init Unit _ 0 7 ⟨0, .replicate _ 0, 0, 0⟩ _ _
    (fun _ => none) rfl
  have accepts : Returns (ipcServerProcess (byteHandler [] (.replicate _ 0) .ok fun _ => 0)
      ⟨0, 0, 0, 8, 0, ⟨⟨0, 0, []⟩, none⟩, 0⟩ exampleServer exampleNetwork.state)
      (askingServer, exampleNetwork.state, 0, [.wait [7], .accept 7 (some 8)]) := .pure _
  have fresh : (8 : Handle) ∉ exampleServer.table := by decide
  have connected : Step [] exampleNetwork _ := .connected () rfl ⟨rfl, rfl, rfl⟩ fresh accepts
  exact ⟨exampleNetwork, initial, .head connected (.single (.sent rfl rfl exampleCall))⟩

/-- A client that waits has a session of its own, and the server can answer it next, whoever else waits. -/
theorem waiting_served (reached : (system targetVersion).Reachable n) (waits : n.calls c = some call) :
    ∃ h, n.sessions c = some h ∧ h ∈ n.server.table.tail ∧ (∀ c', n.sessions c' = some h → c' = c) ∧
      ∀ stack o state result output, Returns (call.stub.method stack o n.state) (state, result, output) →
        ∃ server : IpcServer, server.table = n.server.table ∧ Step targetVersion n { n with
          server, state
          calls := Function.update n.calls c none
          answers := n.answers ++ [⟨c, call.stub, some (result, output)⟩]
          ledger := n.ledger.answer c } := by
  obtain ⟨s, -, represents⟩ := refines.reachable reached
  have connected := represents.connected
  obtain ⟨h, session⟩ := Option.isSome_iff_exists.mp (connected.waiting c call waits)
  refine ⟨h, session, connected.inside c h session, fun c' other => connected.single c' c h other session, ?_⟩
  intro stack o state result output performed
  exact connected.serves session waits performed

theorem waiting_served_asking : ∃ server : IpcServer, Step [] askingNetwork { askingNetwork with
    server
    calls := Function.update askingNetwork.calls () none
    answers := [⟨(), .getAPIVersion, some (0, some (.apiVersion 1))⟩]
    ledger := askingNetwork.ledger.answer () } := by
  obtain ⟨h, -, -, -, serves⟩ := waiting_served reached_asking waits_asking
  obtain ⟨server, -, taken⟩ := serves (.replicate _ 0) .ok _ _ _ (.pure _)
  exact ⟨server, taken⟩

theorem reached_answered : ∃ n : Network Unit, (system []).Reachable n ∧
    n.answers = [⟨(), .getAPIVersion, some (0, some (.apiVersion 1))⟩] := by
  obtain ⟨first, initial, steps⟩ := reached_asking
  obtain ⟨s, -, represents⟩ := refines.reachable ⟨first, initial, steps⟩
  have performed : Returns (exampleCall.stub.method (.replicate _ 0) .ok askingNetwork.state)
      (askingNetwork.state, 0, some (.apiVersion 1)) := .pure _
  obtain ⟨server, -, taken⟩ := represents.connected.serves rfl waits_asking performed
  exact ⟨_, ⟨first, initial, steps.tail taken⟩, rfl⟩

/-- A turn of the server replies to nobody but the session that its wait has named; and a call that a client
waits in, when it is received there, is answered with what its method gives. -/
structure Prompt (targetVersion : List UInt8) (n : Network ι) : Prop where
  named : ∀ stack o data k server state rc events, Returns (ipcServerProcess
      (byteHandler targetVersion stack o data) k n.server n.state) (server, state, rc, events) →
    ∀ h content, .reply h content ∈ events → k.Names n.server h
  answered : ∀ stack o data k server state rc events, Returns (ipcServerProcess
      (byteHandler targetVersion stack o data) k n.server n.state) (server, state, rc, events) →
    ∀ c h call tls, n.sessions c = some h → n.calls c = some call → k.Names n.server h → k.replied = 0 →
      k.receiveResult = 0 → k.message = (call.received tls).message →
      ∃ content result output, replyTo h events = some content ∧
        Returns (call.stub.method stack o n.state) (state, result, output) ∧
        call.answer tls content = some (result, output)

/-- Whatever the order in which clients come, call, wait and go, and whatever others send, the answers are
those of the service that carries out the same calls one after the other; every call is accounted for, and
those that the server receives are answered. -/
theorem answers_atomic (reached : (system targetVersion).Reachable n) :
    (∃ performed, (Service.system targetVersion).Reachable ⟨n.state, performed⟩ ∧
      n.answers = performed.map Performed.answer) ∧
      Accounts n.ledger n.calls n.answers ∧ Prompt targetVersion n := by
  obtain ⟨⟨state, performed⟩, carried, represents⟩ := refines.reachable reached
  obtain rfl : state = n.state := represents.state
  refine ⟨⟨performed, carried, represents.answers⟩, Accounts.invariant.reachable reached, ?_, ?_⟩
  · intro stack o data k server state rc events returns h content replied
    exact reply_named represents.connected.sound returns replied
  · intro stack o data k server state rc events returns c h call tls session waits named delivered
      taken received
    exact (answered_turn represents.connected.sound named ⟨taken, received⟩ delivered returns).2.2

theorem answers_atomic_answered : ∃ n : Network Unit,
    (∃ performed : List (Performed Unit), (Service.system []).Reachable ⟨n.state, performed⟩ ∧
      performed.map Performed.answer = [⟨(), .getAPIVersion, some (0, some (.apiVersion 1))⟩]) ∧
      Accounts n.ledger n.calls [⟨(), .getAPIVersion, some (0, some (.apiVersion 1))⟩] ∧ Prompt [] n := by
  obtain ⟨n, reached, answers⟩ := reached_answered
  obtain ⟨⟨performed, carried, same⟩, accounts, prompt⟩ := answers_atomic reached
  exact ⟨n, ⟨performed, carried, same.symm.trans answers⟩, answers ▸ accounts, prompt⟩

/-- Every client is told the version of the interface; every list of values that one is given is valid; and
once one has been given, no client is told that nothing has been loaded. -/
theorem answers_consistent (reached : (system targetVersion).Reachable n) :
    (∀ answer ∈ n.answers, answer.stub = .getAPIVersion →
      answer.given = some (0, some (.apiVersion SYSHELO_IPC_API_VERSION))) ∧
      (∀ answer ∈ n.answers, answer.stub = .getConfigValues →
        answer.given = some (SYSHELO_ERROR .configNotLoaded, none) ∨
          ∃ list, answer.given = some (0, some (.configValues list)) ∧
            ∀ kval, sysHeloValidConfigValue kval (list kval)) ∧
      n.answers.Pairwise fun earlier later => ∀ list output,
        earlier.given = some (0, some (.configValues list)) →
          later.given ≠ some (SYSHELO_ERROR .configNotLoaded, output) := by
  obtain ⟨s, represents, consistent⟩ := refines.invariant Service.Consistent.invariant reached
  rw [represents.answers]
  refine ⟨?_, ?_, ?_⟩
  · intro answer member asked
    obtain ⟨⟨c, stub, result, output⟩, performed, rfl⟩ := List.mem_map.mp member
    obtain rfl : stub = .getAPIVersion := asked
    obtain ⟨rfl, rfl⟩ := consistent.answered _ performed
    rfl
  · intro answer member asked
    obtain ⟨⟨c, stub, result, output⟩, performed, rfl⟩ := List.mem_map.mp member
    obtain rfl : stub = .getConfigValues := asked
    obtain ⟨rfl, rfl⟩ | ⟨list, rfl, rfl, valid⟩ := consistent.answered _ performed
    · exact .inl rfl
    · exact .inr ⟨list, rfl, valid⟩
  · rw [List.pairwise_map]
    refine consistent.ordered.imp fun {p q} ordered list output given refused => ?_
    obtain ⟨result, values⟩ := Prod.mk.inj (Option.some.inj given)
    exact ordered ⟨list, result, values⟩ (Prod.mk.inj (Option.some.inj refused)).1

theorem answers_consistent_answered : ∃ n : Network Unit, n.answers ≠ [] ∧
    ∀ answer ∈ n.answers, answer.stub = .getAPIVersion →
      answer.given = some (0, some (.apiVersion SYSHELO_IPC_API_VERSION)) := by
  obtain ⟨n, reached, answers⟩ := reached_answered
  exact ⟨n, by simp [answers], (answers_consistent reached).1⟩

end Network

end SysHelo
