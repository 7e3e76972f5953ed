import SysHelo.IpcStubs
import SysHelo.Isolation

/-! The buffer that all messages of the server go through. What a message does not overwrite is left there
from the messages before it; a message that is whole is answered in the same way whatever that is. -/
namespace SysHelo
open CString Stdio Loop MinIni IpcServer

namespace IpcService

theorem byteHandler_stable (targetVersion : List UInt8) (stack : Chars INI_BUFFERSIZE) (o : Outcomes)
    (data : Memory) (r : IpcServerRequest) (state : State) :
    Stable (do
      let (state, response) ← serviceHandlerFunc targetVersion stack o r state
      pure (state, (⟨response.result, some (response.bytes data), response.dataSize⟩ : Response
        (List UInt8)))) :=
  .bind (serviceHandlerFunc_stable targetVersion stack o r state) fun _ => .pure _

/-- The handler with the bytes of its output, in a buffer that held `data` before. -/
def byteHandler (targetVersion : List UInt8) (stack : Chars INI_BUFFERSIZE) (o : Outcomes) (data : Memory) :
    IpcServerRequestHandler State (List UInt8) :=
  ⟨fun r state => do
      let (state, response) ← serviceHandlerFunc targetVersion stack o r state
      pure (state, ⟨response.result, some (response.bytes data), response.dataSize⟩),
    byteHandler_stable targetVersion stack o data⟩

end IpcService

/-- A reply in the buffer of the server. -/
def Reply.stored (content : Reply (List UInt8)) (tls : Memory) : TlsMessage where
  hipc := ⟨content.type, .ofNat content.numDataWords, []⟩
  dataWords := HIPC_HEADER_SIZE
  tls := storeResponse (cmifGetAlignedDataStart HIPC_HEADER_SIZE) content.result (content.data.getD []) tls

namespace IpcService

/-- What a command puts out, and the bytes of it that go into the reply. -/
abbrev Output := Option OutData × List UInt8

theorem outputHandler_stable (targetVersion : List UInt8) (stack : Chars INI_BUFFERSIZE) (o : Outcomes)
    (data : Memory) (r : IpcServerRequest) (state : State) :
    Stable (do
      let (state, response) ← serviceHandlerFunc targetVersion stack o r state
      pure (state, (⟨response.result, some (response.data, response.bytes data), response.dataSize⟩ :
        Response Output))) :=
  .bind (serviceHandlerFunc_stable targetVersion stack o r state) fun _ => .pure _

/-- The handler with all that it puts out. -/
def outputHandler (targetVersion : List UInt8) (stack : Chars INI_BUFFERSIZE) (o : Outcomes) (data : Memory) :
    IpcServerRequestHandler State Output :=
  ⟨fun r state => do
      let (state, response) ← serviceHandlerFunc targetVersion stack o r state
      pure (state, ⟨response.result, some (response.data, response.bytes data), response.dataSize⟩),
    outputHandler_stable targetVersion stack o data⟩

/-- The reply with its bytes only. -/
def bytesOf (content : Reply Output) : Reply (List UInt8) :=
  { content with data := content.data.map Prod.snd }

/-- The words that are sent with a reply. -/
def wordsOf (content : Reply Output) (tls : Memory) : List UInt8 :=
  ((bytesOf content).stored tls).tls.load HIPC_HEADER_SIZE (4 * content.numDataWords)

/-- What a call of the server is told: what the kernel answers, the message as its sender has made it, how the
file operations end, what is in the arrays of the functions that are called, and which bytes of the buffer the
calls that the handler makes itself leave in it. -/
structure Told where
  k : KernelAnswers
  sent : TlsMessage
  stack : Chars INI_BUFFERSIZE
  o : Outcomes
  data : Memory
  used : Nat → Option UInt8

namespace Told

/-- The message in the buffer of the server, which held `tls` before. -/
def message (told : Told) (tls : Memory) : TlsMessage := told.sent.deliver tls

/-- What the kernel answers, with the message as it is in the buffer. -/
def answers (told : Told) (tls : Memory) : KernelAnswers :=
  { told.k with message := (told.message tls).message }

/-- The buffer when the handler has returned. -/
def handled (told : Told) (tls : Memory) : Memory := fun i => (told.used i).getD ((told.message tls).tls i)

/-- The buffer after the calls on the handles. -/
def after (told : Told) (tls : Memory) (events : List (IpcEvent Output)) : Memory :=
  events.foldl (fun buffer event => match event with
    | .receive _ => if told.k.receiveResult = 0 then (told.message tls).tls else buffer
    | .reply _ content => ((bytesOf content).stored (told.handled tls)).tls
    | _ => buffer) tls

/-- The words of the replies that are sent. -/
def sends (told : Told) (tls : Memory) (events : List (IpcEvent Output)) : List (List UInt8) :=
  events.filterMap fun event => match event with
    | .reply _ content => some (wordsOf content (told.handled tls))
    | _ => none

def handler (told : Told) (targetVersion : List UInt8) : IpcServerRequestHandler State Output :=
  outputHandler targetVersion told.stack told.o told.data

/-- The same when the table lacks the handle at `place`. -/
def without (told : Told) (place : Nat) : Told := { told with k := told.k.without place }

end Told

/-- How many bytes a command puts into its reply. -/
def commandSize (cmdId : UInt64) : Nat :=
  if cmdId = SysHeloIpcCmd_GetApiVersion then 4
  else if cmdId = SysHeloIpcCmd_GetCurrentContext then CONTEXT_SIZE
  else if cmdId = SysHeloIpcCmd_GetConfigValues then 8
  else 0

def outputSize (m : TlsMessage) (r : RequestData) : Nat :=
  if m.hipc.type = CmifCommandType_Request then commandSize r.cmdId else 0

/-- Where the data words of the reply end. -/
def replyEnd (m : TlsMessage) (r : RequestData) : Nat :=
  HIPC_HEADER_SIZE + 4 * ((RAW_HEADER_SIZE + outputSize m r + 0x10) / 4)

/-- How far the reply is written whatever its result. -/
def writtenEnd (m : TlsMessage) (r : RequestData) : Nat :=
  cmifGetAlignedDataStart HIPC_HEADER_SIZE + RAW_HEADER_SIZE +
    if r.cmdId = SysHeloIpcCmd_GetConfigValues then 0 else outputSize m r

/-- The words that a message declares hold its header and what its command reads, and every byte that the
reply sends without having written it, where the handler has left nothing else in the buffer. -/
structure Whole (m : TlsMessage) (used : Nat → Option UInt8) : Prop where
  header : m.hipc.type = CmifCommandType_Request →
    RAW_HEADER_SIZE ≤ (m.hipc.numDataWords * (4 : UInt32)).toNat → m.header + RAW_HEADER_SIZE ≤ m.dataEnd
  argument : ∀ r p, m.parseRequest = .ok r → r.ptr = some p → 0 < argumentSize r →
    p + argumentSize r ≤ m.dataEnd
  reply : ∀ r, m.parseRequest = .ok r → ∀ i, HIPC_HEADER_SIZE ≤ i → i < replyEnd m r →
    i < cmifGetAlignedDataStart HIPC_HEADER_SIZE ∨ writtenEnd m r ≤ i → i < m.dataEnd ∨ (used i).isSome

/-- The message that the call receives, if it does, is whole. -/
def Told.ReceivesWhole (told : Told) : Prop :=
  told.k.waitResult = 0 → 0 < told.k.handleIndex → told.k.receiveResult = 0 → Whole told.sent told.used

section Replies
variable {targetVersion : List UInt8} {told : Told} {m : TlsMessage} {r : RequestData} {state state' : State}
  {content : Reply Output} {close : Bool}

theorem serviceHandlerFunc_size {stack : Chars INI_BUFFERSIZE} {o : Outcomes} {r : IpcServerRequest}
    {response : Response OutData}
    (returns : Returns (serviceHandlerFunc targetVersion stack o r state) (state', response)) :
    response.dataSize = commandSize r.data.cmdId ∧
      (r.data.cmdId ≠ SysHeloIpcCmd_GetConfigValues → 0 < commandSize r.data.cmdId →
        response.result = 0) := by
  have same {answer : State × Response OutData} (returns : Returns (pure answer) (state', response)) :
      response = answer.2 := congrArg Prod.snd (returns.unique (.pure _))
  unfold serviceHandlerFunc at returns
  unfold commandSize
  by_cases version : r.data.cmdId = SysHeloIpcCmd_GetApiVersion
  · rw [if_pos version] at returns ⊢
    rw [same returns]
    exact ⟨rfl, fun _ _ => rfl⟩
  by_cases context : r.data.cmdId = SysHeloIpcCmd_GetCurrentContext
  · simp +decide only [context, if_true, if_false] at returns
    rw [same returns, context]
    exact ⟨rfl, fun _ _ => rfl⟩
  by_cases values : r.data.cmdId = SysHeloIpcCmd_GetConfigValues
  · simp +decide only [values, if_true, if_false] at returns
    rw [same returns, values]
    exact ⟨rfl, fun other => absurd rfl other⟩
  -- the other commands put nothing into the reply
  simp only [version, context, values, if_false] at returns ⊢
  refine ⟨?_, fun _ positive => absurd positive (Nat.lt_irrefl 0)⟩
  repeat' split at returns
  all_goals first
    | rw [same returns]
    | obtain ⟨_, -, rest⟩ := (setConfigValues_stable _ _ _ _ _).bind_inv returns
      rw [same rest]

/-- A reply is as long as its request says, and has been written as far. -/
theorem respond_output
    (responded : Returns (ipcServerRespond (told.handler targetVersion) (r.request m) state)
      (state', content, close)) :
    content.numDataWords = (RAW_HEADER_SIZE + outputSize m r + 0x10) / 4 ∧
      writtenEnd m r ≤ cmifGetAlignedDataStart HIPC_HEADER_SIZE + RAW_HEADER_SIZE +
        if content.result = 0 then ((bytesOf content).data.getD []).length else 0 := by
  have hipc : (r.request m).hipc = m.hipc := rfl
  unfold ipcServerRespond at responded
  unfold writtenEnd outputSize
  rw [hipc] at responded
  by_cases request : m.hipc.type = CmifCommandType_Request
  · rw [if_pos request] at responded ⊢
    obtain ⟨⟨userdata, output⟩, handled, rest⟩ :=
      ((told.handler targetVersion).stable _ _).bind_inv responded
    obtain ⟨-, rfl, -⟩ := (Returns.pure _).unique rest
    obtain ⟨⟨state₁, response⟩, served, rest⟩ := (serviceHandlerFunc_stable _ _ _ _ _).bind_inv handled
    obtain ⟨-, rfl⟩ := Prod.mk.inj ((Returns.pure _).unique rest)
    obtain ⟨size, success⟩ := serviceHandlerFunc_size served
    have command : (r.request m).data.cmdId = r.cmdId := rfl
    rw [command] at size success
    refine ⟨by rw [← size]; rfl, Nat.add_le_add_left ?_ _⟩
    by_cases values : r.cmdId = SysHeloIpcCmd_GetConfigValues
    · rw [if_pos values]
      exact Nat.zero_le _
    · rw [if_neg values]
      rcases Nat.eq_zero_or_pos (commandSize r.cmdId) with none | some
      · rw [none]
        exact Nat.zero_le _
      · have done := success values some
        have stored : (ipcServerPrepareResponse response.result
            (Option.some (response.data, response.bytes told.data)) response.dataSize).result = 0 := done
        have bytes : (bytesOf (ipcServerPrepareResponse response.result
            (Option.some (response.data, response.bytes told.data)) response.dataSize)).data =
              Option.some (response.bytes told.data) := by
          simp [bytesOf, ipcServerPrepareResponse, done]
        rw [if_pos stored, bytes, Option.getD_some, Response.bytes, Memory.length_load, size]
  · rw [if_neg request] at responded
    have shape : content.numDataWords = 8 := by
      split at responded
      all_goals
        obtain ⟨-, rfl, -⟩ := (Returns.pure _).unique responded
        rfl
    refine ⟨by rw [shape, if_neg request]; rfl, Nat.add_le_add_left ?_ _⟩
    simp [request]

theorem storeResponse_congr {header i : Nat} {rc : Result} {data : List UInt8} {tls tls' : Memory}
    (same : header ≤ i ∧ i < header + RAW_HEADER_SIZE + (if rc = 0 then data.length else 0) ∨
      tls i = tls' i) :
    storeResponse header rc data tls i = storeResponse header rc data tls' i := by
  have headers (same : header ≤ i ∧ i < header + 16 ∨ tls i = tls' i) :
      (tls.store header (littleEndian 8 CMIF_OUT_HEADER_MAGIC.toNat)).store (header + 8)
          (littleEndian 8 rc.toNat) i =
        (tls'.store header (littleEndian 8 CMIF_OUT_HEADER_MAGIC.toNat)).store (header + 8)
          (littleEndian 8 rc.toNat) i := by
    have short (n : Nat) : (littleEndian 8 n).length = 8 := length_littleEndian 8 n
    refine Memory.store_congr ?_
    by_cases second : header + 8 ≤ i
    · exact same.imp (fun inside => ⟨second, by rw [short]; omega⟩) fun same => Memory.store_congr (.inr same)
    · exact .inr (Memory.store_congr (same.imp_left fun inside => ⟨inside.1, by rw [short]; omega⟩))
  rw [RAW_HEADER_SIZE] at same
  unfold storeResponse
  by_cases success : rc = 0
  · rw [if_pos success] at same
    rw [if_pos success, if_pos success]
    refine Memory.store_congr ?_
    by_cases behind : header + RAW_HEADER_SIZE ≤ i
    · exact same.imp (fun inside => ⟨behind, inside.2⟩) fun same => headers (.inr same)
    · rw [RAW_HEADER_SIZE] at behind
      exact .inr (headers (same.imp_left fun inside => ⟨inside.1, by omega⟩))
  · rw [if_neg success, Nat.add_zero] at same
    rw [if_neg success, if_neg success]
    exact headers same

/-- The words of the reply to a whole message are the same whatever was in the buffer. -/
theorem wordsOf_deliver (whole : Whole told.sent told.used) (parsed : told.sent.parseRequest = .ok r)
    (tls tls' : Memory)
    (responded : Returns (ipcServerRespond (told.handler targetVersion) (r.request (told.message tls)) state)
      (state', content, close)) :
    wordsOf content (told.handled tls) = wordsOf content (told.handled tls') := by
  obtain ⟨words, written⟩ := respond_output responded
  have size : outputSize (told.message tls) r = outputSize told.sent r := rfl
  have ends : writtenEnd (told.message tls) r = writtenEnd told.sent r := rfl
  rw [size] at words
  rw [ends] at written
  apply Memory.load_congr
  intro i below
  have inside : HIPC_HEADER_SIZE + i < replyEnd told.sent r := by
    rw [replyEnd, ← words]
    omega
  have same : (told.sent.deliver tls).tls (HIPC_HEADER_SIZE + i) =
      (told.sent.deliver tls').tls (HIPC_HEADER_SIZE + i) ∨ (told.used (HIPC_HEADER_SIZE + i)).isSome ∨
        cmifGetAlignedDataStart HIPC_HEADER_SIZE ≤ HIPC_HEADER_SIZE + i ∧
          HIPC_HEADER_SIZE + i < writtenEnd told.sent r := by
    by_cases stale : HIPC_HEADER_SIZE + i < cmifGetAlignedDataStart HIPC_HEADER_SIZE ∨
        writtenEnd told.sent r ≤ HIPC_HEADER_SIZE + i
    · rcases whole.reply r parsed _ (Nat.le_add_right ..) inside stale with sent | used
      · exact .inl ((if_pos sent).trans (if_pos sent).symm)
      · exact .inr (.inl used)
    · exact .inr (.inr (by omega))
  refine storeResponse_congr ?_
  rcases same with same | used | ⟨above, below⟩
  · right
    unfold Told.handled Told.message
    rw [same]
  · right
    obtain ⟨c, held⟩ := Option.isSome_iff_exists.mp used
    simp only [Told.handled, held, Option.getD_some]
  · exact .inl ⟨above, Nat.lt_of_lt_of_le below written⟩

end Replies

section Buffers
variable {m : TlsMessage} {used : Nat → Option UInt8}

theorem deliver_inside {i : Nat} (inside : i < m.dataEnd) (tls : Memory) : (m.deliver tls).tls i = m.tls i :=
  if_pos inside

theorem deliver_parseRequest (whole : Whole m used) (tls : Memory) :
    (m.deliver tls).parseRequest = m.parseRequest := by
  have same (start : Nat) (within : start + 8 ≤ m.dataEnd) :
      (m.deliver tls).tls.loadU64 start = m.tls.loadU64 start := by
    rw [Memory.loadU64, Memory.loadU64, deliver_load within]
  have hipc : (m.deliver tls).hipc = m.hipc := rfl
  have header : (m.deliver tls).header = m.header := rfl
  unfold TlsMessage.parseRequest
  rw [hipc, header]
  by_cases request : m.hipc.type = CmifCommandType_Request
  · by_cases long : RAW_HEADER_SIZE ≤ (m.hipc.numDataWords * (4 : UInt32)).toNat
    · have inside := whole.header request long
      rw [RAW_HEADER_SIZE] at inside
      rw [same m.header (by omega), same (m.header + 8) (by omega)]
    · simp only [if_pos request, Nat.lt_of_not_le long, true_or, if_true]
  · simp only [if_neg request]

/-- The command of a whole message is carried out with what is in the message. -/
theorem respond_deliver (whole : Whole m used) {r : RequestData} (parsed : m.parseRequest = .ok r)
    (tls tls' : Memory) (targetVersion : List UInt8) (told : Told) (state : State) :
    ipcServerRespond (told.handler targetVersion) (r.request (m.deliver tls)) state =
      ipcServerRespond (told.handler targetVersion) (r.request (m.deliver tls')) state := by
  have reads : serviceHandlerFunc targetVersion told.stack told.o (r.request (m.deliver tls)) state =
      serviceHandlerFunc targetVersion told.stack told.o (r.request (m.deliver tls')) state := by
    refine @serviceHandlerFunc_reads (m.deliver tls) (m.deliver tls') r rfl (fun p pointed i below => ?_)
      targetVersion told.stack told.o state
    have inside := whole.argument r p parsed pointed (by omega)
    rw [deliver_inside (by omega), deliver_inside (by omega)]
  have handles : (told.handler targetVersion).handle (r.request (m.deliver tls)) state =
      (told.handler targetVersion).handle (r.request (m.deliver tls')) state := by
    simp only [Told.handler, outputHandler, reads]
  unfold ipcServerRespond
  rw [handles]
  rfl

end Buffers

section Deliveries
variable {targetVersion : List UInt8} {told : Told} {state state' : State} {h : Handle} {closed : Bool}
  {events : List (IpcEvent Output)} {tls : Memory}

theorem answers_received (told : Told) (tls : Memory) : (told.answers tls).received =
    if told.k.receiveResult = 0 then (told.message tls).parseRequest.map
      (RequestData.request (told.message tls))
    else .error told.k.receiveResult := by
  rw [← parseRequest_message]
  rfl

theorem answers_replied (told : Told) (tls : Memory) : (told.answers tls).replied = told.k.replied := by
  unfold KernelAnswers.replied Told.answers
  rfl

theorem answers_without (told : Told) (tls : Memory) (place : Nat) :
    (told.without place).answers tls = (told.answers tls).without place := by
  unfold Told.answers Told.without KernelAnswers.without
  dsimp only
  split <;> rfl

theorem received_ok {r : IpcServerRequest} (received : (told.answers tls).received = .ok r) :
    told.k.receiveResult = 0 ∧ ∃ r', (told.message tls).parseRequest = .ok r' ∧ r = r'.request
      (told.message tls) := by
  rw [answers_received] at received
  split at received
  · rename_i taken
    cases parsed : (told.message tls).parseRequest with
    | error rc => simp [parsed, Except.map] at received
    | ok r' =>
      rw [parsed] at received
      exact ⟨taken, r', rfl, (Except.ok.inj received).symm⟩
  · contradiction

/-- A whole message is answered in the same way whatever was in the buffer. -/
theorem served_deliver (whole : told.k.receiveResult = 0 → Whole told.sent told.used)
    (served : Served (told.handler targetVersion) (told.answers tls) h state state' events closed)
      (tls' : Memory) :
    Served (told.handler targetVersion) (told.answers tls') h state state' events closed := by
  have again {r : IpcServerRequest} (received : (told.answers tls).received = .ok r) :
      ∃ r', (told.answers tls').received = .ok r' ∧ ∀ result,
        Returns (ipcServerRespond (told.handler targetVersion) r state) result →
          Returns (ipcServerRespond (told.handler targetVersion) r' state) result := by
    obtain ⟨taken, r', parsed', rfl⟩ := received_ok received
    have complete := whole taken
    have parsed : told.sent.parseRequest = .ok r' := (deliver_parseRequest complete tls).symm.trans parsed'
    have same : ipcServerRespond (told.handler targetVersion) (r'.request (told.message tls)) state =
        ipcServerRespond (told.handler targetVersion) (r'.request (told.message tls')) state :=
      respond_deliver complete parsed tls tls' targetVersion told state
    refine ⟨r'.request (told.message tls'), ?_, fun result responded => ?_⟩
    · have parsed' : (told.message tls').parseRequest = .ok r' :=
        (deliver_parseRequest complete tls').trans parsed
      rw [answers_received, if_pos taken, parsed', Except.map]
    · rw [← same]
      exact responded
  have still := (answers_replied told tls').trans (answers_replied told tls).symm
  cases served with
  | unreceived failed =>
    refine Served.unreceived (Eq.trans ?_ failed)
    rw [answers_received] at failed
    rw [answers_received, answers_received]
    by_cases taken : told.k.receiveResult = 0
    · have complete := whole taken
      rw [if_pos taken, Told.message, deliver_parseRequest complete] at failed
      rw [if_pos taken, if_pos taken, Told.message, Told.message, deliver_parseRequest complete,
        deliver_parseRequest complete]
      cases parsed : told.sent.parseRequest with
      | error rc => rfl
      | ok r =>
        rw [parsed] at failed
        contradiction
    · rw [if_neg taken, if_neg taken]
  | kept received responded replied =>
    obtain ⟨r', received', same⟩ := again received
    exact .kept received' (same _ responded) (still.trans replied)
  | ended received responded ended =>
    obtain ⟨r', received', same⟩ := again received
    refine .ended received' (same _ responded) ?_
    rwa [still]

/-- So is the whole call the same. -/
theorem turn_deliver {table table' : List Handle} {most : Nat} (whole : told.ReceivesWhole)
    (turn : Turn (told.handler targetVersion) (told.answers tls) most table state table' state'
      (.wait table :: events)) (tls' : Memory) :
    Turn (told.handler targetVersion) (told.answers tls') most table state table' state'
      (.wait table :: events) := by
  cases turn with
  | idle failed => exact .idle failed
  | unaccepted waited index port failed => exact .unaccepted waited index port failed
  | accepted waited index port taken room => exact .accepted waited index port taken room
  | refused waited index port taken full => exact .refused waited index port taken full
  | served waited index positive session served =>
    have later : 0 < told.k.handleIndex := by
      have same : told.k.handleIndex = _ := index
      omega
    exact .served waited index positive session (served_deliver (whole waited later) served tls')

/-- And so are the words that it sends. -/
theorem sends_deliver {table table' : List Handle} {most : Nat} (whole : told.ReceivesWhole)
    (turn : Turn (told.handler targetVersion) (told.answers tls) most table state table' state'
      (.wait table :: events)) (tls' : Memory) : told.sends tls events = told.sends tls' events := by
  have same {r : IpcServerRequest} {content : Reply Output} {close : Bool}
      (complete : told.k.receiveResult = 0 → Whole told.sent told.used)
      (received : (told.answers tls).received = .ok r)
      (responded : Returns (ipcServerRespond (told.handler targetVersion) r state) (state', content, close)) :
      wordsOf content (told.handled tls) = wordsOf content (told.handled tls') := by
    obtain ⟨taken, r', parsed', rfl⟩ := received_ok received
    have parsed := (deliver_parseRequest (complete taken) tls).symm.trans parsed'
    exact wordsOf_deliver (complete taken) parsed tls tls' responded
  cases turn with
  | idle | unaccepted | accepted | refused => rfl
  | served waited index positive session served =>
    have later : 0 < told.k.handleIndex := by
      have same : told.k.handleIndex = _ := index
      omega
    cases served with
    | unreceived => rfl
    | kept received responded | ended received responded =>
      exact congrArg (fun words => [words]) (same (whole waited later) received responded)

end Deliveries

end IpcService

end SysHelo
