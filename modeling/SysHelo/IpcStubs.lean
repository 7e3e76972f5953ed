import SysHelo.IpcMessage

/-! The client's stubs that carry data, and a call of one on its way through the buffers of the client
and of the server. -/
namespace SysHelo
open CString Stdio Loop MinIni IpcService

/-- What a stub asks libnx for: a command, with the bytes of its argument and room for its output. -/
structure Dispatch where
  requestId : UInt32
  inData : List UInt8
  outSize : Nat

def serviceDispatchIn (requestId : UInt64) (inData : List UInt8) : Dispatch := ⟨requestId.toUInt32, inData, 0⟩

def serviceDispatchOut (requestId : UInt64) (outSize : Nat) : Dispatch := ⟨requestId.toUInt32, [], outSize⟩

/-- The bytes of a list of values. -/
def configValueBytes (configValues : SysHeloConfigValueList) : List UInt8 :=
  (SysHeloConfigValue.all.map fun kval => littleEndian 8 (configValues kval).toNat).flatten

def sysheloIpcGetAPIVersion : Dispatch := serviceDispatchOut SysHeloIpcCmd_GetApiVersion 4

def sysheloIpcGetCurrentContext : Dispatch := serviceDispatchOut SysHeloIpcCmd_GetCurrentContext CONTEXT_SIZE

def sysheloIpcSetEnabled (enabled : Bool) : Dispatch :=
  serviceDispatchIn SysHeloIpcCmd_SetEnabled [enabled.toUInt8]

def sysheloIpcGetConfigValues : Dispatch :=
  serviceDispatchOut SysHeloIpcCmd_GetConfigValues CONFIG_VALUE_LIST_SIZE

def sysheloIpcSetConfigValues (configValues : SysHeloConfigValueList) : Dispatch :=
  serviceDispatchIn SysHeloIpcCmd_SetConfigValues (configValueBytes configValues)

/-- libnx puts the header at the aligned start of the data words, the argument behind it, and declares
room for 16 bytes of padding, the header and the argument. -/
def serviceMakeRequest (dataWords : Nat) (d : Dispatch) (tls : Memory) : TlsMessage :=
  let header := cmifGetAlignedDataStart dataWords
  let tls := tls.store header (littleEndian 4 CMIF_IN_HEADER_MAGIC.toNat ++ littleEndian 4 0 ++
    littleEndian 4 d.requestId.toNat ++ littleEndian 4 0)
  ⟨⟨CmifCommandType_Request, .ofNat ((16 + RAW_HEADER_SIZE + d.inData.length + 3) / 4), []⟩, dataWords,
    tls.store (header + RAW_HEADER_SIZE) d.inData⟩

/-- The kernel copies the message as far as it is declared; behind it is what was there before. -/
def TlsMessage.deliver (m : TlsMessage) (tls : Memory) : TlsMessage :=
  { m with tls := fun i => if i < m.dataEnd then m.tls i else tls i }

/-- The result and, on success, the output; nothing when the message is no response. -/
def serviceParseResponse (outSize : Nat) (m : TlsMessage) : Option (Result × Option (List UInt8)) :=
  if m.tls.loadU32 m.header ≠ CMIF_OUT_HEADER_MAGIC.toUInt32 then none
  else
    let result := m.tls.loadU32 (m.header + 8)
    some (result, if result = 0 then some (m.tls.load (m.header + RAW_HEADER_SIZE) outSize) else none)

namespace IpcService

/-- What a command puts into the buffer it is given. -/
def OutData.store (data : Memory) : OutData → Memory
  | .apiVersion version => data.store 0 (littleEndian 4 version.toNat)
  | .context ctx => (data.store 0 [ctx.enabled.toUInt8]).store 8 (littleEndian 8 ctx.applicationId.toNat)
  | .configValues values => data.store 0 (configValueBytes values)
  | .versionString _ => data

end IpcService

/-- The bytes of the buffer that are copied into the message; `data` is what it held before. -/
def Response.bytes (response : Response OutData) (data : Memory) : List UInt8 :=
  (response.data.elim data (·.store data)).load 0 response.dataSize

/-- The stubs that carry data, with their arguments. -/
inductive Stub where
  | getAPIVersion
  | getCurrentContext
  | setEnabled (enabled : Bool)
  | getConfigValues
  | setConfigValues (configValues : SysHeloConfigValueList)

namespace Stub

def dispatch : Stub → Dispatch
  | getAPIVersion => sysheloIpcGetAPIVersion
  | getCurrentContext => sysheloIpcGetCurrentContext
  | setEnabled enabled => sysheloIpcSetEnabled enabled
  | getConfigValues => sysheloIpcGetConfigValues
  | setConfigValues configValues => sysheloIpcSetConfigValues configValues

/-- What is in the structure that the client has given for the output. -/
def read (out : Memory) : Stub → Option OutData
  | getAPIVersion => some (.apiVersion (out.loadU32 0))
  | getCurrentContext => some (.context ⟨out 0 ≠ 0, out.loadU64 8⟩)
  | getConfigValues => some (.configValues (readConfigValues out))
  | setEnabled _ => none
  | setConfigValues _ => none

end Stub

/-- What is in the memories before a call: the message buffers of the client and of the server, the
buffer for the output of a command, and the client's structure. -/
structure Before where
  client : Memory
  server : Memory
  data : Memory
  out : Memory

section Server
variable (targetVersion : List UInt8) (stack : Chars INI_BUFFERSIZE) (o : Outcomes)

/-- The method of the service that is named as the stub is, on the stub's argument. -/
def Stub.method (state : State) : Stub → Program (State × Result × Option OutData)
  | getAPIVersion => pure (state, 0, some (.apiVersion SYSHELO_IPC_API_VERSION))
  | getCurrentContext => pure (state, 0, some (.context state.mgr.getCurrentContext))
  | setEnabled enabled => pure ({ state with mgr := IpcService.setEnabled enabled.toUInt8 state.mgr }, 0,
      none)
  | getConfigValues =>
    let (rc, values) := IpcService.getConfigValues state.mgr
    pure (state, rc, values.map .configValues)
  | setConfigValues configValues => do
    let (files, mgr, rc) ← IpcService.setConfigValues stack o configValues state.files state.mgr
    pure (⟨mgr, files⟩, rc, none)

/-- What the server makes of a message in its buffer: the response that is in it afterwards, or why
there is none. -/
def serve (data : Memory) (m : TlsMessage) (state : State) : Program (State × Except Result TlsMessage) :=
  match m.parseRequest with
  | .error rc => pure (state, .error rc)
  | .ok r =>
    if m.hipc.type = CmifCommandType_Request then do
      let (state, response) ← serviceHandlerFunc targetVersion stack o (r.request m) state
      pure (state, .ok (prepareResponse response.result (response.bytes data) m.tls))
    else if m.hipc.type = CmifCommandType_Close then pure (state, .ok (prepareResponse 0 [] m.tls))
    else pure (state, .ok (prepareResponse (MAKERESULT 11 403) [] m.tls))

/-- The message of a stub as it is sent, and as it is received. -/
def Stub.sent (dataWords : Nat) (mem : Before) (s : Stub) : TlsMessage :=
  serviceMakeRequest dataWords s.dispatch mem.client

def Stub.received (dataWords : Nat) (mem : Before) (s : Stub) : TlsMessage :=
  (s.sent dataWords mem).deliver mem.server

/-- What the client makes of the response in its buffer: the result and its structure. -/
def Stub.receive (out : Memory) (s : Stub) (m : TlsMessage) : Option (Result × Option OutData) :=
  (serviceParseResponse s.dispatch.outSize m).map fun response =>
    (response.1, response.2.bind fun bytes => s.read (out.store 0 bytes))

/-- A call of a stub, from its arguments to what it gives back; nothing when there is no response. -/
def Stub.call (dataWords : Nat) (mem : Before) (state : State) (s : Stub) :
    Program (State × Option (Result × Option OutData)) := do
  let (state, response) ← serve targetVersion stack o mem.data (s.received dataWords mem) state
  match response with
  | .error _ => pure (state, none)
  | .ok m => pure (state, s.receive mem.out (m.deliver (s.sent dataWords mem).tls))

end Server

theorem deliver_load {m : TlsMessage} {tls : Memory} {start size : Nat} (within : start + size ≤ m.dataEnd) :
    (m.deliver tls).tls.load start size = m.tls.load start size := by
  apply Memory.load_congr
  intro i below
  have inside : start + i < m.dataEnd := by omega
  exact if_pos inside

section Request
variable (dataWords : Nat) {d : Dispatch} (tls tls' : Memory)

theorem serviceMakeRequest_words (small : d.inData.length < 2 ^ 31) :
    (serviceMakeRequest dataWords d tls).hipc.numDataWords.toNat = (35 + d.inData.length) / 4 := by
  have size : 16 + RAW_HEADER_SIZE + d.inData.length + 3 = 35 + d.inData.length := by
    rw [RAW_HEADER_SIZE]
    omega
  have fits : (35 + d.inData.length) / 4 < 2 ^ 32 := by omega
  simp only [serviceMakeRequest, size]
  rw [UInt32.toNat_ofNat', Nat.mod_eq_of_lt fits]

/-- The padding that is declared is as much as the alignment can take. -/
theorem serviceMakeRequest_room (small : d.inData.length < 2 ^ 31) :
    cmifGetAlignedDataStart dataWords + RAW_HEADER_SIZE + d.inData.length ≤
      (serviceMakeRequest dataWords d tls).dataEnd := by
  have near := (aligned_bounds dataWords).2.1
  have start : (serviceMakeRequest dataWords d tls).dataWords = dataWords := rfl
  rw [TlsMessage.dataEnd, serviceMakeRequest_words dataWords tls small, start, RAW_HEADER_SIZE]
  omega

theorem serviceMakeRequest_header (small : d.inData.length < 2 ^ 31) :
    ((serviceMakeRequest dataWords d tls).deliver tls').tls.load (cmifGetAlignedDataStart dataWords) 16 =
      littleEndian 8 CMIF_IN_HEADER_MAGIC.toNat ++ littleEndian 8 d.requestId.toNat := by
  have room := serviceMakeRequest_room dataWords tls small
  rw [RAW_HEADER_SIZE] at room
  rw [deliver_load (by omega), serviceMakeRequest]
  dsimp only
  rw [Memory.load_store_outside (.inl (by rw [RAW_HEADER_SIZE])), List.append_assoc,
    littleEndian_widen (by decide), littleEndian_widen d.requestId.toNat_lt]
  exact load_stored _ _ _

theorem serviceMakeRequest_argument (small : d.inData.length < 2 ^ 31) :
    ((serviceMakeRequest dataWords d tls).deliver tls').tls.load
      (cmifGetAlignedDataStart dataWords + RAW_HEADER_SIZE) d.inData.length = d.inData := by
  rw [deliver_load (serviceMakeRequest_room dataWords tls small)]
  exact load_stored _ _ _

theorem serviceMakeRequest_parsed (small : d.inData.length < 2 ^ 31) :
    ((serviceMakeRequest dataWords d tls).deliver tls').parseRequest =
      .ok ⟨d.requestId.toUInt64, some (cmifGetAlignedDataStart dataWords + RAW_HEADER_SIZE),
        (35 + d.inData.length) / 4 * 4 - RAW_HEADER_SIZE⟩ := by
  have header := serviceMakeRequest_header dataWords tls tls' small
  have words := serviceMakeRequest_words dataWords tls small
  generalize received : (serviceMakeRequest dataWords d tls).deliver tls' = m at header ⊢
  have type : m.hipc.type = CmifCommandType_Request := by rw [← received]; rfl
  have place : m.header = cmifGetAlignedDataStart dataWords := by rw [← received]; rfl
  have size : (m.hipc.numDataWords * (4 : UInt32)).toNat = (35 + d.inData.length) / 4 * 4 := by
    have same : m.hipc.numDataWords = (serviceMakeRequest dataWords d tls).hipc.numDataWords := by
      rw [← received]
      rfl
    have four : (4 : UInt32).toNat = 4 := rfl
    rw [UInt32.toNat_mul, same, words, four]
    exact Nat.mod_eq_of_lt (by omega)
  have halves : m.tls.load (cmifGetAlignedDataStart dataWords) 8 = littleEndian 8 CMIF_IN_HEADER_MAGIC.toNat ∧
      m.tls.load (cmifGetAlignedDataStart dataWords + 8) 8 = littleEndian 8 d.requestId.toNat := by
    rw [Memory.load_add 8 8] at header
    exact List.append_inj header (by simp)
  have magic : m.tls.loadU64 m.header = CMIF_IN_HEADER_MAGIC := by
    rw [place]
    exact Memory.loadU64_of_load halves.1
  have command : m.tls.loadU64 (m.header + 8) = d.requestId.toUInt64 := by
    rw [place]
    exact Memory.loadU64_of_load (by rw [halves.2, UInt32.toNat_toUInt64])
  have large : RAW_HEADER_SIZE < (35 + d.inData.length) / 4 * 4 := by
    rw [RAW_HEADER_SIZE]
    omega
  unfold TlsMessage.parseRequest
  rw [if_pos type]
  dsimp only
  rw [size, magic, command, place, if_neg (by simp only [ne_eq, not_true_eq_false, or_false]; omega),
    if_pos large]

end Request

theorem prepareResponse_received (rc : Result) {bytes : List UInt8} (small : bytes.length < 2 ^ 32)
    (tls tls' : Memory) :
    serviceParseResponse bytes.length ((prepareResponse rc bytes tls).deliver tls') =
      some (rc, if rc = 0 then some bytes else none) := by
  have ends := prepareResponse_dataEnd rc tls small
  have place := prepareResponse_header rc bytes tls
  have magic : (prepareResponse rc bytes tls).tls.loadU64 16 = CMIF_OUT_HEADER_MAGIC := storeResponse_magic 16
  have result : (prepareResponse rc bytes tls).tls.loadU64 (16 + 8) = rc.toUInt64 := storeResponse_result 16
  have output (success : rc = 0) :
      (prepareResponse rc bytes tls).tls.load (16 + RAW_HEADER_SIZE) bytes.length = bytes :=
    storeResponse_output 16 success
  generalize prepareResponse rc bytes tls = m at ends place magic result output
  have place' : (m.deliver tls').header = 16 := place
  have narrow {start : Nat} (within : start + 8 ≤ m.dataEnd) :
      (m.deliver tls').tls.loadU32 start = (m.tls.loadU64 start).toUInt32 := by
    rw [Memory.toUInt32_loadU64, Memory.loadU32, Memory.loadU32, deliver_load (by omega)]
  unfold serviceParseResponse
  rw [place', narrow (by omega), magic, if_neg (by decide), narrow (by omega), result,
    UInt32.toUInt32_toUInt64]
  by_cases success : rc = 0
  · dsimp only
    rw [if_pos success, if_pos success, deliver_load (by rw [RAW_HEADER_SIZE]; omega), output success]
  · dsimp only
    rw [if_neg success, if_neg success]

theorem load_copied (data out : Memory) {size start width : Nat} (within : start + width ≤ size) :
    (out.store 0 (data.load 0 size)).load start width = data.load start width := by
  apply Memory.load_congr
  intro i below
  have inside : start + i < (data.load 0 size).length := by
    rw [Memory.length_load]
    omega
  have copied : out.store 0 (data.load 0 size) (0 + (start + i)) = (data.load 0 size)[start + i] :=
    Memory.store_inside inside
  rw [Memory.getElem_load, Nat.zero_add] at copied
  exact copied

theorem configValueBytes_split (configValues : SysHeloConfigValueList) (kval : SysHeloConfigValue) :
    ∃ front back, configValueBytes configValues =
        front ++ littleEndian 8 (configValues kval).toNat ++ back ∧
      front.length = 8 * SysHeloConfigValue.all.idxOf kval := by
  obtain ⟨before, after, all, first⟩ := List.eq_append_cons_of_mem (SysHeloConfigValue.mem_all kval)
  let field (kval : SysHeloConfigValue) := littleEndian 8 (configValues kval).toNat
  refine ⟨(before.map field).flatten, (after.map field).flatten, ?_, ?_⟩
  · rw [configValueBytes, all]
    simp only [List.map_append, List.map_cons, List.flatten_append, List.flatten_cons,
      List.append_assoc, field]
  · rw [all, List.idxOf_append_of_notMem first, List.idxOf_cons_self, List.length_flatten, List.map_map]
    have eight : List.length ∘ field = fun _ => 8 := by
      funext kval
      exact length_littleEndian ..
    rw [eight, List.map_const', List.sum_replicate_nat]
    omega

theorem length_configValueBytes (configValues : SysHeloConfigValueList) :
    (configValueBytes configValues).length = CONFIG_VALUE_LIST_SIZE := by
  have eight : List.length ∘ (fun kval => littleEndian 8 (configValues kval).toNat) = fun _ => 8 := by
    funext kval
    exact length_littleEndian ..
  rw [configValueBytes, List.length_flatten, List.map_map, eight, List.map_const', List.sum_replicate_nat,
    CONFIG_VALUE_LIST_SIZE, Nat.mul_comm]

theorem readConfigValues_eq {mem : Memory} {start : Nat} {configValues : SysHeloConfigValueList}
    (bytes : mem.load start CONFIG_VALUE_LIST_SIZE = configValueBytes configValues) :
    readConfigValues (fun i => mem (start + i)) = configValues := by
  funext kval
  obtain ⟨front, back, split, position⟩ := configValueBytes_split configValues kval
  have size : CONFIG_VALUE_LIST_SIZE = front.length + 8 + back.length := by
    rw [← length_configValueBytes configValues, split, List.length_append, List.length_append,
      length_littleEndian]
  rw [split, size, Memory.load_add, Memory.load_add] at bytes
  have parts := List.append_inj (List.append_inj bytes (by simp)).1 (by simp)
  rw [readConfigValues, readU64_eq, Memory.loadU64, Memory.load_shift, ← position, parts.2,
    number_littleEndian (configValues kval).toNat_lt, UInt64.ofNat_toNat]

theorem length_setConfigValues (configValues : SysHeloConfigValueList) :
    (Stub.setConfigValues configValues).dispatch.inData.length = CONFIG_VALUE_LIST_SIZE :=
  length_configValueBytes configValues

theorem inData_lt (s : Stub) : s.dispatch.inData.length < 2 ^ 31 := by
  cases s with
  | setConfigValues configValues =>
    rw [length_setConfigValues]
    decide
  | setEnabled enabled => exact Nat.one_lt_two_pow (by decide)
  | _ => exact Nat.two_pow_pos 31

theorem outSize_lt (s : Stub) : s.dispatch.outSize < 2 ^ 32 := by
  cases s with
  | getAPIVersion => decide
  | getCurrentContext => decide
  | getConfigValues => decide
  | _ => exact Nat.two_pow_pos 32

theorem getConfigValues_cases (mgr : HeloManager) :
    IpcService.getConfigValues mgr = (SYSHELO_ERROR .configNotLoaded, none) ∨
      ∃ list, IpcService.getConfigValues mgr = (0, some list) := by
  unfold IpcService.getConfigValues
  split
  · exact .inl rfl
  · exact .inr ⟨_, rfl⟩

section Call
variable (targetVersion : List UInt8) (stack : Chars INI_BUFFERSIZE) (o : Outcomes) (state : State)

theorem serviceHandlerFunc_stub (s : Stub) {m : TlsMessage} {p size : Nat}
    (enough : s.dispatch.inData.length ≤ size)
    (argument : m.tls.load p s.dispatch.inData.length = s.dispatch.inData) :
    serviceHandlerFunc targetVersion stack o
        (RequestData.request m ⟨s.dispatch.requestId.toUInt64, some p, size⟩) state = (do
      let (state, rc, out) ← s.method stack o state
      pure (state, ⟨rc, out, s.dispatch.outSize⟩)) := by
  cases s with
  | getAPIVersion => rfl
  | getCurrentContext => rfl
  | setEnabled enabled =>
    have byte : m.tls (p + 0) = enabled.toUInt8 := List.head_eq_of_cons_eq argument
    have large : size ≥ 1 := enough
    have handled : serviceHandlerFunc targetVersion stack o (RequestData.request m ⟨4, some p, size⟩) state =
        if size ≥ 1 then
          pure ({ state with mgr := IpcService.setEnabled (m.tls (p + 0)) state.mgr }, ⟨0, none, 0⟩)
        else pure (state, ⟨SYSHELO_ERROR .generic, none, 0⟩) := rfl
    rw [if_pos large, byte] at handled
    exact handled
  | getConfigValues => rfl
  | setConfigValues configValues =>
    rw [length_setConfigValues] at enough argument
    have handled : serviceHandlerFunc targetVersion stack o (RequestData.request m ⟨6, some p, size⟩) state =
        if size ≥ CONFIG_VALUE_LIST_SIZE then do
          let (files, mgr, rc) ← IpcService.setConfigValues stack o (readConfigValues fun i => m.tls (p + i))
            state.files state.mgr
          pure (⟨mgr, files⟩, ⟨rc, none, 0⟩)
        else pure (state, ⟨SYSHELO_ERROR .generic, none, 0⟩) := rfl
    rw [if_pos enough, readConfigValues_eq argument] at handled
    refine handled.trans ?_
    simp only [Stub.method, bind_assoc, pure_bind]
    rfl

theorem receive_response (s : Stub) (response : Response OutData)
    (size : response.dataSize = s.dispatch.outSize)
    (data out tls tls' : Memory) :
    s.receive out ((prepareResponse response.result (response.bytes data) tls).deliver tls') =
      some (response.result, if response.result = 0 then s.read
        (out.store 0 (response.bytes data)) else none) := by
  have length : (response.bytes data).length = s.dispatch.outSize := by
    rw [Response.bytes, Memory.length_load, size]
  have small := outSize_lt s
  have received := prepareResponse_received response.result
    (show (response.bytes data).length < 2 ^ 32 by rw [length]; exact small) tls tls'
  rw [length] at received
  rw [Stub.receive, received]
  by_cases success : response.result = 0
  · simp only [if_pos success, Option.map_some, Option.bind_some]
  · simp only [if_neg success, Option.map_some, Option.bind_none]

theorem read_copied (s : Stub) (data out : Memory) :
    s.read (out.store 0 (data.load 0 s.dispatch.outSize)) = s.read data := by
  cases s with
  | getAPIVersion =>
    have copied := load_copied data out (show 0 + 4 ≤ 4 by decide)
    simp only [Stub.read, Memory.loadU32, Stub.dispatch, sysheloIpcGetAPIVersion, serviceDispatchOut, copied]
  | getCurrentContext =>
    have enabled := load_copied data out (show 0 + 1 ≤ CONTEXT_SIZE by decide)
    have application := load_copied data out (show 8 + 8 ≤ CONTEXT_SIZE by decide)
    simp only [Memory.load, List.cons.injEq, and_true] at enabled
    simp only [Stub.read, Memory.loadU64, Stub.dispatch, sysheloIpcGetCurrentContext,
      serviceDispatchOut, enabled,
      application]
  | setEnabled enabled => rfl
  | getConfigValues =>
    have within (kval : SysHeloConfigValue) :
        8 * SysHeloConfigValue.all.idxOf kval + 8 ≤ CONFIG_VALUE_LIST_SIZE := by
      have position : SysHeloConfigValue.all.idxOf kval < SysHeloConfigValue.all.length :=
        List.idxOf_lt_length_of_mem (SysHeloConfigValue.mem_all kval)
      rw [CONFIG_VALUE_LIST_SIZE]
      omega
    have values : readConfigValues (out.store 0 (data.load 0 CONFIG_VALUE_LIST_SIZE)) =
        readConfigValues data := by
      funext kval
      simp only [readConfigValues, readU64_eq, Memory.loadU64, load_copied data out (within kval)]
    simp only [Stub.read, Stub.dispatch, sysheloIpcGetConfigValues, serviceDispatchOut, values]
  | setConfigValues configValues => rfl

theorem read_stored (data : Memory) :
    (∀ version, Stub.getAPIVersion.read ((OutData.apiVersion version).store data) = some
      (.apiVersion version)) ∧
    (∀ ctx, Stub.getCurrentContext.read ((OutData.context ctx).store data) = some (.context ctx)) ∧
    ∀ values, Stub.getConfigValues.read ((OutData.configValues values).store data) = some
      (.configValues values) := by
  refine ⟨fun version => ?_, fun ctx => ?_, fun values => ?_⟩
  · have number : (data.store 0 (littleEndian 4 version.toNat)).loadU32 0 = version := by
      apply Memory.loadU32_of_load
      have stored := load_stored data 0 (littleEndian 4 version.toNat)
      rwa [length_littleEndian] at stored
    rw [OutData.store, Stub.read, number]
  · obtain ⟨enabled, applicationId⟩ := ctx
    have number : ((data.store 0 [enabled.toUInt8]).store 8 (littleEndian 8 applicationId.toNat)).loadU64 8 =
        applicationId := by
      apply Memory.loadU64_of_load
      have stored := load_stored (data.store 0 [enabled.toUInt8]) 8 (littleEndian 8 applicationId.toNat)
      rwa [length_littleEndian] at stored
    have flag : (data.store 0 [enabled.toUInt8]).store 8 (littleEndian 8 applicationId.toNat) 0 =
        enabled.toUInt8 :=
      Memory.store_outside (.inl (by decide))
    rw [OutData.store, Stub.read, number, flag]
    cases enabled <;> rfl
  · have copied := load_stored data 0 (configValueBytes values)
    rw [length_configValueBytes] at copied
    have list := readConfigValues_eq copied
    simp only [Nat.zero_add] at list
    rw [OutData.store, Stub.read, list]

theorem receive_output (s : Stub) {d : OutData} {data : Memory} (same : s.read (d.store data) = some d)
    (out tls tls' : Memory) :
    s.receive out
      ((prepareResponse 0 (Response.bytes ⟨0, some d, s.dispatch.outSize⟩ data) tls).deliver tls') =
      some (0, some d) := by
  have given := receive_response s ⟨0, some d, s.dispatch.outSize⟩ rfl data out tls tls'
  rw [if_pos rfl] at given
  rw [given, Response.bytes, Option.elim_some, read_copied, same]

/-- Nothing is read when the method has failed, or when there is nothing to read. -/
theorem receive_none (s : Stub) (rc : Result) (nothing : rc = 0 → ∀ mem, s.read mem = none)
    (data out tls tls' : Memory) :
    s.receive out
      ((prepareResponse rc (Response.bytes ⟨rc, none, s.dispatch.outSize⟩ data) tls).deliver tls') =
      some (rc, none) := by
  have given := receive_response s ⟨rc, none, s.dispatch.outSize⟩ rfl data out tls tls'
  by_cases success : rc = 0
  · rwa [if_pos success, nothing success] at given
  · rwa [if_neg success] at given

/-- A response is built and received as it stands, whatever the stub. -/
theorem call_served (s : Stub) (dataWords : Nat) (mem : Before) {r : RequestData}
    (parsed : (s.received dataWords mem).parseRequest = .ok r)
    (handled : serviceHandlerFunc targetVersion stack o (r.request (s.received dataWords mem)) state = (do
      let (state, rc, out) ← s.method stack o state
      pure (state, ⟨rc, out, s.dispatch.outSize⟩)))  :
    s.call targetVersion stack o dataWords mem state = (do
      let (state, rc, out) ← s.method stack o state
      pure (state, s.receive mem.out
        ((prepareResponse rc (Response.bytes ⟨rc, out, s.dispatch.outSize⟩ mem.data)
        (s.received dataWords mem).tls).deliver (s.sent dataWords mem).tls))) := by
  have type : (s.received dataWords mem).hipc.type = CmifCommandType_Request := rfl
  unfold Stub.call serve
  simp only [parsed, type, if_true, handled, bind_assoc, pure_bind]

/-- The request of a stub is accepted, its method is run on exactly its argument, and the client gets back
the method's result and, on success, the structure that the method has produced. -/
theorem call_method (s : Stub) (dataWords : Nat) (mem : Before) :
    (∃ r p, (s.received dataWords mem).parseRequest = .ok r ∧ r.cmdId = s.dispatch.requestId.toUInt64 ∧
      r.ptr = some p ∧ s.dispatch.inData.length ≤ r.size ∧
      (s.received dataWords mem).tls.load p s.dispatch.inData.length = s.dispatch.inData ∧
      serviceHandlerFunc targetVersion stack o (r.request (s.received dataWords mem)) state = (do
        let (state, rc, out) ← s.method stack o state
        pure (state, ⟨rc, out, s.dispatch.outSize⟩))) ∧
    s.call targetVersion stack o dataWords mem state = (do
      let (state, rc, out) ← s.method stack o state
      pure (state, some (rc, out))) := by
  have small := inData_lt s
  have parsed := serviceMakeRequest_parsed dataWords mem.client mem.server small
  have argument := serviceMakeRequest_argument dataWords mem.client mem.server small
  have enough : s.dispatch.inData.length ≤ (35 + s.dispatch.inData.length) / 4 * 4 - RAW_HEADER_SIZE := by
    rw [RAW_HEADER_SIZE]
    omega
  have handled := serviceHandlerFunc_stub targetVersion stack o state s enough argument
  constructor
  · exact ⟨_, _, parsed, rfl, rfl, enough, argument, handled⟩
  · rw [call_served _ _ _ _ s dataWords mem parsed handled]
    obtain ⟨version, context, values⟩ := read_stored mem.data
    cases s with
    | getAPIVersion =>
      simp only [Stub.method, pure_bind]
      rw [receive_output _ (version _)]
    | getCurrentContext =>
      simp only [Stub.method, pure_bind]
      rw [receive_output _ (context _)]
    | setEnabled enabled =>
      simp only [Stub.method, pure_bind]
      rw [receive_none _ _ fun _ _ => rfl]
    | getConfigValues =>
      simp only [Stub.method, pure_bind]
      obtain refused | ⟨list, given⟩ := getConfigValues_cases state.mgr
      · simp only [refused, Option.map_none]
        rw [receive_none _ _ fun success => absurd success (by decide)]
      · simp only [given, Option.map_some]
        rw [receive_output _ (values list)]
    | setConfigValues configValues =>
      simp only [Stub.method, bind_assoc, pure_bind]
      congr 1
      funext outcome
      rw [receive_none _ _ fun _ _ => rfl]

end Call

end SysHelo
