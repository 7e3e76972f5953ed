import SysHelo.Lib.Bytes
import SysHelo.IpcService

/-! The messages in the buffer of a thread, byte by byte: where a request's header and argument are
looked for, and where a response is put. Positions are offsets from the start of the buffer. -/
namespace SysHelo
open CString Stdio Loop MinIni IpcService

/-- What libnx reads from the first words of a message, where its data words start, and the bytes of
the buffer it is in. -/
structure TlsMessage where
  hipc : HipcParsedRequest
  dataWords : Nat
  tls : Memory

/-- The start of the data words, rounded up to a multiple of 16 bytes. -/
def cmifGetAlignedDataStart (dataWords : Nat) : Nat := (dataWords + 0xf) / 16 * 16

namespace TlsMessage

/-- Where the header is. -/
def header (m : TlsMessage) : Nat := cmifGetAlignedDataStart m.dataWords

/-- Where the data words that the message declares end. -/
def dataEnd (m : TlsMessage) : Nat := m.dataWords + 4 * m.hipc.numDataWords.toNat

/-- The message as the server handles it. -/
def message (m : TlsMessage) : Message where
  hipc := m.hipc
  data := some (⟨m.tls.loadU64 m.header, m.tls.loadU64 (m.header + 8)⟩,
    fun i => m.tls (m.header + RAW_HEADER_SIZE + i))

end TlsMessage

/-- The data of a request, with a position for its pointer. -/
structure RequestData where
  cmdId : UInt64
  ptr : Option Nat
  size : Nat

/-- The request as the handler is given it. -/
def RequestData.request (m : TlsMessage) (r : RequestData) : IpcServerRequest where
  hipc := m.hipc
  data := ⟨r.cmdId, r.ptr.map fun p i => m.tls (p + i), r.size⟩

/-- `_ipcServerParseRequest` on the buffer itself. -/
def TlsMessage.parseRequest (m : TlsMessage) : Except Result RequestData :=
  if m.hipc.type = CmifCommandType_Request then
    let dataSize := (m.hipc.numDataWords * (4 : UInt32)).toNat
    if dataSize < RAW_HEADER_SIZE ∨ m.tls.loadU64 m.header ≠ CMIF_IN_HEADER_MAGIC then
      .error LibnxError_BadInput
    else if dataSize > RAW_HEADER_SIZE then
      .ok ⟨m.tls.loadU64 (m.header + 8), some (m.header + RAW_HEADER_SIZE), dataSize - RAW_HEADER_SIZE⟩
    else .ok ⟨m.tls.loadU64 (m.header + 8), none, 0⟩
  else .ok ⟨0, none, 0⟩

theorem parseRequest_message (m : TlsMessage) :
    ipcServerParseRequest m.message = m.parseRequest.map (RequestData.request m) := by
  unfold ipcServerParseRequest TlsMessage.parseRequest TlsMessage.message
  dsimp only
  split
  · split
    · rfl
    · split <;> rfl
  · rfl

theorem toNat_foldr_bytes {s : List UInt8} (short : s.length ≤ 8) :
    (s.foldr (fun c (value : UInt64) => (value <<< (8 : UInt64)) ||| c.toUInt64) 0).toNat = number s := by
  induction s with
  | nil => rfl
  | cons c s ih =>
    have rest := ih (by rw [List.length_cons] at short; omega)
    have bound := number_lt s
    have limit : 256 ^ s.length ≤ 256 ^ 7 :=
      Nat.pow_le_pow_right (by decide) (by rw [List.length_cons] at short; omega)
    have small : number s * 2 ^ 8 < 2 ^ 64 := by omega
    have shifted : number s <<< 8 % 2 ^ 64 = number s <<< 8 := by
      rw [Nat.shiftLeft_eq, Nat.mod_eq_of_lt small]
    rw [List.foldr_cons, UInt64.toNat_or, UInt64.toNat_shiftLeft, rest, number_cons]
    have eight : (8 : UInt64).toNat % 64 = 8 := rfl
    rw [eight, shifted, UInt8.toNat_toUInt64, ← Nat.shiftLeft_add_eq_or_of_lt c.toNat_lt, Nat.shiftLeft_eq]
    omega

theorem readU64_eq (ptr : Memory) (start : Nat) : readU64 ptr start = ptr.loadU64 start := by
  have folded : readU64 ptr start =
      (ptr.load start 8).foldr (fun c (value : UInt64) => (value <<< (8 : UInt64)) ||| c.toUInt64) 0 := rfl
  rw [folded, ← UInt64.toNat_inj, toNat_foldr_bytes (by rw [Memory.length_load]), Memory.toNat_loadU64]

/-- How many bytes behind the pointer the command of a request reads. -/
def argumentSize (r : RequestData) : Nat :=
  if r.cmdId = SysHeloIpcCmd_SetEnabled ∧ r.size ≥ 1 then 1
  else if r.cmdId = SysHeloIpcCmd_SetConfigValues ∧ r.size ≥ CONFIG_VALUE_LIST_SIZE then
    CONFIG_VALUE_LIST_SIZE
  else 0

theorem argumentSize_le (r : RequestData) : argumentSize r ≤ r.size := by
  unfold argumentSize
  split
  · rename_i enabled
    exact enabled.2
  · split
    · rename_i values
      exact values.2
    · exact Nat.zero_le _

/-- The command of a request depends on no other byte of the buffer. -/
theorem serviceHandlerFunc_reads {m m' : TlsMessage} {r : RequestData} (hipc : m.hipc = m'.hipc)
    (same : ∀ p, r.ptr = some p → ∀ i, i < argumentSize r → m.tls (p + i) = m'.tls (p + i))
    (targetVersion : List UInt8) (stack : Chars INI_BUFFERSIZE) (o : Outcomes) (state : State) :
    serviceHandlerFunc targetVersion stack o (r.request m) state =
      serviceHandlerFunc targetVersion stack o (r.request m') state := by
  obtain ⟨cmdId, ptr, size⟩ := r
  cases ptr with
  | none => simp only [RequestData.request, hipc, Option.map_none]
  | some p =>
    have bytes := same p rfl
    unfold serviceHandlerFunc
    simp only [RequestData.request, hipc, Option.map_some]
    -- only two of the commands look at the payload
    have enabled (command : cmdId = SysHeloIpcCmd_SetEnabled) (enough : size ≥ 1) :
        m.tls (p + 0) = m'.tls (p + 0) := by
      apply bytes
      rw [argumentSize, if_pos ⟨command, enough⟩]
      decide
    have values (command : cmdId = SysHeloIpcCmd_SetConfigValues) (enough : size ≥ CONFIG_VALUE_LIST_SIZE) :
        readConfigValues (fun i => m.tls (p + i)) = readConfigValues fun i => m'.tls (p + i) := by
      have other : ¬ (cmdId = SysHeloIpcCmd_SetEnabled ∧ size ≥ 1) := by
        rw [command]
        exact fun both => absurd both.1 (by decide)
      funext kval
      simp only [readConfigValues, readU64_eq, Memory.loadU64]
      congr 2
      apply Memory.load_congr
      intro i below
      apply bytes
      rw [argumentSize, if_neg other, if_pos ⟨command, enough⟩]
      have position : SysHeloConfigValue.all.idxOf kval < SysHeloConfigValue.all.length :=
        List.idxOf_lt_length_of_mem (SysHeloConfigValue.mem_all kval)
      rw [CONFIG_VALUE_LIST_SIZE]
      omega
    iterate 4 refine ite_congr rfl (fun _ => rfl) fun _ => ?_
    refine ite_congr rfl (fun command => ite_congr rfl (fun enough => ?_) fun _ => rfl) fun _ => ?_
    · rw [enabled command enough]
    refine ite_congr rfl (fun _ => rfl) fun _ => ?_
    refine ite_congr rfl (fun command => ite_congr rfl (fun enough => ?_) fun _ => rfl) fun _ => rfl
    rw [values command enough]

/-- The header, the payload, and what the command reads of that, are within the declared data words. -/
structure Inside (m : TlsMessage) (r : RequestData) : Prop where
  header : m.dataWords ≤ m.header ∧ m.header + RAW_HEADER_SIZE ≤ m.dataEnd
  payload : ∀ p, r.ptr = some p → m.dataWords ≤ p ∧ p + r.size ≤ m.dataEnd
  argument : ∀ p, r.ptr = some p → ∀ i, i < argumentSize r → p + i < m.dataEnd

theorem aligned_bounds (dataWords : Nat) : dataWords ≤ cmifGetAlignedDataStart dataWords ∧
    cmifGetAlignedDataStart dataWords < dataWords + 16 ∧
    (cmifGetAlignedDataStart dataWords = dataWords ↔ dataWords % 16 = 0) := by
  unfold cmifGetAlignedDataStart
  omega

theorem parseRequest_ok {m : TlsMessage} (request : m.hipc.type = CmifCommandType_Request) {r : RequestData}
    (accepted : m.parseRequest = .ok r) :
    16 ≤ m.hipc.numDataWords.toNat * 4 % 2 ^ 32 ∧ m.hipc.numDataWords.toNat * 4 % 2 ^ 32 = 16 + r.size ∧
      r.ptr = if 0 < r.size then some (m.header + RAW_HEADER_SIZE) else none := by
  have size : (m.hipc.numDataWords * (4 : UInt32)).toNat = m.hipc.numDataWords.toNat * 4 % 2 ^ 32 :=
    UInt32.toNat_mul ..
  simp only [TlsMessage.parseRequest, if_pos request, size, RAW_HEADER_SIZE] at accepted
  generalize m.hipc.numDataWords.toNat * 4 % 2 ^ 32 = dataSize at accepted ⊢
  split at accepted
  · contradiction
  rename_i enough
  rw [not_or] at enough
  split at accepted
  · obtain rfl := Except.ok.inj accepted
    dsimp only
    rw [if_pos (by omega)]
    exact ⟨by omega, by omega, rfl⟩
  · obtain rfl := Except.ok.inj accepted
    exact ⟨by omega, by dsimp only; omega, rfl⟩

/-- The payload of an accepted request is within the message exactly when the data words start at a
multiple of 16 bytes, or are so many that their size is no number of 32 bits. -/
theorem inside_iff {m : TlsMessage} (request : m.hipc.type = CmifCommandType_Request) {r : RequestData}
    (accepted : m.parseRequest = .ok r) :
    Inside m r ↔ m.dataWords % 16 = 0 ∨ 2 ^ 30 ≤ m.hipc.numDataWords.toNat := by
  obtain ⟨above, near, aligned⟩ := aligned_bounds m.dataWords
  obtain ⟨enough, size, ptr⟩ := parseRequest_ok request accepted
  have words := m.hipc.numDataWords.toNat_lt
  have room := argumentSize_le r
  rw [← aligned]
  constructor
  · rintro ⟨⟨-, header⟩, payload, -⟩
    simp only [TlsMessage.header, TlsMessage.dataEnd, RAW_HEADER_SIZE] at header payload ptr
    by_cases some : 0 < r.size
    · rw [if_pos some] at ptr
      have inside := (payload _ ptr).2
      omega
    · omega
  · intro fits
    have inside : m.header + RAW_HEADER_SIZE + r.size ≤ m.dataEnd := by
      simp only [TlsMessage.header, TlsMessage.dataEnd, RAW_HEADER_SIZE]
      omega
    have payload {p : Nat} (pointed : r.ptr = some p) : p = m.header + RAW_HEADER_SIZE := by
      rw [ptr, Option.ite_none_right_eq_some] at pointed
      exact (Option.some.inj pointed.2).symm
    constructor
    · exact ⟨above, by omega⟩
    · intro p pointed
      obtain rfl := payload pointed
      exact ⟨above.trans (Nat.le_add_right ..), inside⟩
    · intro p pointed i below
      obtain rfl := payload pointed
      omega

/-- A request to enable, with five data words and its header 16 bytes into the buffer. -/
def enableRequest (dataWords : Nat) : TlsMessage where
  hipc := ⟨CmifCommandType_Request, 5, []⟩
  dataWords := dataWords
  tls := Memory.store (fun _ => 0) 16 (littleEndian 8 CMIF_IN_HEADER_MAGIC.toNat ++
    littleEndian 8 SysHeloIpcCmd_SetEnabled.toNat)

theorem inside_iff_aligned : Inside (enableRequest 16) ⟨SysHeloIpcCmd_SetEnabled, some 32, 4⟩ ↔
    (16 : Nat) % 16 = 0 ∨ 2 ^ 30 ≤ (5 : UInt32).toNat :=
  inside_iff (m := enableRequest 16) rfl rfl

theorem enableRequest_parsed :
    (enableRequest 8).parseRequest = .ok ⟨SysHeloIpcCmd_SetEnabled, some 32, 4⟩ := rfl

/-- When the data words start 8 bytes into the buffer, the command reads a byte behind them. -/
theorem not_inside_unaligned :
    let m := enableRequest 8
    m.hipc.type = CmifCommandType_Request ∧ m.dataWords % 4 = 0 ∧
      ∃ r p, m.parseRequest = .ok r ∧ ¬ Inside m r ∧ r.ptr = some p ∧ 0 < argumentSize r ∧ m.dataEnd ≤ p := by
  intro m
  refine ⟨rfl, by decide, _, 32, enableRequest_parsed, fun inside => ?_, rfl, by decide, by decide⟩
  exact absurd inside.header.2 (by decide)

/-- How much a handler may put out. -/
def IPC_SERVER_EXT_RESPONSE_MAX_DATA_SIZE : Nat := 0x100 - 0x10 - RAW_HEADER_SIZE

/-- The size of a thread's message buffer. -/
def TLS_BUFFER_SIZE : Nat := 0x100

/-- libnx: the first words of a message without descriptors. -/
def HIPC_HEADER_SIZE : Nat := 8

/-- The buffer after the header and, on success, the output have been stored. -/
def storeResponse (header : Nat) (rc : Result) (data : List UInt8) (tls : Memory) : Memory :=
  let tls := tls.store header (littleEndian 8 CMIF_OUT_HEADER_MAGIC.toNat)
  let tls := tls.store (header + 8) (littleEndian 8 rc.toNat)
  if rc = 0 then tls.store (header + RAW_HEADER_SIZE) data else tls

/-- `_ipcServerPrepareResponse` on the buffer itself; `data` is as long as the size it is given. -/
def prepareResponse (rc : Result) (data : List UInt8) (tls : Memory) : TlsMessage where
  hipc := ⟨CmifCommandType_Request, .ofNat ((RAW_HEADER_SIZE + data.length + 0x10) / 4), []⟩
  dataWords := HIPC_HEADER_SIZE
  tls := storeResponse (cmifGetAlignedDataStart HIPC_HEADER_SIZE) rc data tls

/-- The message is as long as the buffer at most, and has the header and, on success, the output in the
data words it declares. -/
structure FitsBuffer (rc : Result) (data : List UInt8) (m : TlsMessage) : Prop where
  size : m.dataEnd ≤ TLS_BUFFER_SIZE
  header : m.dataWords ≤ m.header ∧ m.header + RAW_HEADER_SIZE ≤ m.dataEnd
  magic : m.tls.loadU64 m.header = CMIF_OUT_HEADER_MAGIC
  result : m.tls.loadU64 (m.header + 8) = rc.toUInt64
  output : rc = 0 → m.header + RAW_HEADER_SIZE + data.length ≤ m.dataEnd ∧
    m.tls.load (m.header + RAW_HEADER_SIZE) data.length = data

section Response
variable {rc : Result} {data : List UInt8} {tls : Memory}

theorem prepareResponse_words (rc : Result) (tls : Memory) (small : data.length < 2 ^ 32) :
    (prepareResponse rc data tls).hipc.numDataWords.toNat = (32 + data.length) / 4 := by
  have size : RAW_HEADER_SIZE + data.length + 0x10 = 32 + data.length := by
    rw [RAW_HEADER_SIZE]
    omega
  have fits : (32 + data.length) / 4 < 2 ^ 32 := by omega
  rw [prepareResponse, size]
  dsimp only
  rw [UInt32.toNat_ofNat', Nat.mod_eq_of_lt fits]

theorem prepareResponse_header (rc : Result) (data : List UInt8) (tls : Memory) :
    (prepareResponse rc data tls).header = 16 := by
  have place : cmifGetAlignedDataStart HIPC_HEADER_SIZE = 16 := rfl
  exact place

theorem prepareResponse_dataEnd (rc : Result) (tls : Memory) (small : data.length < 2 ^ 32) :
    (prepareResponse rc data tls).dataEnd = 8 + 4 * ((32 + data.length) / 4) := by
  rw [TlsMessage.dataEnd, prepareResponse_words rc tls small, prepareResponse, HIPC_HEADER_SIZE]

theorem load_stored (mem : Memory) (start : Nat) (s : List UInt8) :
    (mem.store start s).load start s.length = s := by
  have stored := @Memory.load_store mem start [] s []
  rwa [List.append_nil, List.nil_append] at stored

theorem storeResponse_load (header start size : Nat) (within : start + size ≤ header + RAW_HEADER_SIZE) :
    (storeResponse header rc data tls).load start size =
      ((tls.store header (littleEndian 8 CMIF_OUT_HEADER_MAGIC.toNat)).store (header + 8)
        (littleEndian 8 rc.toNat)).load start size := by
  unfold storeResponse
  by_cases success : rc = 0
  · dsimp only
    rw [if_pos success, Memory.load_store_outside (.inl within)]
  · dsimp only
    rw [if_neg success]

theorem storeResponse_magic (header : Nat) :
    (storeResponse header rc data tls).loadU64 header = CMIF_OUT_HEADER_MAGIC := by
  apply Memory.loadU64_of_load
  rw [storeResponse_load _ _ _ (by rw [RAW_HEADER_SIZE]; omega), Memory.load_store_outside (.inl (by omega))]
  have stored := load_stored tls header (littleEndian 8 CMIF_OUT_HEADER_MAGIC.toNat)
  rwa [length_littleEndian] at stored

theorem storeResponse_result (header : Nat) :
    (storeResponse header rc data tls).loadU64 (header + 8) = rc.toUInt64 := by
  apply Memory.loadU64_of_load
  rw [storeResponse_load _ _ _ (by rw [RAW_HEADER_SIZE]), UInt32.toNat_toUInt64]
  have stored := load_stored (tls.store header (littleEndian 8 CMIF_OUT_HEADER_MAGIC.toNat)) (header + 8)
    (littleEndian 8 rc.toNat)
  rwa [length_littleEndian] at stored

theorem storeResponse_output (header : Nat) (success : rc = 0) :
    (storeResponse header rc data tls).load (header + RAW_HEADER_SIZE) data.length = data := by
  unfold storeResponse
  rw [if_pos success]
  exact load_stored _ _ data

/-- The message that is prepared is the reply of the server's model. -/
theorem prepareResponse_reply (small : data.length < 2 ^ 32) :
    let m := prepareResponse rc data tls
    let reply := ipcServerPrepareResponse rc (some data) data.length
    m.hipc.type = reply.type ∧ m.hipc.numDataWords.toNat = reply.numDataWords ∧
      m.tls.loadU64 m.header = reply.magic ∧ m.tls.loadU64 (m.header + 8) = reply.result.toUInt64 ∧
      ∀ output, reply.data = some output →
        m.tls.load (m.header + RAW_HEADER_SIZE) output.length = output := by
  intro m reply
  have words : m.hipc.numDataWords.toNat = (32 + data.length) / 4 := prepareResponse_words _ _ small
  refine ⟨rfl, ?_, storeResponse_magic _, storeResponse_result _, fun output given => ?_⟩
  · rw [words, show reply.numDataWords = (16 + data.length + 0x10) / 4 from rfl]
    congr 1
    omega
  · by_cases success : rc = 0
    · have same : data = output := by simpa [reply, ipcServerPrepareResponse, success] using given
      rw [← same]
      exact storeResponse_output _ success
    · simp [reply, ipcServerPrepareResponse, success] at given

/-- An output fits the message buffer exactly when it is five bytes shorter than the limit. -/
theorem fitsBuffer_iff (rc : Result) (tls : Memory)
    (allowed : data.length ≤ IPC_SERVER_EXT_RESPONSE_MAX_DATA_SIZE) :
    FitsBuffer rc data (prepareResponse rc data tls) ↔ data.length ≤ 219 := by
  have limit : IPC_SERVER_EXT_RESPONSE_MAX_DATA_SIZE = 224 := rfl
  rw [limit] at allowed
  have ends := prepareResponse_dataEnd rc tls (show data.length < 2 ^ 32 by omega)
  have place := prepareResponse_header rc data tls
  constructor
  · intro fits
    have size := fits.size
    rw [ends, TLS_BUFFER_SIZE] at size
    omega
  · intro short
    constructor
    · rw [ends, TLS_BUFFER_SIZE]
      omega
    · rw [ends, place, RAW_HEADER_SIZE]
      have first : (prepareResponse rc data tls).dataWords = 8 := rfl
      rw [first]
      omega
    · exact storeResponse_magic _
    · exact storeResponse_result _
    · intro success
      constructor
      · rw [ends, place, RAW_HEADER_SIZE]
        omega
      · exact storeResponse_output _ success

end Response

theorem fitsBuffer_longest :
    FitsBuffer 0 (List.replicate 219 1) (prepareResponse 0 (List.replicate 219 1) fun _ => 0) :=
  (fitsBuffer_iff 0 (fun _ => 0) (by rw [List.length_replicate]; decide)).mpr List.length_replicate.le

/-- An output of 220 bytes is allowed, and its message ends 4 bytes behind the buffer. -/
theorem not_fitsBuffer :
    let data : List UInt8 := List.replicate 220 0
    let m := prepareResponse 0 data fun _ => 0
    data.length ≤ IPC_SERVER_EXT_RESPONSE_MAX_DATA_SIZE ∧ m.dataEnd = TLS_BUFFER_SIZE + 4 ∧
      ¬ FitsBuffer 0 data m := by
  intro data m
  have length : data.length = 220 := List.length_replicate
  have ends : m.dataEnd = TLS_BUFFER_SIZE + 4 := by
    rw [prepareResponse_dataEnd _ _ (by rw [length]; decide), length]
    rfl
  refine ⟨by rw [length]; decide, ends, fun fits => ?_⟩
  have size := fits.size
  rw [ends] at size
  omega

end SysHelo
