import SysHelo.Lib.Loop

/-! The IPC server: its table of handles, and what one call of `ipcServerProcess` does with it. What
the kernel answers, and what libnx makes of a message, are arguments. -/
namespace SysHelo
open Loop

abbrev Result := UInt32

def MAKERESULT (module description : UInt32) : Result :=
  (module &&& (0x1ff : UInt32)) ||| ((description &&& (0x1fff : UInt32)) <<< (9 : UInt32))

/-- The errors of libnx and of the kernel that the server looks at or gives. -/
def LibnxError_OutOfMemory : Result := MAKERESULT 345 2
def LibnxError_NotFound : Result := MAKERESULT 345 9
def LibnxError_BadInput : Result := MAKERESULT 345 11
def KernelError_TimedOut : Result := MAKERESULT 1 117

abbrev Handle := UInt32

/-- A name as `smEncodeName` gives it. -/
abbrev SmServiceName := UInt64

/-- libnx: how many objects a thread can wait on. -/
def MAX_WAIT_OBJECTS : Nat := 0x40

structure IpcServer where
  srvName : SmServiceName
  handles : Vector Handle MAX_WAIT_OBJECTS
  max : Nat
  count : Nat

def CmifCommandType_Close : UInt32 := 2
def CmifCommandType_Request : UInt32 := 4
def CMIF_IN_HEADER_MAGIC : UInt64 := 0x49434653
def CMIF_OUT_HEADER_MAGIC : UInt64 := 0x4f434653

/-- `magic`, then `cmdId` or `result`. -/
structure IpcServerRawHeader where
  magic : UInt64
  cmdId : UInt64

/-- `sizeof(IpcServerRawHeader)` -/
def RAW_HEADER_SIZE : Nat := 16

/-- What `hipcParseRequest` makes of a message: its type, how many words of data it has, and the
sizes of its receive buffers. -/
structure HipcParsedRequest where
  type : UInt32
  numDataWords : UInt32
  recvBuffers : List Nat

/-- A message in the buffer of the thread. `data` is what `cmifGetAlignedDataStart` points to: a
header and the bytes behind it. -/
structure Message where
  hipc : HipcParsedRequest
  data : Option (IpcServerRawHeader × (Nat → UInt8))

structure IpcServerRequestData where
  cmdId : UInt64
  ptr : Option (Nat → UInt8)
  size : Nat

structure IpcServerRequest where
  hipc : HipcParsedRequest
  data : IpcServerRequestData

/-- What a handler gives back: its result, what it has put out, and the size of that. -/
structure Response (α : Type) where
  result : Result
  data : Option α
  dataSize : Nat

/-- A handler works on its user data, and is a program of the kind the others are. -/
structure IpcServerRequestHandler (σ α : Type) where
  handle : IpcServerRequest → σ → Program (σ × Response α)
  stable : ∀ r userdata, Stable (handle r userdata)

/-- What a client gets. -/
structure Reply (α : Type) where
  type : UInt32
  numDataWords : Nat
  magic : UInt64
  result : Result
  data : Option α

/-- The calls that the server makes on its handles. -/
inductive IpcEvent (α : Type) where
  | register (port : Handle)
  | wait (handles : List Handle)
  | accept (port : Handle) (session : Option Handle)
  | receive (session : Handle)
  | reply (session : Handle) (content : Reply α)
  | close (handle : Handle)
  | unregister (srvName : SmServiceName)

/-- What the kernel answers during one call: the wait, and whichever of the others is made. -/
structure KernelAnswers where
  waitResult : Result
  handleIndex : Int
  acceptResult : Result
  session : Handle
  receiveResult : Result
  message : Message
  replyResult : Result

variable {σ α : Type}

/-- `handles` holds whatever it did before; `port` is what registering the service gives. -/
def ipcServerInit (server : IpcServer) (srvName : SmServiceName) (maxSessions : Nat) (registerResult : Result)
    (port : Handle) : IpcServer × Result × List (IpcEvent α) :=
  if maxSessions < 1 ∨ maxSessions > MAX_WAIT_OBJECTS - 1 then (server, LibnxError_BadInput, [])
  else
    let server := { server with srvName, max := maxSessions + 1, count := 0 }
    if registerResult = 0 then
      ({ server with handles := server.handles.setIfInBounds 0 port, count := 1 }, 0, [.register port])
    else (server, registerResult, [])

def ipcServerExit (unregisterResult : Result) (server : IpcServer) :
    IpcServer × Result × List (IpcEvent α) :=
  let closed := (List.range server.count).map fun i => .close (server.handles.getD i 0)
  ({ server with count := 0 }, unregisterResult, closed ++ [.unregister server.srvName])

def ipcServerAddSession (session : Handle) (server : IpcServer) : IpcServer × Result :=
  if server.count ≥ server.max then (server, LibnxError_OutOfMemory)
  else
    ({ server with
        handles := server.handles.setIfInBounds server.count session
        count := server.count + 1 }, 0)

/-- `for (j; n more times; j++) handles[j] = handles[j + 1]` -/
def shiftHandles (j : Nat) : (n : Nat) → Vector Handle MAX_WAIT_OBJECTS → Vector Handle MAX_WAIT_OBJECTS
  | 0, handles => handles
  | n + 1, handles => shiftHandles (j + 1) n (handles.setIfInBounds j (handles.getD (j + 1) 0))

def ipcServerDeleteSession (index : Nat) (server : IpcServer) : IpcServer × Result × List (IpcEvent α) :=
  if index = 0 ∨ index ≥ server.count then (server, LibnxError_BadInput, [])
  else
    ({ server with
        handles := shiftHandles index (server.count - 1 - index) server.handles
        count := server.count - 1 }, 0, [.close (server.handles.getD index 0)])

def ipcServerParseRequest (message : Message) : Except Result IpcServerRequest :=
  if message.hipc.type = CmifCommandType_Request then
    let dataSize := (message.hipc.numDataWords * (4 : UInt32)).toNat
    match message.data with
    | none => .error LibnxError_BadInput
    | some (header, rest) =>
      if dataSize < RAW_HEADER_SIZE ∨ header.magic ≠ CMIF_IN_HEADER_MAGIC then .error LibnxError_BadInput
      else if dataSize > RAW_HEADER_SIZE then
        .ok ⟨message.hipc, header.cmdId, some rest, dataSize - RAW_HEADER_SIZE⟩
      else .ok ⟨message.hipc, header.cmdId, none, 0⟩
  else .ok ⟨message.hipc, 0, none, 0⟩

def ipcServerPrepareResponse (rc : Result) (data : Option α) (dataSize : Nat) : Reply α where
  type := CmifCommandType_Request
  numDataWords := (RAW_HEADER_SIZE + dataSize + 0x10) / 4
  magic := CMIF_OUT_HEADER_MAGIC
  result := rc
  data := if rc = 0 then data else none

def ipcServerProcessNewSession (k : KernelAnswers) (server : IpcServer) :
    IpcServer × Result × List (IpcEvent α) :=
  let port := server.handles.getD 0 0
  if k.acceptResult = 0 then
    match ipcServerAddSession k.session server with
    | (server, rc) =>
      (server, rc, .accept port (some k.session) :: if rc = 0 then [] else [.close k.session])
  else (server, k.acceptResult, [.accept port none])

/-- The `switch` on the type of a request: the response, and whether the session is to be closed. The
size of the data is read after the handler has set it. -/
def ipcServerRespond (handler : IpcServerRequestHandler σ α) (r : IpcServerRequest) (userdata : σ) :
    Program (σ × Reply α × Bool) :=
  if r.hipc.type = CmifCommandType_Request then do
    let (userdata, response) ← handler.handle r userdata
    pure (userdata, ipcServerPrepareResponse response.result response.data response.dataSize, false)
  else if r.hipc.type = CmifCommandType_Close then
    pure (userdata, ipcServerPrepareResponse 0 none 0, true)
  else pure (userdata, ipcServerPrepareResponse (MAKERESULT 11 403) none 0, false)

/-- The request that is received, or why there is none. -/
def KernelAnswers.received (k : KernelAnswers) : Except Result IpcServerRequest :=
  if k.receiveResult = 0 then ipcServerParseRequest k.message else .error k.receiveResult

/-- The result of replying: there is nobody to wait for after it. -/
def KernelAnswers.replied (k : KernelAnswers) : Result :=
  if k.replyResult = KernelError_TimedOut then 0 else k.replyResult

def ipcServerProcessSession (handler : IpcServerRequestHandler σ α) (k : KernelAnswers) (index : Nat)
    (server : IpcServer) (userdata : σ) : Program (IpcServer × σ × Result × List (IpcEvent α)) :=
  let session := server.handles.getD index 0
  match k.received with
  | .error rc =>
    match ipcServerDeleteSession index server with
    | (server, _, closed) => pure (server, userdata, rc, .receive session :: closed)
  | .ok r => do
    let (userdata, content, close) ← ipcServerRespond handler r userdata
    match if k.replied ≠ 0 ∨ close then ipcServerDeleteSession index server else (server, 0, []) with
    | (server, _, closed) =>
      pure (server, userdata, k.replied, .receive session :: .reply session content :: closed)

def ipcServerProcess (handler : IpcServerRequestHandler σ α) (k : KernelAnswers) (server : IpcServer)
    (userdata : σ) : Program (IpcServer × σ × Result × List (IpcEvent α)) :=
  let waited := .wait (server.handles.toList.take server.count)
  let rc := if k.waitResult = 0 ∧ (k.handleIndex < 0 ∨ k.handleIndex ≥ server.count)
    then LibnxError_NotFound else k.waitResult
  if rc = 0 then
    if k.handleIndex ≠ 0 then do
      let (server, userdata, rc, events) ←
        ipcServerProcessSession handler k k.handleIndex.toNat server userdata
      pure (server, userdata, rc, waited :: events)
    else
      match ipcServerProcessNewSession k server with
      | (server, rc, events) => pure (server, userdata, rc, waited :: events)
  else pure (server, userdata, rc, [waited])

end SysHelo
