import SysHelo.HeloManager
import SysHelo.IpcServer

/-! The commands of the IPC service, and the handler that chooses among them. -/
namespace SysHelo
open CString Stdio Loop MinIni

inductive SysHeloError where
  | generic
  | configNotLoaded
  | configSaveFailed
  deriving DecidableEq

def SysHeloError.code : SysHeloError → UInt32
  | .generic => 0
  | .configNotLoaded => 1
  | .configSaveFailed => 2

def SYSHELO_ERROR_MODULE : UInt32 := 388

def SYSHELO_ERROR (desc : SysHeloError) : Result := MAKERESULT SYSHELO_ERROR_MODULE desc.code

namespace IpcService

/-- The values of a reply, when it is one of success. -/
def getConfigValues (mgr : HeloManager) : Result × Option SysHeloConfigValueList :=
  if !mgr.config.hasLoaded then (SYSHELO_ERROR .configNotLoaded, none)
  else (0, some mgr.config.getConfigValues)

def setConfigValues (stack : Chars INI_BUFFERSIZE) (o : Outcomes) (configValues : SysHeloConfigValueList)
    (files : Files) (mgr : HeloManager) : Program (Files × HeloManager × Result) :=
  if !mgr.config.hasLoaded then pure (files, mgr, SYSHELO_ERROR .configNotLoaded)
  else do
    let (files, config, saved) ← mgr.config.setConfigValues stack o configValues true files
    pure (files, { mgr with config }, if saved then 0 else SYSHELO_ERROR .configSaveFailed)

def setEnabled (enabled : UInt8) (mgr : HeloManager) : HeloManager :=
  { mgr with config := mgr.config.setEnabled (enabled ≠ 0) }

def exit (mgr : HeloManager) : HeloManager := mgr.setRunning false

def SYSHELO_IPC_API_VERSION : UInt32 := 1

def SysHeloIpcCmd_GetApiVersion : UInt64 := 0
def SysHeloIpcCmd_GetVersionString : UInt64 := 1
def SysHeloIpcCmd_GetCurrentContext : UInt64 := 2
def SysHeloIpcCmd_Exit : UInt64 := 3
def SysHeloIpcCmd_SetEnabled : UInt64 := 4
def SysHeloIpcCmd_GetConfigValues : UInt64 := 5
def SysHeloIpcCmd_SetConfigValues : UInt64 := 6

/-- What the commands put out: into the reply, or (the version string) into the client's buffer. -/
inductive OutData where
  | apiVersion (version : UInt32)
  | versionString (buffer : List UInt8)
  | context (context : SysHeloContext)
  | configValues (configValues : SysHeloConfigValueList)

/-- What the handler works on: the manager and the files. -/
structure State where
  mgr : HeloManager
  files : Files

/-- `strncpy` of the version, `TARGET_VERSION`, with room for a terminator that it may not write. -/
def getVersionString (targetVersion : List UInt8) (bufSize : Nat) : List UInt8 :=
  if bufSize = 0 then []
  else (targetVersion ++ List.replicate (bufSize - 1) 0).take (bufSize - 1)

/-- A number of eight bytes, the lowest first. -/
def readU64 (ptr : Nat → UInt8) (start : Nat) : UInt64 :=
  (List.range 8).foldr (fun i value => (value <<< (8 : UInt64)) ||| (ptr (start + i)).toUInt64) 0

def readConfigValues (ptr : Nat → UInt8) : SysHeloConfigValueList := fun kval =>
  readU64 ptr (8 * SysHeloConfigValue.all.idxOf kval)

/-- `sizeof(SysHeloConfigValueList)` -/
def CONFIG_VALUE_LIST_SIZE : Nat := 8 * SysHeloConfigValue.all.length

/-- `sizeof(SysHeloContext)` -/
def CONTEXT_SIZE : Nat := 16

/-- A request that breaks out of the `switch` is answered with a generic error. -/
def serviceHandlerFunc (targetVersion : List UInt8) (stack : Chars INI_BUFFERSIZE) (o : Outcomes)
    (r : IpcServerRequest) (state : State) : Program (State × Response OutData) :=
  let generic : Program (State × Response OutData) := pure (state, ⟨SYSHELO_ERROR .generic, none, 0⟩)
  if r.data.cmdId = SysHeloIpcCmd_GetApiVersion then
    pure (state, ⟨0, some (.apiVersion SYSHELO_IPC_API_VERSION), 4⟩)
  else if r.data.cmdId = SysHeloIpcCmd_GetVersionString then
    match r.hipc.recvBuffers with
    | bufSize :: _ => pure (state, ⟨0, some (.versionString (getVersionString targetVersion bufSize)), 0⟩)
    | [] => generic
  else if r.data.cmdId = SysHeloIpcCmd_GetCurrentContext then
    pure (state, ⟨0, some (.context state.mgr.getCurrentContext), CONTEXT_SIZE⟩)
  else if r.data.cmdId = SysHeloIpcCmd_Exit then
    pure ({ state with mgr := exit state.mgr }, ⟨0, none, 0⟩)
  else if r.data.cmdId = SysHeloIpcCmd_SetEnabled then
    match r.data.ptr with
    | some ptr =>
      if r.data.size ≥ 1 then
        pure ({ state with mgr := setEnabled (ptr 0) state.mgr }, ⟨0, none, 0⟩)
      else generic
    | none => generic
  else if r.data.cmdId = SysHeloIpcCmd_GetConfigValues then
    match getConfigValues state.mgr with
    | (rc, configValues) => pure (state, ⟨rc, configValues.map .configValues, 8⟩)
  else if r.data.cmdId = SysHeloIpcCmd_SetConfigValues then
    match r.data.ptr with
    | some ptr =>
      if r.data.size ≥ CONFIG_VALUE_LIST_SIZE then do
        let (files, mgr, rc) ← setConfigValues stack o (readConfigValues ptr) state.files state.mgr
        pure (⟨mgr, files⟩, ⟨rc, none, 0⟩)
      else generic
    | none => generic
  else generic

end IpcService

end SysHelo
