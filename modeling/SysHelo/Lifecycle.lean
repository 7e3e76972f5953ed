import SysHelo.Isolation
import SysHelo.SessionTable

/-! The process from the first statement of `main` to its last, and the thread that serves the sessions
meanwhile. -/
namespace SysHelo
open CString Stdio Loop Handles MinIni

def KernelError_Cancelled : Result := MAKERESULT 1 118

namespace ProcessManagement

def PROCESS_MANAGEMENT_QLAUNCH_TID : UInt64 := 0x0100000000001000

/-- `pmdmntGetApplicationProcessId` and `pminfoGetProgramId`, as far as they are called. -/
structure Answers where
  processResult : Result
  programResult : Result
  tid : UInt64

/-- `0x20f` says that there is no such process. -/
def getCurrentApplicationId (answers : Answers) : Except Result UInt64 :=
  if answers.processResult = 0x20f then .ok PROCESS_MANAGEMENT_QLAUNCH_TID
  else if answers.processResult ≠ 0 then .error answers.processResult
  else if answers.programResult = 0x20f then .ok PROCESS_MANAGEMENT_QLAUNCH_TID
  else if answers.programResult ≠ 0 then .error answers.programResult
  else .ok answers.tid

end ProcessManagement

/-- The thread of `IpcService`, once it has been created. It is stuck in a call that does not come back. -/
inductive ThreadState where
  | created
  | running
  | stuck
  | finished
  | closed
  deriving DecidableEq

/-- The fields of `IpcService` that its methods use. -/
structure IpcService where
  server : IpcServer
  running : Bool

/-- What `main` does next. The destructor of `IpcService` is one of its statements, and a `Tick` is two:
`RefreshContext`, and `Refresh` of the configuration. -/
inductive Statement where
  | fileInitialize
  | processInitialize
  | waitForQLaunch
  | createManager
  | createService
  | managerRunning
  | enable
  | startService
  | loop
  | refreshContext
  | refreshConfig
  | waitForNextTick
  | stopService
  | waitForExit
  | deleteService
  | deleteManager
  | processExit
  | fileExit
  | returned
  | terminated
  deriving DecidableEq

/-- What is remembered of a run: the ticks, with the application that each has found, and the requests that
the handler was called with. -/
inductive Moment where
  | tick (applicationId : Option UInt64)
  | served (r : IpcServerRequest)

/-- The objects on the heap and the thread; whether the thread has been cancelled, and whether an exception
has been caught. For what is said about a run: the handle that the service was registered with, what was
done with handles, and the moments. -/
structure Process where
  statement : Statement
  heloMgr : Option HeloManager
  ipcSrv : Option IpcService
  thread : Option ThreadState
  cancelled : Bool
  thrown : Bool
  port : Handle
  trace : List (Op Handle)
  history : List Moment

namespace KernelAnswers

/-- The kernel answers one of the calls with a cancellation. -/
def Cancels (k : KernelAnswers) : Prop :=
  k.waitResult = KernelError_Cancelled ∨ k.acceptResult = KernelError_Cancelled ∨
    k.receiveResult = KernelError_Cancelled ∨ k.replyResult = KernelError_Cancelled

instance (k : KernelAnswers) : Decidable k.Cancels := inferInstanceAs (Decidable (_ ∨ _))

/-- The request that the handler is called with, if it is. -/
def request (k : KernelAnswers) (server : IpcServer) : Option IpcServerRequest :=
  if k.waitResult = 0 ∧ 0 < k.handleIndex ∧ k.handleIndex < server.count then
    match k.received with
    | .ok r => if r.hipc.type = CmifCommandType_Request then some r else none
    | .error _ => none
  else none

end KernelAnswers

namespace Process

/-- The thread has been started, and has not finished. -/
def Alive (p : Process) : Prop := p.thread = some .running ∨ p.thread = some .stuck

/-- `throw`, to the end of the block that catches. -/
def throws (p : Process) : Process := { p with statement := .fileExit, thrown := true }

/-- `SetRunning(false)` of a service that runs. -/
def cancel (srv : IpcService) (p : Process) : Process :=
  { p with ipcSrv := some { srv with running := false }, cancelled := true, statement := .waitForExit }

/-- A statement of `main` with each way it can go, or one call of `ipcServerProcess` on the other thread, with
whatever files there are by then. What is used must be there. -/
inductive Step (targetVersion : List UInt8) : Process → Process → Prop where
  | fileInitialized (here : p.statement = .fileInitialize) :
      Step targetVersion p { p with statement := .processInitialize }
  | fileFatal (here : p.statement = .fileInitialize) :
      Step targetVersion p { p with statement := .terminated }
  | processInitialized (here : p.statement = .processInitialize) :
      Step targetVersion p { p with statement := .waitForQLaunch }
  | processThrows (here : p.statement = .processInitialize) : Step targetVersion p p.throws
  | qlaunchMissing (here : p.statement = .waitForQLaunch) : Step targetVersion p p
  | qlaunchFound (here : p.statement = .waitForQLaunch) :
      Step targetVersion p { p with statement := .createManager }
  | managerCreated (here : p.statement = .createManager) :
      Step targetVersion p { p with heloMgr := some .create, statement := .createService }
  | priorityThrows (here : p.statement = .createService) : Step targetVersion p p.throws
  | registerThrows {before server : IpcServer} {port : Handle} {events : List (IpcEvent Unit)}
      (here : p.statement = .createService)
      (initialised : ipcServerInit before srvName 42 registerResult port = (server, rc, events))
      (failed : rc ≠ 0) :
      Step targetVersion p { p.throws with trace := p.trace ++ events.flatMap IpcEvent.ops }
  | threadThrows {before server : IpcServer} {port : Handle} {events : List (IpcEvent Unit)}
      (here : p.statement = .createService)
      (initialised : ipcServerInit before srvName 42 registerResult port = (server, 0, events)) :
      Step targetVersion p { p.throws with port, trace := p.trace ++ events.flatMap IpcEvent.ops }
  | serviceCreated {before server : IpcServer} {port : Handle} {events : List (IpcEvent Unit)}
      (here : p.statement = .createService)
      (initialised : ipcServerInit before srvName 42 registerResult port = (server, 0, events)) :
      Step targetVersion p { p with
        ipcSrv := some ⟨server, false⟩
        thread := some .created
        port
        trace := p.trace ++ events.flatMap IpcEvent.ops
        statement := .managerRunning }
  | managerRunning (here : p.statement = .managerRunning) (there : p.heloMgr = some mgr) :
      Step targetVersion p { p with heloMgr := some (mgr.setRunning true), statement := .enable }
  | enabled (here : p.statement = .enable) (there : p.heloMgr = some mgr) :
      Step targetVersion p { p with
        heloMgr := some { mgr with config := mgr.config.setEnabled true }
        statement := .startService }
  | startThrows (here : p.statement = .startService) (there : p.ipcSrv = some srv) (stopped : !srv.running) :
      Step targetVersion p { p.throws with ipcSrv := some { srv with running := true } }
  | started (here : p.statement = .startService) (there : p.ipcSrv = some srv) (stopped : !srv.running) :
      Step targetVersion p { p with
        ipcSrv := some { srv with running := true }
        thread := some .running
        statement := .loop }
  | goesOn (here : p.statement = .loop) (there : p.heloMgr = some mgr) (running : mgr.running) :
      Step targetVersion p { p with statement := .refreshContext }
  | leaves (here : p.statement = .loop) (there : p.heloMgr = some mgr) (stopped : !mgr.running) :
      Step targetVersion p { p with statement := .stopService }
  | applicationThrows (here : p.statement = .refreshContext) (there : p.heloMgr = some mgr)
      (failed : ProcessManagement.getCurrentApplicationId answers = .error rc) :
      Step targetVersion p { p.throws with
        heloMgr := some { mgr with context := { mgr.context with enabled := mgr.config.enabled } }
        history := p.history ++ [.tick none] }
  | contextChanged (here : p.statement = .refreshContext) (there : p.heloMgr = some mgr)
      (found : ProcessManagement.getCurrentApplicationId answers = .ok applicationId)
      (refreshed : mgr.refreshContext applicationId = (mgr', true)) :
      Step targetVersion p { p with
        heloMgr := some mgr'
        history := p.history ++ [.tick (some applicationId)]
        statement := .waitForNextTick }
  | contextSame (here : p.statement = .refreshContext) (there : p.heloMgr = some mgr)
      (found : ProcessManagement.getCurrentApplicationId answers = .ok applicationId)
      (refreshed : mgr.refreshContext applicationId = (mgr', false)) :
      Step targetVersion p { p with
        heloMgr := some mgr'
        history := p.history ++ [.tick (some applicationId)]
        statement := .refreshConfig }
  | configRefreshed (here : p.statement = .refreshConfig) (there : p.heloMgr = some mgr)
      (stack : Chars INI_BUFFERSIZE) (stat stat' : Option Int) (file : Option ReadFile) :
      Step targetVersion p { p with
        heloMgr := some { mgr with config := (mgr.config.refresh stack stat stat' file).1 }
        statement := .waitForNextTick }
  | slept (here : p.statement = .waitForNextTick) (there : p.heloMgr = some mgr) :
      Step targetVersion p { p with statement := .loop }
  | stopped (here : p.statement = .stopService) (there : p.ipcSrv = some srv) (stopped : !srv.running) :
      Step targetVersion p { p with statement := .deleteService }
  | stops (here : p.statement = .stopService) (there : p.ipcSrv = some srv) (running : srv.running) :
      Step targetVersion p (p.cancel srv)
  | joined (here : p.statement = .waitForExit) (exited : p.thread = some .finished) :
      Step targetVersion p { p with statement := .deleteService }
  | deletionStops (here : p.statement = .deleteService) (there : p.ipcSrv = some srv)
      (running : srv.running) :
      Step targetVersion p (p.cancel srv)
  | closeTerminates (here : p.statement = .deleteService) (there : p.ipcSrv = some srv)
      (stopped : !srv.running) : Step targetVersion p { p with statement := .terminated }
  | unregisterTerminates {server : IpcServer} {events : List (IpcEvent Unit)}
      (here : p.statement = .deleteService) (there : p.ipcSrv = some srv) (stopped : !srv.running)
      (exit : ipcServerExit unregisterResult srv.server = (server, rc, events)) (failed : rc ≠ 0) :
      Step targetVersion p { p with
        ipcSrv := some { srv with server }
        thread := some .closed
        trace := p.trace ++ events.flatMap IpcEvent.ops
        statement := .terminated }
  | serviceDeleted {server : IpcServer} {events : List (IpcEvent Unit)}
      (here : p.statement = .deleteService) (there : p.ipcSrv = some srv) (stopped : !srv.running)
      (exit : ipcServerExit unregisterResult srv.server = (server, 0, events)) :
      Step targetVersion p { p with
        ipcSrv := none
        thread := some .closed
        trace := p.trace ++ events.flatMap IpcEvent.ops
        statement := .deleteManager }
  | managerDeleted (here : p.statement = .deleteManager) (there : p.heloMgr = some mgr) :
      Step targetVersion p { p with heloMgr := none, statement := .processExit }
  | processExited (here : p.statement = .processExit) : Step targetVersion p { p with statement := .fileExit }
  | fileExited (here : p.statement = .fileExit) : Step targetVersion p { p with statement := .returned }
  -- `ProcessThreadFunc` goes on after every call but one that is cancelled; the kernel only does that when
  -- `svcCancelSynchronization` has been called
  | processed {server : IpcServer} {mgr mgr' : HeloManager} {files files' : Files}
      {events : List (IpcEvent IpcService.OutData)}
      (thread : p.thread = some .running) (manager : p.heloMgr = some mgr) (service : p.ipcSrv = some srv)
      (returns : Returns (ipcServerProcess (IpcService.serviceHandler targetVersion stack o) k srv.server
        ⟨mgr, files⟩) (server, ⟨mgr', files'⟩, rc, events))
      (fresh : ∀ port session, .accept port (some session) ∈ events → session ∉ held [] p.trace)
      (told : k.Cancels → p.cancelled) :
      Step targetVersion p { p with
        heloMgr := some mgr'
        ipcSrv := some { srv with server }
        thread := some (if rc = KernelError_Cancelled then .finished else .running)
        trace := p.trace ++ events.flatMap IpcEvent.ops
        history := p.history ++ ((k.request srv.server).map .served).toList }
  -- what `main` still does then is limited in the code by the mutexes that the call holds
  | hung {mgr : HeloManager} {files : Files}
      (thread : p.thread = some .running) (manager : p.heloMgr = some mgr) (service : p.ipcSrv = some srv)
      (endless : ∀ result,
        ¬ Returns (ipcServerProcess (IpcService.serviceHandler targetVersion stack o) k srv.server
        ⟨mgr, files⟩) result) :
      Step targetVersion p { p with thread := some .stuck }

/-- Nothing has been done. -/
def start : Process where
  statement := .fileInitialize
  heloMgr := none
  ipcSrv := none
  thread := none
  cancelled := false
  thrown := false
  port := 0
  trace := []
  history := []

def system (targetVersion : List UInt8) : System Process where
  start p := p = start
  step := Step targetVersion

end Process

end SysHelo
