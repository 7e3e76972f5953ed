import SysHelo.IpcServer
import SysHelo.Lib.System
import Mathlib.Logic.Function.Basic

/-! The name of the service at the service manager: the sysmodule registers it when it starts, and
clients register it to find out whether the sysmodule is running. -/
namespace SysHelo

/-- A function that makes requests to the service manager and goes on with their results. -/
inductive Requests (ρ : Type) where
  | register (name : SmServiceName) (next : Result → Requests ρ)
  | unregister (name : SmServiceName) (next : Result → Requests ρ)
  | done (result : ρ)

/-- `name` is `smEncodeName(SYSHELO_IPC_SERVICE_NAME)`. -/
def sysheloIpcRunning (name : SmServiceName) : Requests Bool :=
  .register name fun rc =>
    let running := decide (rc ≠ 0)
    if !running then .unregister name fun _ => .done running else .done running

/-- `ipcServerInit` as the constructor of `IpcService` calls it. -/
def ipcServiceInit (name : SmServiceName) (before : IpcServer) (port : Handle) :
    Requests (IpcServer × Result) :=
  .register name fun registerResult =>
    match @ipcServerInit Unit before name 42 registerResult port with
    | (server, rc, _) => .done (server, rc)

/-- `ipcServerExit` as the destructor calls it. -/
def ipcServiceExit (server : IpcServer) : Requests (IpcServer × Result) :=
  .unregister server.srvName fun unregisterResult =>
    match @ipcServerExit Unit unregisterResult server with
    | (server, rc, _) => .done (server, rc)

/-- Who has registered a name. -/
inductive Owner (ι : Type) where
  | sysmodule
  | client (c : ι)
  deriving DecidableEq

abbrev ServiceManager (ι : Type) := SmServiceName → Option (Owner ι)

/-- The result of the service manager for a name that is registered. -/
def SmError_AlreadyRegistered : Result := MAKERESULT 21 4

section Requests
variable {ι ρ : Type}

def smRegisterService (owner : Owner ι) (name : SmServiceName) (sm : ServiceManager ι) :
    ServiceManager ι × Result :=
  match sm name with
  | none => (Function.update sm name (some owner), 0)
  | some _ => (sm, SmError_AlreadyRegistered)

def smUnregisterService (name : SmServiceName) (sm : ServiceManager ι) : ServiceManager ι × Result :=
  (Function.update sm name none, 0)

/-- The service manager handles the next request of a function. -/
def Requests.handle (owner : Owner ι) (sm : ServiceManager ι) : Requests ρ → ServiceManager ι × Requests ρ
  | .register name next =>
    match smRegisterService owner name sm with
    | (sm, rc) => (sm, next rc)
  | .unregister name next =>
    match smUnregisterService name sm with
    | (sm, rc) => (sm, next rc)
  | .done result => (sm, .done result)

end Requests

/-- What has come of a start of the sysmodule that failed, with the owner of the name at that time,
or of a check, with whether the sysmodule has been registered since the check was called. -/
inductive Outcome (ι : Type) where
  | initFailed (holder : Option (Owner ι))
  | answered (c : ι) (running seen : Bool)
  deriving DecidableEq

structure Registration (ι : Type) where
  sm : ServiceManager ι
  sysmodule : Option IpcServer
  checks : ι → Option (Requests Bool)
  seen : ι → Bool
  outcomes : List (Outcome ι)

inductive Action (ι : Type) where
  | init (before : IpcServer) (port : Handle)
  | exit
  | call (c : ι)
  | request (c : ι)
  | answer (c : ι)

namespace Registration
variable {ι : Type} [DecidableEq ι] (name : SmServiceName)

def step (s : Registration ι) : Action ι → Option (Registration ι)
  | .init before port =>
    match s.sysmodule, (ipcServiceInit name before port).handle .sysmodule s.sm with
    | none, (sm, .done (server, rc)) =>
      if rc = 0 then some { s with sm, sysmodule := some server, seen := fun _ => true }
      else some { s with sm, outcomes := .initFailed (s.sm name) :: s.outcomes }
    | _, _ => none
  | .exit =>
    match s.sysmodule with
    | none => none
    | some server =>
      some { s with
        sm := ((ipcServiceExit server).handle .sysmodule s.sm).1
        sysmodule := none }
  | .call c =>
    match s.checks c with
    | none => some { s with
        checks := Function.update s.checks c (some (sysheloIpcRunning name))
        seen := Function.update s.seen c (s.sm name = some .sysmodule) }
    | some _ => none
  | .request c =>
    match s.checks c with
    | none | some (.done _) => none
    | some check =>
      match check.handle (.client c) s.sm with
      | (sm, check) => some { s with sm, checks := Function.update s.checks c (some check) }
  | .answer c =>
    match s.checks c with
    | some (.done running) => some { s with
        checks := Function.update s.checks c none
        outcomes := .answered c running (s.seen c) :: s.outcomes }
    | _ => none

/-- Nobody has the name, nothing is running. -/
structure Start (s : Registration ι) : Prop where
  sm : s.sm name = none
  sysmodule : s.sysmodule = none
  checks : ∀ c, s.checks c = none
  outcomes : s.outcomes = []

/-- The runs all of whose steps are allowed. -/
def system (allowed : Registration ι → Action ι → Prop) : System (Registration ι) where
  start := Start name
  step s t := ∃ action, allowed s action ∧ s.step name action = some t

/-- No check has made a start fail, and a check has only said yes when it was so during the check. -/
def Fine : Outcome ι → Prop
  | .initFailed holder => ∀ c, holder ≠ some (.client c)
  | .answered _ running seen => running → seen

/-- A registration is only handled while no check has the name; or it is one of a check during which
the sysmodule has been registered already. -/
def Undisturbed (s : Registration ι) : Action ι → Prop
  | .init _ _ => ∀ c, s.sm name ≠ some (.client c)
  | .request c => s.checks c = some (sysheloIpcRunning name) →
      (∀ d, s.sm name ≠ some (.client d)) ∨ s.seen c
  | _ => True

end Registration

end SysHelo
