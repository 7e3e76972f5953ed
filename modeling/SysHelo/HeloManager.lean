import SysHelo.Config

/-! The manager of the sysmodule: its main loop looks at the running application and the
configuration file once a tick. -/
namespace SysHelo
open CString Stdio MinIni

structure SysHeloContext where
  enabled : Bool
  applicationId : UInt64
  deriving DecidableEq

structure HeloManager where
  running : Bool
  config : Config
  context : SysHeloContext

namespace HeloManager

/-- The constructor. -/
def create : HeloManager := ⟨false, .createDefault, ⟨false, 0⟩⟩

def setRunning (running : Bool) (mgr : HeloManager) : HeloManager := { mgr with running }

def getCurrentContext (mgr : HeloManager) : SysHeloContext := mgr.context

/-- The context after looking at the configuration's flag and the running application, and
whether it has changed. -/
def refreshContext (applicationId : UInt64) (mgr : HeloManager) : HeloManager × Bool :=
  let context := { mgr.context with enabled := mgr.config.enabled }
  let hasChanged := mgr.config.enabled ≠ mgr.context.enabled
  if applicationId ≠ context.applicationId then
    ({ mgr with context := { context with applicationId } }, true)
  else ({ mgr with context }, hasChanged)

/-- `RefreshContext() || config->Refresh()`: the configuration is only refreshed when the
context has not changed. The arguments are what `Config.refresh` is told. -/
def tick (applicationId : UInt64) (stack : Chars INI_BUFFERSIZE) (stat stat' : Option Int)
    (file : Option ReadFile) (mgr : HeloManager) : HeloManager :=
  match mgr.refreshContext applicationId with
  | (mgr, true) => mgr
  | (mgr, false) => { mgr with config := (mgr.config.refresh stack stat stat' file).1 }

/-- The nanoseconds that `WaitForNextTick` gives `svcSleepThread`, which takes them for a signed number. -/
def waitForNextTick (mgr : HeloManager) : Int64 :=
  (mgr.config.getConfigValue .tickIntervalMs * (1000000 : UInt64)).toInt64

theorem refreshContext_eq (applicationId : UInt64) (mgr : HeloManager) :
    mgr.refreshContext applicationId =
      ({ mgr with context := ⟨mgr.config.enabled, applicationId⟩ },
        decide (mgr.context ≠ ⟨mgr.config.enabled, applicationId⟩)) := by
  obtain ⟨running, config, enabled, application⟩ := mgr
  by_cases same : applicationId = application
  · simp [refreshContext, same, eq_comm]
  · simp [refreshContext, same, eq_comm]

/-- Either the context was up to date, and a tick refreshes the configuration, or it is now. -/
theorem tick_eq (applicationId : UInt64) (stack : Chars INI_BUFFERSIZE) (stat stat' : Option Int)
    (file : Option ReadFile) (mgr : HeloManager) :
    mgr.tick applicationId stack stat stat' file =
      if mgr.context = ⟨mgr.config.enabled, applicationId⟩ then
        { mgr with config := (mgr.config.refresh stack stat stat' file).1 }
      else { mgr with context := ⟨mgr.config.enabled, applicationId⟩ } := by
  rw [tick, refreshContext_eq]
  obtain ⟨running, config, context⟩ := mgr
  by_cases settled : context = ⟨config.enabled, applicationId⟩
  · subst settled
    simp
  · simp [settled]

end HeloManager

end SysHelo
