import SysHelo.HeloManager
import SysHelo.Lib.System

/-! The main thread and the IPC thread on one configuration and one context, a statement at a time.
What a statement is told from outside comes with its step. -/
namespace SysHelo.Threads
open CString Stdio

inductive Thread where
  | main
  | ipc
  deriving DecidableEq

/-- Where the main thread is: between two ticks, in `WaitForNextTick` (called between two ticks, or
by a tick), in `RefreshContext`, in `Refresh`, or in the `Load` and `Close` that this calls. -/
inductive Main where
  | idle
  | waitLock (inTick : Bool)
  | waitRead (inTick : Bool)
  | waitUnlock (inTick : Bool)
  | readEnabled
  | compareEnabled (enabled : Bool)
  | writeEnabled (enabled : Bool)
  | readApplication (hasChanged : Bool)
  | compareApplication (hasChanged : Bool) (applicationId : UInt64)
  | writeApplication (applicationId : UInt64)
  | refreshLock
  | checkLoaded
  | checkTime
  | closeLoaded
  | closeValues (remaining : List SysHeloConfigValue)
  | loadTime
  | browse
  | loadDone
  | refreshUnlock
  | tickUnlock
  deriving DecidableEq

/-- The requests that look whether the configuration has been loaded. -/
inductive Request where
  | getConfigValues
  | setConfigValues (configValues : SysHeloConfigValueList)

/-- What the IPC thread answers. With a copy comes what had been completed when it was made, the last
first; with `ConfigNotLoaded` whether a load had been completed when the request looked. -/
inductive Answer where
  | configValues (configValues : SysHeloConfigValueList) (completed : List SysHeloConfigValueList)
  | saved
  | configSaveFailed
  | configNotLoaded (looked : Bool)
  | context (context : SysHeloContext) (completed : List SysHeloContext)

/-- Where the IPC thread is. What has been copied so far is with the place. -/
inductive Ipc where
  | idle
  | hasLoadedLock (request : Request)
  | hasLoadedRead (request : Request)
  | hasLoadedUnlock (request : Request) (loaded looked : Bool)
  | hasLoaded (request : Request) (loaded looked : Bool)
  | getLock (out : SysHeloConfigValueList)
  | getCopy (remaining : List SysHeloConfigValue) (out : SysHeloConfigValueList)
  | getUnlock (out : SysHeloConfigValueList)
  | setLock (configValues : SysHeloConfigValueList)
  | setSave (configValues : SysHeloConfigValueList)
  | setWrite (remaining : List SysHeloConfigValue) (configValues : SysHeloConfigValueList)
  | setUnlock (saved : Bool)
  | contextLock
  | contextEnabled
  | contextApplication (enabled : Bool)
  | contextUnlock (out : SysHeloContext)
  | reply (answer : Answer)

/-- The memory, the locks, the two threads; and, for what is said about them, the lists at the end of
each completed `Refresh` and `SetConfigValues` and the contexts at the end of each tick, the last first,
whether a load has been completed, and all answers, each with whether one had been by then. -/
structure State where
  config : Config
  context : SysHeloContext
  configMutex : Option Thread
  contextMutex : Option Thread
  main : Main
  ipc : Ipc
  lists : List SysHeloConfigValueList
  contexts : List SysHeloContext
  complete : Bool
  answers : List (Answer × Bool)

/-- What a step of the main thread is told. -/
inductive MainInput where
  | go
  | wait
  | stat (stat : Option Int)
  | application (applicationId : UInt64)
  | entry (sectionName key value : List UInt8)

/-- What a step of the IPC thread is told. -/
inductive IpcInput where
  | go
  | request (request : Request)
  | getCurrentContext
  | setEnabled (enabled : Bool)
  | buffer (out : SysHeloConfigValueList)
  | save (saved : Bool)

def lock (thread : Thread) : Option Thread → Option (Option Thread)
  | none => some (some thread)
  | some _ => none

@[simp] theorem lock_eq_some {thread : Thread} {owner now : Option Thread} :
    lock thread owner = some now ↔ owner = none ∧ now = some thread := by
  cases owner <;> simp [lock, eq_comm]

def stepMain (s : State) : Main → MainInput → Option State
  | .idle, .go => (lock .main s.contextMutex).map fun contextMutex =>
      { s with contextMutex, main := .readEnabled }
  | .idle, .wait => some { s with main := .waitLock false }
  | .waitLock inTick, .go => (lock .main s.configMutex).map fun configMutex =>
      { s with configMutex, main := .waitRead inTick }
  | .waitRead inTick, .go => some { s with main := .waitUnlock inTick }
  | .waitUnlock inTick, .go => some { s with
      configMutex := none
      main := if inTick then .tickUnlock else .idle }
  | .readEnabled, .go => some { s with main := .compareEnabled s.config.enabled }
  | .compareEnabled enabled, .go => some { s with
      main := if enabled ≠ s.context.enabled then .writeEnabled enabled else .readApplication false }
  | .writeEnabled enabled, .go => some { s with
      context := { s.context with enabled }
      main := .readApplication true }
  | .readApplication hasChanged, .application applicationId => some { s with
      main := .compareApplication hasChanged applicationId }
  | .compareApplication hasChanged applicationId, .go => some { s with
      main := if applicationId ≠ s.context.applicationId then .writeApplication applicationId
        else if hasChanged then .waitLock true else .refreshLock }
  | .writeApplication applicationId, .go => some { s with
      context := { s.context with applicationId }
      main := .waitLock true }
  | .refreshLock, .go => (lock .main s.configMutex).map fun configMutex =>
      { s with configMutex, main := .checkLoaded }
  | .checkLoaded, .go => some { s with main := if !s.config.loaded then .closeLoaded else .checkTime }
  | .checkTime, .stat stat => some { s with
      main := if s.config.mtime ≠ Config.checkModificationTime stat then .closeLoaded
        else .refreshUnlock }
  | .closeLoaded, .go => some { s with
      config := { s.config with loaded := false }
      main := .closeValues SysHeloConfigValue.all }
  | .closeValues (kval :: remaining), .go => some { s with
      config := { s.config with
        configValues := Function.update s.config.configValues kval (sysHeloDefaultConfigValue kval) }
      main := .closeValues remaining }
  | .closeValues [], .go => some { s with main := .loadTime }
  | .loadTime, .stat stat => some { s with
      config := { s.config with mtime := Config.checkModificationTime stat }
      main := if Config.checkModificationTime stat = 0 then .loadDone else .browse }
  | .browse, .entry sectionName key value => some { s with
      config := (Config.browseIniFunc sectionName key value s.config).1 }
  | .browse, .go => some { s with main := .loadDone }
  | .loadDone, .go => some { s with
      config := { s.config with loaded := true }
      complete := true
      main := .refreshUnlock }
  | .refreshUnlock, .go => some { s with
      configMutex := none
      lists := s.config.configValues :: s.lists
      main := .tickUnlock }
  | .tickUnlock, .go => some { s with
      contextMutex := none
      contexts := s.context :: s.contexts
      main := .idle }
  | _, _ => none

def stepIpc (s : State) : Ipc → IpcInput → Option State
  | .idle, .request request => some { s with ipc := .hasLoadedLock request }
  | .idle, .getCurrentContext => some { s with ipc := .contextLock }
  | .idle, .setEnabled enabled => some { s with config := s.config.setEnabled enabled }
  | .hasLoadedLock request, .go => (lock .ipc s.configMutex).map fun configMutex =>
      { s with configMutex, ipc := .hasLoadedRead request }
  | .hasLoadedRead request, .go => some { s with
      ipc := .hasLoadedUnlock request s.config.loaded s.complete }
  | .hasLoadedUnlock request loaded looked, .go => some { s with
      configMutex := none
      ipc := .hasLoaded request loaded looked }
  | .hasLoaded .getConfigValues loaded looked, .buffer out => some { s with
      ipc := if !loaded then .reply (.configNotLoaded looked) else .getLock out }
  | .hasLoaded (.setConfigValues configValues) loaded looked, .go => some { s with
      ipc := if !loaded then .reply (.configNotLoaded looked) else .setLock configValues }
  | .getLock out, .go => (lock .ipc s.configMutex).map fun configMutex =>
      { s with configMutex, ipc := .getCopy SysHeloConfigValue.all out }
  | .getCopy (kval :: remaining) out, .go => some { s with
      ipc := .getCopy remaining (Function.update out kval (s.config.configValues kval)) }
  | .getCopy [] out, .go => some { s with ipc := .getUnlock out }
  | .getUnlock out, .go => some { s with
      configMutex := none
      ipc := .reply (.configValues out s.lists) }
  | .setLock configValues, .go => (lock .ipc s.configMutex).map fun configMutex =>
      { s with configMutex, ipc := .setSave configValues }
  | .setSave configValues, .save saved => some { s with
      ipc := if saved then .setWrite SysHeloConfigValue.all configValues else .setUnlock false }
  | .setWrite (kval :: remaining) configValues, .go => some { s with
      config := { s.config with
        configValues := Function.update s.config.configValues kval
          (Config.accepted kval (configValues kval)) }
      ipc := .setWrite remaining configValues }
  | .setWrite [] _, .go => some { s with ipc := .setUnlock true }
  | .setUnlock saved, .go => some { s with
      configMutex := none
      lists := s.config.configValues :: s.lists
      ipc := .reply (if saved then .saved else .configSaveFailed) }
  | .contextLock, .go => (lock .ipc s.contextMutex).map fun contextMutex =>
      { s with contextMutex, ipc := .contextEnabled }
  | .contextEnabled, .go => some { s with ipc := .contextApplication s.context.enabled }
  | .contextApplication enabled, .go => some { s with
      ipc := .contextUnlock ⟨enabled, s.context.applicationId⟩ }
  | .contextUnlock out, .go => some { s with
      contextMutex := none
      ipc := .reply (.context out s.contexts) }
  | .reply answer, .go => some { s with answers := (answer, s.complete) :: s.answers, ipc := .idle }
  | _, _ => none

inductive Input where
  | main (input : MainInput)
  | ipc (input : IpcInput)

def State.advance (s : State) : Input → Option State
  | .main input => stepMain s s.main input
  | .ipc input => stepIpc s s.ipc input

/-- What the constructors leave; the flag has been set since. -/
def start (enabled : Bool) : State where
  config := Config.createDefault.setEnabled enabled
  context := HeloManager.create.context
  configMutex := none
  contextMutex := none
  main := .idle
  ipc := .idle
  lists := [Config.createDefault.configValues]
  contexts := [HeloManager.create.context]
  complete := false
  answers := []

def system : System State where
  start s := ∃ enabled, s = start enabled
  step s t := ∃ input, s.advance input = some t

end SysHelo.Threads
