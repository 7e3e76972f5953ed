import SysHelo.Acknowledged
import SysHelo.Threads

/-! A thread that nobody interrupts does what its functions say: the statements of the two threads are
those of a tick of `HeloManager` and of the commands of `IpcService`. -/
namespace SysHelo.Threads
open CString Stdio Loop MinIni Relation

/-- Steps of the main thread, one after the other. -/
abbrev MainRuns : State → State → Prop :=
  ReflTransGen fun s t => ∃ input, stepMain s s.main input = some t

/-- Steps of the IPC thread, one after the other. -/
abbrev IpcRuns : State → State → Prop :=
  ReflTransGen fun s t => ∃ input, stepIpc s s.ipc input = some t

namespace State

/-- The manager that the threads work on. -/
def mgr (running : Bool) (s : State) : HeloManager := ⟨running, s.config, s.context⟩

/-- Nobody holds a lock. -/
structure Free (s : State) : Prop where
  configMutex : s.configMutex = none
  contextMutex : s.contextMutex = none

end State

theorem update_pass {α : Type} (new old : SysHeloConfigValue → α) (kval : SysHeloConfigValue)
    (remaining : List SysHeloConfigValue) :
    (fun kval' => if kval' ∈ remaining then new kval' else Function.update old kval (new kval) kval') =
      fun kval' => if kval' ∈ kval :: remaining then new kval' else old kval' := by
  funext kval'
  by_cases same : kval' = kval <;> simp [same]

theorem closeValues_runs (remaining : List SysHeloConfigValue) (config : Config) (s : State) :
    MainRuns { s with config, main := .closeValues remaining }
      { s with
        config := { config with
          configValues := fun kval =>
            if kval ∈ remaining then sysHeloDefaultConfigValue kval else config.configValues kval }
        main := .loadTime } := by
  induction remaining generalizing config with
  | nil => exact .single ⟨.go, by simp [stepMain]⟩
  | cons kval remaining ih =>
    have rest := ih { config with
      configValues := Function.update config.configValues kval (sysHeloDefaultConfigValue kval) }
    dsimp only at rest
    rw [update_pass] at rest
    exact .head ⟨.go, rfl⟩ rest

theorem browse_runs (es : List Entry) (config : Config) (s : State) :
    MainRuns { s with config, main := .browse }
      { s with
        config := runCallback Config.browseIniFunc es config
        main := .browse } := by
  induction es generalizing config with
  | nil => exact .refl
  | cons e es ih =>
    rw [runCallback_cons Config.browseIniFunc_goesOn]
    exact .head ⟨.entry e.sectionName e.key e.value, rfl⟩ (ih _)

theorem load_runs (stack : Chars INI_BUFFERSIZE) (stat : Option Int) (file : Option ReadFile) (s : State) :
    MainRuns { s with main := .closeLoaded }
      { s with
        config := s.config.load stack stat file
        complete := true
        main := .refreshUnlock } := by
  refine .head ⟨.go, rfl⟩ ((closeValues_runs SysHeloConfigValue.all _ s).trans (.head ⟨.stat stat, rfl⟩ ?_))
  simp only [SysHeloConfigValue.mem_all, if_true]
  unfold Config.load
  dsimp only
  split
  · exact .single ⟨.go, rfl⟩
  · have browsed := iniBrowse_calls Config.browseIniFunc_goesOn stack
      { s.config.close with mtime := Config.checkModificationTime stat } file
    rw [browsed]
    exact (browse_runs _ _ _).trans (.head ⟨.go, rfl⟩ (.single ⟨.go, rfl⟩))

theorem refresh_runs (stack : Chars INI_BUFFERSIZE) (stat stat' : Option Int) (file : Option ReadFile)
    {s : State} (free : s.configMutex = none) :
    ∃ complete, MainRuns { s with main := .refreshLock } { s with
      config := (s.config.refresh stack stat stat' file).1
      lists := (s.config.refresh stack stat stat' file).1.configValues :: s.lists
      complete
      main := .tickUnlock } := by
  have locked : MainRuns { s with main := .refreshLock }
      { s with configMutex := some .main, main := .checkLoaded } :=
    .single ⟨.go, by simp [stepMain, free, lock]⟩
  have loading : MainRuns { s with configMutex := some .main, main := .closeLoaded }
      { s with
        config := s.config.load stack stat' file
        lists := (s.config.load stack stat' file).configValues :: s.lists
        complete := true
        main := .tickUnlock } :=
    (load_runs stack stat' file { s with configMutex := some .main }).trans
      (.single ⟨.go, by simp [stepMain, free]⟩)
  unfold Config.refresh
  cases loaded : s.config.loaded with
  | false =>
    have unloaded : MainRuns { s with configMutex := some .main, main := .checkLoaded }
        { s with configMutex := some .main, main := .closeLoaded } :=
      .single ⟨.go, by simp [stepMain, loaded]⟩
    exact ⟨true, locked.trans (unloaded.trans loading)⟩
  | true =>
    have timed : MainRuns { s with configMutex := some .main, main := .checkLoaded }
        { s with configMutex := some .main, main := .checkTime } :=
      .single ⟨.go, by simp [stepMain, loaded]⟩
    by_cases changed : s.config.mtime = Config.checkModificationTime stat
    · have done : MainRuns { s with configMutex := some .main, main := .checkTime }
          { s with lists := s.config.configValues :: s.lists, main := .tickUnlock } :=
        .head ⟨.stat stat, by simp [stepMain, changed]; rfl⟩ (.single ⟨.go, by simp [stepMain, free]⟩)
      exact ⟨s.complete, by simpa [changed] using locked.trans (timed.trans done)⟩
    · have stale : MainRuns { s with configMutex := some .main, main := .checkTime }
          { s with configMutex := some .main, main := .closeLoaded } :=
        .single ⟨.stat stat, by simp [stepMain, changed]⟩
      exact ⟨true, by simpa [changed] using locked.trans (timed.trans (stale.trans loading))⟩

theorem wait_runs {s : State} (free : s.configMutex = none) :
    MainRuns { s with main := .waitLock true } { s with main := .tickUnlock } :=
  .head ⟨.go, by simp [stepMain, free, lock]; rfl⟩
    (.head ⟨.go, rfl⟩ (.single ⟨.go, by simp [stepMain, free]⟩))

theorem refreshEnabled_runs (s : State) :
    MainRuns { s with main := .readEnabled }
      { s with
        context := { s.context with enabled := s.config.enabled }
        main := .readApplication (s.config.enabled ≠ s.context.enabled) } := by
  have compared : MainRuns { s with main := .readEnabled }
      { s with main := .compareEnabled s.config.enabled } := .single ⟨.go, rfl⟩
  by_cases same : s.config.enabled = s.context.enabled
  · rw [same, decide_eq_false (not_not.mpr rfl)]
    exact compared.trans (.single ⟨.go, by simp [stepMain, same]⟩)
  · rw [decide_eq_true same]
    exact compared.trans (.head ⟨.go, by simp [stepMain, same]; rfl⟩ (.single ⟨.go, rfl⟩))

theorem refreshContext_runs (applicationId : UInt64) (s : State) :
    MainRuns { s with main := .readEnabled }
      { s with
        context := ⟨s.config.enabled, applicationId⟩
        main := if s.context = ⟨s.config.enabled, applicationId⟩ then .refreshLock else .waitLock true } := by
  refine (refreshEnabled_runs s).trans (.head ⟨.application applicationId, rfl⟩ ?_)
  have settled : s.context = ⟨s.config.enabled, applicationId⟩ ↔
      s.config.enabled = s.context.enabled ∧ applicationId = s.context.applicationId := by
    rw [← SysHeloContext.mk.injEq]
    exact eq_comm
  by_cases same : applicationId = s.context.applicationId
  · exact .single ⟨.go, by by_cases s.config.enabled = s.context.enabled <;> simp_all [stepMain]⟩
  · rw [if_neg (fun both => same (settled.mp both).2)]
    exact .head ⟨.go, by simp [stepMain, same]; rfl⟩ (.single ⟨.go, rfl⟩)

/-- A tick that nobody interrupts is `HeloManager.tick`. -/
theorem tick_runs (running : Bool) (applicationId : UInt64) (stack : Chars INI_BUFFERSIZE)
    (stat stat' : Option Int) (file : Option ReadFile) {s : State} (idle : s.main = .idle) (free : s.Free) :
    ∃ t, MainRuns s t ∧ t.main = .idle ∧ t.Free ∧ t.ipc = s.ipc ∧
      t.mgr running = (s.mgr running).tick applicationId stack stat stat' file := by
  obtain ⟨free, rested⟩ := free
  have entered : MainRuns s { s with contextMutex := some .main, main := .readEnabled } :=
    .single ⟨.go, by simp [stepMain, idle, rested, lock]⟩
  have refreshed := entered.trans (refreshContext_runs applicationId { s with contextMutex := some .main })
  dsimp only at refreshed
  rw [HeloManager.tick_eq, State.mgr]
  dsimp only
  by_cases settled : s.context = ⟨s.config.enabled, applicationId⟩
  · rw [if_pos settled, ← settled] at refreshed
    rw [if_pos settled]
    obtain ⟨complete, refreshing⟩ := refresh_runs stack stat stat' file
      (s := { s with contextMutex := some .main }) free
    exact ⟨_, refreshed.trans (refreshing.trans (.single ⟨.go, rfl⟩)), rfl, ⟨free, rfl⟩, rfl, rfl⟩
  · rw [if_neg settled] at refreshed
    rw [if_neg settled]
    have waited := wait_runs
      (s := { s with contextMutex := some .main, context := ⟨s.config.enabled, applicationId⟩ }) free
    exact ⟨_, refreshed.trans (waited.trans (.single ⟨.go, rfl⟩)), rfl, ⟨free, rfl⟩, rfl, rfl⟩

/-- The result and the data of a reply. -/
def Answer.reply : Answer → Result × Option IpcService.OutData
  | .configValues out _ => (0, some (.configValues out))
  | .saved => (0, none)
  | .configSaveFailed => (SYSHELO_ERROR .configSaveFailed, none)
  | .configNotLoaded _ => (SYSHELO_ERROR .configNotLoaded, none)
  | .context out _ => (0, some (.context out))

theorem getCopy_runs (remaining : List SysHeloConfigValue) (out : SysHeloConfigValueList) (s : State) :
    IpcRuns { s with ipc := .getCopy remaining out }
      { s with
        ipc := .getUnlock fun kval => if kval ∈ remaining then s.config.configValues
          kval else out kval } := by
  induction remaining generalizing out with
  | nil => exact .single ⟨.go, by simp [stepIpc]⟩
  | cons kval remaining ih =>
    have rest := ih (Function.update out kval (s.config.configValues kval))
    rw [update_pass] at rest
    exact .head ⟨.go, rfl⟩ rest

theorem setWrite_runs (remaining : List SysHeloConfigValue) (configValues : SysHeloConfigValueList)
    (config : Config) (s : State) :
    IpcRuns { s with config, ipc := .setWrite remaining configValues }
      { s with
        config := { config with
          configValues := fun kval =>
            if kval ∈ remaining then Config.accepted kval (configValues kval) else config.configValues kval }
        ipc := .setUnlock true } := by
  induction remaining generalizing config with
  | nil => exact .single ⟨.go, by simp [stepIpc]⟩
  | cons kval remaining ih =>
    have rest := ih { config with
      configValues := Function.update config.configValues kval (Config.accepted kval (configValues kval)) }
    dsimp only at rest
    rw [update_pass fun kval => Config.accepted kval (configValues kval)] at rest
    exact .head ⟨.go, rfl⟩ rest

section Requests
variable {s : State} (idle : s.ipc = .idle) (free : s.Free)
include idle free

theorem hasLoaded_runs (request : Request) :
    IpcRuns s { s with ipc := .hasLoaded request s.config.loaded s.complete } := by
  have called : IpcRuns s { s with ipc := .hasLoadedLock request } :=
    .single ⟨.request request, by simp [idle, stepIpc]⟩
  exact called.trans (.head ⟨.go, by simp [stepIpc, free.configMutex, lock]; rfl⟩
    (.head ⟨.go, rfl⟩ (.single ⟨.go, by simp [stepIpc, free.configMutex]⟩)))

/-- A request of the context that nobody interrupts is answered as `GetCurrentContext` does. -/
theorem getCurrentContext_runs (running : Bool) :
    ∃ answer, IpcRuns s { s with answers := (answer, s.complete) :: s.answers } ∧
      answer.reply = (0, some (.context (s.mgr running).getCurrentContext)) := by
  have called : IpcRuns s { s with ipc := .contextLock } :=
    .single ⟨.getCurrentContext, by simp [idle, stepIpc]⟩
  refine ⟨.context s.context s.contexts,
    called.trans (.head ⟨.go, by simp [stepIpc, free.contextMutex, lock]; rfl⟩ (.head ⟨.go, rfl⟩
    (.head ⟨.go, rfl⟩ (.head ⟨.go, rfl⟩ (.single ⟨.go, ?_⟩))))), rfl⟩
  simp [stepIpc, free.contextMutex, idle]

/-- A request of the values that nobody interrupts is answered as `GetConfigValues` does, whatever
was in the buffer of the reply. -/
theorem getConfigValues_runs (running : Bool) (out : SysHeloConfigValueList) :
    ∃ answer, IpcRuns s { s with answers := (answer, s.complete) :: s.answers } ∧
      answer.reply = ((IpcService.getConfigValues (s.mgr running)).1,
        (IpcService.getConfigValues (s.mgr running)).2.map .configValues) := by
  have looked := hasLoaded_runs idle free .getConfigValues
  cases loaded : s.config.loaded with
  | false =>
    rw [loaded] at looked
    refine ⟨.configNotLoaded s.complete, looked.trans (.head ⟨.buffer out, rfl⟩ (.single ⟨.go, ?_⟩)), ?_⟩
    · simp [stepIpc, idle]
    · simp [IpcService.getConfigValues, State.mgr, Config.hasLoaded, loaded, Answer.reply]
  | true =>
    rw [loaded] at looked
    have copied := getCopy_runs SysHeloConfigValue.all out { s with configMutex := some .ipc }
    simp only [SysHeloConfigValue.mem_all, if_true] at copied
    refine ⟨.configValues s.config.configValues s.lists, looked.trans (.head ⟨.buffer out, rfl⟩
      (.head ⟨.go, by simp [stepIpc, free.configMutex, lock]⟩
        (copied.trans (.head ⟨.go, rfl⟩ (.single ⟨.go, ?_⟩))))), ?_⟩
    · simp [stepIpc, idle, free.configMutex]
    · simp [IpcService.getConfigValues, State.mgr, Config.hasLoaded, loaded, Answer.reply,
        Config.getConfigValues]

/-- So is a request to set them, as `SetConfigValues` says, with the save that it makes. -/
theorem setConfigValues_runs (running : Bool) {stack : Chars INI_BUFFERSIZE} {o : Outcomes}
    {configValues : SysHeloConfigValueList} {files files' : Files} {mgr' : HeloManager} {rc : Result}
    (returns : Returns (IpcService.setConfigValues stack o configValues files (s.mgr running))
      (files', mgr', rc)) :
    ∃ answer lists, IpcRuns s { s with
        config := mgr'.config
        lists
        answers := (answer, s.complete) :: s.answers } ∧
      mgr'.context = s.context ∧ answer.reply = (rc, none) := by
  have looked := hasLoaded_runs idle free (.setConfigValues configValues)
  obtain ⟨loaded, rfl, -, rfl⟩ | ⟨loaded, saved, -, rfl, rfl⟩ := IpcService.setConfigValues_inv returns
  · rw [show s.config.loaded = false from loaded] at looked
    refine ⟨.configNotLoaded s.complete, s.lists, looked.trans (.head ⟨.go, rfl⟩ (.single ⟨.go, ?_⟩)),
      rfl, rfl⟩
    simp [stepIpc, idle, State.mgr]
  rw [show s.config.loaded = true from loaded] at looked
  have locked : IpcRuns s { s with configMutex := some .ipc, ipc := .setSave configValues } :=
    looked.trans (.head ⟨.go, rfl⟩ (.single ⟨.go, by simp [stepIpc, free.configMutex, lock]⟩))
  cases saved with
  | false =>
    refine ⟨.configSaveFailed, s.config.configValues :: s.lists,
      locked.trans (.head ⟨.save false, rfl⟩ (.head ⟨.go, rfl⟩ (.single ⟨.go, ?_⟩))), rfl, rfl⟩
    simp [stepIpc, idle, free.configMutex, Config.applied, State.mgr]
  | true =>
    have written := setWrite_runs SysHeloConfigValue.all configValues s.config
      { s with configMutex := some .ipc }
    simp only [SysHeloConfigValue.mem_all, if_true] at written
    change IpcRuns _ { s with
      configMutex := some .ipc
      config := { s.config with configValues := Config.acceptedValues configValues }
      ipc := .setUnlock true } at written
    refine ⟨.saved, Config.acceptedValues configValues :: s.lists,
      locked.trans (.head ⟨.save true, rfl⟩ (written.trans (.head ⟨.go, rfl⟩ (.single ⟨.go, ?_⟩)))),
      rfl, rfl⟩
    simp [stepIpc, idle, free.configMutex, Config.applied, State.mgr]

end Requests

end SysHelo.Threads
