import SysHelo.LifecycleProofs

/-! Runs of the process: what its two threads find in every order of their steps, and how it ends. -/
namespace SysHelo
open CString Stdio Loop Handles MinIni

namespace Process
variable {targetVersion : List UInt8} {p q : Process}

def exampleServer : IpcServer := ⟨0, (Vector.replicate _ 0).setIfInBounds 0 7, 43, 1⟩

def acceptedServer : IpcServer := ⟨0, ((Vector.replicate _ 0).setIfInBounds 0 7).setIfInBounds 1 8, 43, 2⟩

def startedManager : HeloManager := ⟨true, Config.createDefault.setEnabled true, ⟨false, 0⟩⟩

/-- The state at the loop, when the service has just been started. -/
def startedProcess : Process where
  statement := .loop
  heloMgr := some startedManager
  ipcSrv := some ⟨exampleServer, true⟩
  thread := some .running
  cancelled := false
  thrown := false
  port := 7
  trace := [.acquire 7]
  history := []

theorem reached_started : (system []).Reachable startedProcess := by
  have initialised : ipcServerInit ⟨0, .replicate _ 0, 0, 0⟩ 0 42 0 7 =
      (exampleServer, 0, ([.register 7] : List (IpcEvent Unit))) := rfl
  refine ⟨start, rfl, ?_⟩
  refine .head (.fileInitialized rfl) ?_
  refine .head (.processInitialized rfl) ?_
  refine .head (.qlaunchFound rfl) ?_
  refine .head (.managerCreated rfl) ?_
  refine .head (.serviceCreated rfl initialised) ?_
  refine .head (.managerRunning rfl rfl) ?_
  refine .head (.enabled rfl rfl) ?_
  exact .single (@Step.started [] ⟨exampleServer, false⟩ _ rfl rfl rfl)

/-- A request for an exit in the buffer of the thread. -/
def exitMessage : Message := ⟨⟨CmifCommandType_Request, 4, []⟩, some (⟨CMIF_IN_HEADER_MAGIC, 3⟩, fun _ => 0)⟩

def exitRequest : IpcServerRequest := ⟨⟨CmifCommandType_Request, 4, []⟩, 3, none, 0⟩

def acceptedProcess : Process := { startedProcess with
  ipcSrv := some ⟨acceptedServer, true⟩
  trace := [.acquire 7, .use 7, .use 7, .acquire 8] }

/-- The exit has been served. -/
def exitedProcess : Process := { acceptedProcess with
  heloMgr := some (startedManager.setRunning false)
  trace := [.acquire 7, .use 7, .use 7, .acquire 8, .use 7, .use 8, .use 8, .use 8]
  history := [.served exitRequest] }

theorem reached_exited : (system []).Reachable exitedProcess := by
  obtain ⟨first, initial, steps⟩ := reached_started
  have accepts : Returns (ipcServerProcess (IpcService.serviceHandler [] (.replicate _ 0) .ok)
      ⟨0, 0, 0, 8, 0, ⟨⟨0, 0, []⟩, none⟩, 0⟩ exampleServer ⟨startedManager, fun _ => none⟩)
      (acceptedServer, ⟨startedManager, fun _ => none⟩, 0, [.wait [7], .accept 7 (some 8)]) := .pure _
  have serves : Returns (ipcServerProcess (IpcService.serviceHandler [] (.replicate _ 0) .ok)
      ⟨0, 1, 0, 0, 0, exitMessage, KernelError_TimedOut⟩ acceptedServer ⟨startedManager, fun _ => none⟩)
      (acceptedServer, ⟨startedManager.setRunning false, fun _ => none⟩, 0,
        [.wait [7, 8], .receive 8, .reply 8 (ipcServerPrepareResponse 0 none 0)]) := ⟨0, fun _ _ => rfl⟩
  have accepted : Step [] startedProcess acceptedProcess :=
    @Step.processed _ ⟨exampleServer, true⟩ _ _ _ _ _ _ _ _ _ _ _ rfl rfl rfl accepts
      (fun port session member => by
      obtain ⟨-, rfl⟩ : port = 7 ∧ session = 8 := by simpa using member
      decide) (by decide)
  have served : Step [] acceptedProcess exitedProcess :=
    @Step.processed _ ⟨acceptedServer, true⟩ _ _ _ _ _ _ _ _ _ _ _ rfl rfl rfl serves (by simp) (by decide)
  exact ⟨first, initial, (steps.tail accepted).tail served⟩

/-- In every order of the steps of the two threads, the objects that the next statement of `main` works on
are there; while the thread serves so are the ones that it works on, and the open handles are those of its
table; and no handle has been used or closed that was not open. -/
theorem nothing_missing (reached : (system targetVersion).Reachable p) :
    (p.statement.usesManager = true → p.heloMgr.isSome) ∧ (p.statement.usesService = true → p.ipcSrv.isSome) ∧
      (p.Alive → ∃ mgr srv, p.heloMgr = some mgr ∧ p.ipcSrv = some srv ∧ srv.server.Sound ∧
        held [] p.trace = srv.server.table) ∧ Lawful [] p.trace := by
  have sound := invariant.reachable reached
  refine ⟨sound.manager, sound.service, fun alive => ?_, sound.lawful⟩
  obtain ⟨mgr, srv, objects⟩ := sound.objects alive
  exact ⟨mgr, srv, objects.manager, objects.service, objects.owned.sound, objects.owned.table⟩

theorem nothing_missing_started : ∃ mgr srv, startedProcess.heloMgr = some mgr ∧
    startedProcess.ipcSrv = some srv ∧ held [] startedProcess.trace = srv.server.table := by
  obtain ⟨-, -, serving, -⟩ := nothing_missing reached_started
  obtain ⟨mgr, srv, manager, service, -, table⟩ := serving (.inl rfl)
  exact ⟨mgr, srv, manager, service, table⟩

/-- While the thread serves, the manager is running until an exit has been served, its flag is the last one
that a request has set, and the application of its context the last one that a tick has found; behind the
first exit there is at most one tick. -/
theorem requests_obeyed (reached : (system targetVersion).Reachable p) :
    (p.Alive → ∃ mgr, p.heloMgr = some mgr ∧ mgr.running = !exited p.history ∧
      mgr.config.enabled = lastSet p.history ∧ mgr.context.applicationId = lastFound p.history) ∧
      ∀ before moment after, p.history = before ++ moment :: after → moment.exits = true →
        after.countP Moment.isTick ≤ 1 := by
  have sound := invariant.reachable reached
  refine ⟨fun alive => ?_, fun before moment after split exits =>
    (late_of_split exits split).trans sound.late⟩
  rcases sound.serves alive with ⟨mgr, srv, serving, -⟩ | ⟨mgr, srv, stopping, -⟩ | ⟨-, mgr, srv,
    objects, obeyed⟩
  · exact ⟨mgr, serving.manager, serving.obeyed.running, serving.obeyed.enabled, serving.obeyed.application⟩
  · exact ⟨mgr, stopping.manager, stopping.obeyed.running, stopping.obeyed.enabled,
      stopping.obeyed.application⟩
  · exact ⟨mgr, objects.manager, obeyed.running, obeyed.enabled, obeyed.application⟩

theorem requests_obeyed_exited : ∃ mgr, exitedProcess.heloMgr = some mgr ∧ mgr.running = false ∧
    mgr.config.enabled = true ∧ mgr.context.applicationId = 0 := by
  obtain ⟨obeyed, -⟩ := requests_obeyed reached_exited
  exact obeyed (.inl rfl)

/-- A run goes on to the end without an exception. -/
def Completes (targetVersion : List UInt8) (p : Process) : Prop :=
  ∃ q, Relation.ReflTransGen (Step targetVersion) p q ∧ q.statement = .returned ∧ q.thrown = false

theorem Completes.head (taken : Step targetVersion p q) (rest : Completes targetVersion q) :
    Completes targetVersion p := by
  obtain ⟨last, steps, returned, calm⟩ := rest
  exact ⟨last, .head taken steps, returned, calm⟩

theorem completes_fileExit (here : p.statement = .fileExit) (calm : p.thrown = false) :
    Completes targetVersion p :=
  ⟨_, .single (.fileExited here), rfl, calm⟩

theorem completes_deleteManager (sound : Sound p) (here : p.statement = .deleteManager) :
    Completes targetVersion p := by
  obtain ⟨mgr, there⟩ := Option.isSome_iff_exists.mp (sound.manager (here ▸ rfl))
  have calm := sound.calm here (by decide)
  exact .head (.managerDeleted here there) (.head (.processExited rfl) (completes_fileExit rfl calm))

theorem completes_deleteService (sound : Sound p) (here : p.statement = .deleteService) :
    Completes targetVersion p := by
  have fits := sound.fits
  simp only [Fits, here] at fits
  obtain ⟨mgr, srv, stopping, -⟩ := fits
  have taken : Step targetVersion p _ := .serviceDeleted here stopping.service (by simp [stopping.idle])
    (rfl : @ipcServerExit Unit 0 srv.server = (_, 0, _))
  exact .head taken (completes_deleteManager (sound.step taken) rfl)

theorem completes_finished (sound : Sound p) (here : p.statement = .waitForExit)
    (finished : p.thread = some .finished) :
    Completes targetVersion p := by
  have taken : Step targetVersion p _ := .joined here finished
  exact .head taken (completes_deleteService (sound.step taken) rfl)

/-- What the kernel answers a thread that it has been asked to cancel. -/
def cancelledAnswers : KernelAnswers where
  waitResult := KernelError_Cancelled
  handleIndex := -1
  acceptResult := 0
  session := 0
  receiveResult := 0
  message := ⟨⟨0, 0, []⟩, none⟩
  replyResult := 0

/-- A thread that waits for requests finishes once it has been cancelled. -/
theorem completes_waitForExit (sound : Sound p) (here : p.statement = .waitForExit)
    (free : p.thread ≠ some .stuck) : Completes targetVersion p := by
  have fits := sound.fits
  simp only [Fits, here] at fits
  obtain ⟨mgr, srv, stopping, alive | finished⟩ := fits
  · have running := alive.resolve_right free
    have returns : Returns (ipcServerProcess
        (IpcService.serviceHandler targetVersion (.replicate _ 0) .ok) cancelledAnswers srv.server
        ⟨mgr, fun _ => none⟩)
        (srv.server, ⟨mgr, fun _ => none⟩, KernelError_Cancelled, [.wait srv.server.table]) := .pure _
    have taken : Step targetVersion p _ := .processed running stopping.manager stopping.service returns
      (fun port session member => by simp at member) fun _ => stopping.cancelled
    exact .head taken (completes_finished (sound.step taken) here (congrArg some (if_pos rfl)))
  · exact completes_finished sound here finished

theorem completes_stopService (sound : Sound p) (here : p.statement = .stopService)
    (free : p.thread ≠ some .stuck) : Completes targetVersion p := by
  have fits := sound.fits
  simp only [Fits, here] at fits
  obtain ⟨⟨mgr, srv, serving⟩, -⟩ := fits
  have taken : Step targetVersion p _ := .stops here serving.service serving.running
  exact .head taken (completes_waitForExit (sound.step taken) rfl free)

theorem completes_loop (sound : Sound p) (here : p.statement = .loop) (ended : exited p.history = true)
    (free : p.thread ≠ some .stuck) : Completes targetVersion p := by
  have fits := sound.fits
  simp only [Fits, here] at fits
  obtain ⟨mgr, srv, serving⟩ := fits
  have stopped : !mgr.running := by simp [serving.obeyed.running, ended]
  have taken : Step targetVersion p _ := .leaves here serving.manager stopped
  exact .head taken (completes_stopService (sound.step taken) rfl free)

theorem completes_waitForNextTick (sound : Sound p) (here : p.statement = .waitForNextTick)
    (ended : exited p.history = true) (free : p.thread ≠ some .stuck) : Completes targetVersion p := by
  obtain ⟨mgr, there⟩ := Option.isSome_iff_exists.mp (sound.manager (here ▸ rfl))
  have taken : Step targetVersion p _ := .slept here there
  exact .head taken (completes_loop (sound.step taken) rfl ended free)

theorem completes_refreshConfig (sound : Sound p) (here : p.statement = .refreshConfig)
    (ended : exited p.history = true) (free : p.thread ≠ some .stuck) : Completes targetVersion p := by
  obtain ⟨mgr, there⟩ := Option.isSome_iff_exists.mp (sound.manager (here ▸ rfl))
  have taken : Step targetVersion p _ := .configRefreshed here there (.replicate _ 0) none none none
  exact .head taken (completes_waitForNextTick (sound.step taken) rfl ended free)

theorem completes_refreshContext (sound : Sound p) (here : p.statement = .refreshContext)
    (ended : exited p.history = true) (free : p.thread ≠ some .stuck) : Completes targetVersion p := by
  obtain ⟨mgr, there⟩ := Option.isSome_iff_exists.mp (sound.manager (here ▸ rfl))
  have ended' : exited (p.history ++ [.tick (some 0)]) = true := by rw [exited_append, ended, Bool.true_or]
  have found : ProcessManagement.getCurrentApplicationId ⟨0, 0, 0⟩ = .ok 0 := rfl
  cases refreshed : mgr.refreshContext 0 with
  | mk mgr' changed =>
    cases changed with
    | true =>
      have taken : Step targetVersion p _ := .contextChanged here there found refreshed
      exact .head taken (completes_waitForNextTick (sound.step taken) rfl ended' free)
    | false =>
      have taken : Step targetVersion p _ := .contextSame here there found refreshed
      exact .head taken (completes_refreshConfig (sound.step taken) rfl ended' free)

/-- `main` returns after an exit, with both objects deleted, the thread closed and no handle open; or after
an exception, and then what there was of the service is still there: at least the port, once it has been
registered. -/
theorem returned_spec (reached : (system targetVersion).Reachable p) (returned : p.statement = .returned) :
    p.thrown = false ∧ exited p.history = true ∧ p.heloMgr = none ∧ p.ipcSrv = none ∧
      p.thread = some .closed ∧
        held [] p.trace = [] ∨
      p.thrown = true ∧ (p.ipcSrv = none ∧ p.thread = none ∧
          (held [] p.trace = [] ∨ held [] p.trace = [p.port]) ∨
        ∃ srv, p.ipcSrv = some srv ∧ p.heloMgr.isSome ∧ held [] p.trace = srv.server.table ∧
          (p.thread = some .created ∨ p.Alive)) := by
  have fits := (invariant.reachable reached).fits
  simp only [Fits, returned] at fits
  split at fits
  · rename_i thrown
    refine .inr ⟨thrown, ?_⟩
    rcases fits with nothing | ⟨mgr, srv, objects, thread⟩
    · exact .inl nothing
    · exact .inr ⟨srv, objects.service, Option.isSome_of_eq_some objects.manager, objects.owned.table,
        thread.imp_right And.left⟩
  · rename_i calm
    obtain ⟨closed, deleted⟩ := fits
    exact .inl ⟨by simpa using calm, closed.exited, deleted, closed.service, closed.thread, closed.held⟩

theorem returned_spec_exited : ∃ q, (system []).Reachable q ∧ q.statement = .returned ∧ q.heloMgr = none ∧
    q.ipcSrv = none ∧ q.thread = some .closed ∧ held [] q.trace = [] := by
  obtain ⟨first, initial, before⟩ := reached_exited
  have sound := invariant.reachable ⟨first, initial, before⟩
  obtain ⟨q, steps, returned, calm⟩ := (completes_loop sound rfl rfl (by decide) : Completes [] exitedProcess)
  have reached : (system []).Reachable q := ⟨first, initial, before.trans steps⟩
  refine ⟨q, reached, returned, ?_⟩
  obtain ⟨-, -, clean⟩ | ⟨thrown, -⟩ := returned_spec reached returned
  · exact clean
  · exact absurd (calm.symm.trans thrown) Bool.false_ne_true

/-- Once an exit has been served, `main` can return without an exception from wherever it is, unless it has
been left by an exception or terminated, or the thread is in a call that does not come back. -/
theorem exit_completes (reached : (system targetVersion).Reachable p) (ended : exited p.history = true)
    (calm : p.thrown = false) (lives : p.statement ≠ .terminated) (free : p.thread ≠ some .stuck) :
    Completes targetVersion p := by
  have sound := invariant.reachable reached
  have fits := sound.fits
  have before (none : p.history = []) : Completes targetVersion p := by
    rw [none] at ended
    contradiction
  cases here : p.statement with
  | fileInitialize | processInitialize | waitForQLaunch | createManager | createService =>
    simp only [Fits, here] at fits
    exact before fits.1.history
  | managerRunning =>
    simp only [Fits, here] at fits
    obtain ⟨mgr, srv, built⟩ := fits
    exact before built.history
  | enable | startService =>
    simp only [Fits, here] at fits
    obtain ⟨mgr, srv, built, -⟩ := fits
    exact before built.history
  | loop => exact completes_loop sound here ended free
  | refreshContext => exact completes_refreshContext sound here ended free
  | refreshConfig => exact completes_refreshConfig sound here ended free
  | waitForNextTick => exact completes_waitForNextTick sound here ended free
  | stopService => exact completes_stopService sound here free
  | waitForExit => exact completes_waitForExit sound here free
  | deleteService => exact completes_deleteService sound here
  | deleteManager => exact completes_deleteManager sound here
  | processExit => exact .head (.processExited here) (completes_fileExit rfl calm)
  | fileExit => exact completes_fileExit here calm
  | returned => exact ⟨p, .refl, here, calm⟩
  | terminated => exact absurd here lives

theorem exit_completes_exited : Completes [] exitedProcess :=
  exit_completes reached_exited rfl rfl (by decide) (by decide)

end Process

end SysHelo
