import SysHelo.Acknowledged
import SysHelo.Lifecycle

/-! What holds of the process in every order of the steps of its two threads: nothing is used that is not
there, what clients ask for is obeyed, and an exit ends the process with everything given back. -/
namespace SysHelo
open CString Stdio Loop Handles MinIni

namespace IpcServerRequest

def exits (r : IpcServerRequest) : Bool := r.data.cmdId = IpcService.SysHeloIpcCmd_Exit

/-- The flag that a request sets. -/
def sets (r : IpcServerRequest) : Option Bool :=
  if r.data.cmdId = IpcService.SysHeloIpcCmd_SetEnabled ∧ 1 ≤ r.data.size then
    r.data.ptr.map fun ptr => ptr 0 ≠ 0
  else none

end IpcServerRequest

namespace Moment

def isTick : Moment → Bool
  | tick _ => true
  | served _ => false

def exits : Moment → Bool
  | tick _ => false
  | served r => r.exits

def sets : Moment → Option Bool
  | tick _ => none
  | served r => r.sets

def finds : Moment → Option UInt64
  | tick applicationId => applicationId
  | served _ => none

end Moment

section History
variable {history : List Moment} {moment : Moment}

def exited (history : List Moment) : Bool := history.any Moment.exits

/-- The flag of the configuration: `main` sets it before the first request is served. -/
def lastSet (history : List Moment) : Bool :=
  history.foldl (fun enabled moment => moment.sets.getD enabled) true

/-- The application of the context. -/
def lastFound (history : List Moment) : UInt64 :=
  history.foldl (fun applicationId moment => moment.finds.getD applicationId) 0

/-- The ticks behind the first exit. -/
def lateTicks : List Moment → Nat
  | [] => 0
  | moment :: history => if moment.exits then history.countP Moment.isTick else lateTicks history

theorem exited_cons : exited (moment :: history) = (moment.exits || exited history) := rfl

@[simp] theorem exited_append : exited (history ++ [moment]) = (exited history || moment.exits) := by
  simp [exited]

@[simp] theorem lastSet_append : lastSet (history ++ [moment]) = moment.sets.getD (lastSet history) := by
  simp [lastSet]

@[simp] theorem lastFound_append : lastFound (history ++ [moment]) = moment.finds.getD
    (lastFound history) := by
  simp [lastFound]

theorem lateTicks_append : lateTicks (history ++ [moment]) =
    lateTicks history + if exited history && moment.isTick then 1 else 0 := by
  induction history with
  | nil => cases moment <;> simp [lateTicks, exited]
  | cons first rest ih =>
    rw [List.cons_append, lateTicks, lateTicks, ih]
    cases exits : first.exits with
    | true =>
      simp only [if_true, List.countP_append, List.countP_singleton, exited_cons, exits, Bool.true_or,
        Bool.true_and]
    | false => simp only [Bool.false_eq_true, if_false, exited_cons, exits, Bool.false_or]

theorem lateTicks_fresh (stays : exited history = false) : lateTicks history = 0 := by
  induction history with
  | nil => rfl
  | cons first rest ih =>
    rw [exited_cons, Bool.or_eq_false_iff] at stays
    rw [lateTicks, if_neg (by simp [stays.1]), ih stays.2]

theorem history_served (history : List Moment) (request : Option IpcServerRequest) :
    let now := history ++ (request.map .served).toList
    lateTicks now = lateTicks history ∧ exited now = (exited history || request.any IpcServerRequest.exits) ∧
      lastSet now = (request.bind IpcServerRequest.sets).getD (lastSet history) ∧
      lastFound now = lastFound history := by
  cases request with
  | none => simp
  | some r => simp [lateTicks_append, Moment.isTick, Moment.exits, Moment.sets, Moment.finds]

theorem late_of_split {before after : List Moment} (exits : moment.exits)
    (split : history = before ++ moment :: after) : after.countP Moment.isTick ≤ lateTicks history := by
  subst split
  induction before with
  | nil => rw [List.nil_append, lateTicks, if_pos exits]
  | cons first rest ih =>
    rw [List.cons_append, lateTicks]
    split
    · rw [List.countP_append, List.countP_cons]
      omega
    · exact ih

end History

namespace IpcService
variable {targetVersion : List UInt8} {stack : Chars INI_BUFFERSIZE} {o : Outcomes} {r : IpcServerRequest}
  {state state' : State} {response : Response OutData}

theorem setConfigValues_manager {configValues : SysHeloConfigValueList} {files files' : Files}
    {mgr mgr' : HeloManager} {rc : Result}
    (answered : Returns (setConfigValues stack o configValues files mgr) (files', mgr', rc)) :
    mgr'.running = mgr.running ∧ mgr'.config.enabled = mgr.config.enabled ∧ mgr'.context = mgr.context := by
  obtain ⟨-, -, -, rfl⟩ | ⟨-, saved, -, rfl, -⟩ := setConfigValues_inv answered
  · exact ⟨rfl, rfl, rfl⟩
  · refine ⟨rfl, ?_, rfl⟩
    dsimp only [Config.applied]
    split <;> rfl

/-- Only an exit stops the manager, and only a `SetEnabled` changes the flag. -/
theorem serviceHandlerFunc_obeys
    (returns : Returns (serviceHandlerFunc targetVersion stack o r state) (state', response)) :
    state'.mgr.running = (state.mgr.running && !r.exits) ∧
      state'.mgr.config.enabled = r.sets.getD state.mgr.config.enabled ∧
      state'.mgr.context = state.mgr.context := by
  cases serviceHandlerFunc_handled returns with
  | unchanged stays missing =>
    have exits : r.exits = false := by simp [IpcServerRequest.exits, stays]
    have sets : r.sets = none := by
      unfold IpcServerRequest.sets
      split
      · rename_i enables
        rcases missing enables.1 with none | short
        · rw [none, Option.map_none]
        · omega
      · rfl
    rw [exits, sets]
    exact ⟨(Bool.and_true _).symm, rfl, rfl⟩
  | exited command =>
    have exits : r.exits = true := by simp [IpcServerRequest.exits, command]
    have sets : r.sets = none := if_neg fun ⟨enable, _⟩ => absurd (command.symm.trans enable) (by decide)
    rw [exits, sets]
    exact ⟨(Bool.and_false _).symm, rfl, rfl⟩
  | enabled command given long =>
    have exits : r.exits = false := by
      rw [IpcServerRequest.exits, command]
      rfl
    rw [exits, IpcServerRequest.sets, if_pos ⟨command, long⟩, given]
    exact ⟨(Bool.and_true _).symm, rfl, rfl⟩
  | saved command saving =>
    have exits : r.exits = false := by
      rw [IpcServerRequest.exits, command]
      rfl
    have sets : r.sets = none := if_neg fun ⟨enable, _⟩ => absurd (command.symm.trans enable) (by decide)
    rw [exits, sets, Bool.not_false, Bool.and_true]
    exact setConfigValues_manager saving

end IpcService

namespace IpcServer
variable {σ α : Type} {handler : IpcServerRequestHandler σ α} {k : KernelAnswers} {server server' : IpcServer}
  {userdata userdata' : σ} {rc : Result} {events : List (IpcEvent α)}

theorem received_cancelled (failed : k.received = .error KernelError_Cancelled) : k.Cancels := by
  unfold KernelAnswers.received at failed
  split at failed
  · unfold ipcServerParseRequest at failed
    have other : LibnxError_BadInput ≠ KernelError_Cancelled := by decide
    dsimp only at failed
    repeat' split at failed
    all_goals simp_all
  · exact .inr (.inr (.inl (Except.error.inj failed)))

theorem replied_cancelled (failed : k.replied = KernelError_Cancelled) : k.Cancels := by
  unfold KernelAnswers.replied at failed
  split at failed
  · exact absurd failed (by decide)
  · exact .inr (.inr (.inr failed))

theorem processSession_cancelled (index : Nat) : Ensures
    (ipcServerProcessSession handler k index server userdata)
    fun (result : IpcServer × σ × Result × List (IpcEvent α)) =>
      result.2.2.1 = KernelError_Cancelled → k.Cancels := by
  unfold ipcServerProcessSession
  dsimp only
  cases request : k.received with
  | error rc =>
    apply Ensures.pure
    rintro rfl
    exact received_cancelled request
  | ok r => exact .bind_any fun _ => .pure replied_cancelled

theorem newSession_cancelled (failed : (@ipcServerProcessNewSession α k server).2.1 = KernelError_Cancelled) :
    k.Cancels := by
  unfold ipcServerProcessNewSession at failed
  by_cases taken : k.acceptResult = 0
  · rw [if_pos taken] at failed
    unfold ipcServerAddSession at failed
    dsimp only at failed
    split at failed
    · exact absurd failed (show LibnxError_OutOfMemory ≠ KernelError_Cancelled by decide)
    · exact absurd failed (show (0 : Result) ≠ KernelError_Cancelled by decide)
  · rw [if_neg taken] at failed
    exact .inr (.inl failed)

/-- A call is cancelled only when one of the kernel's answers is. -/
theorem process_cancelled
    (returns : Returns (ipcServerProcess handler k server userdata) (server', userdata', rc, events))
    (cancelled : rc = KernelError_Cancelled) : k.Cancels := by
  have ensures : Ensures (ipcServerProcess handler k server userdata)
      fun (result : IpcServer × σ × Result × List (IpcEvent α)) =>
        result.2.2.1 = KernelError_Cancelled → k.Cancels := by
    unfold ipcServerProcess
    dsimp only
    by_cases ready : (if k.waitResult = 0 ∧ (k.handleIndex < 0 ∨ k.handleIndex ≥ server.count) then
        LibnxError_NotFound else k.waitResult) = 0
    · rw [if_pos ready]
      split
      · exact .bind (processSession_cancelled _) fun _ holds => Ensures.pure holds
      · exact .pure newSession_cancelled
    · rw [if_neg ready]
      apply Ensures.pure
      dsimp only
      split
      · exact fun bad => absurd bad (by decide)
      · exact .inl
  exact ensures.of_returns returns cancelled

/-- Only a request that is neither a close nor of another type reaches the handler. -/
theorem respond_request {r : IpcServerRequest} {content : Reply α} {close : Bool}
    (responded : Returns (ipcServerRespond handler r userdata) (userdata', content, close)) :
    (if r.hipc.type = CmifCommandType_Request then some r else none) = none ∧ userdata' = userdata ∨
      ∃ r' response, (if r.hipc.type = CmifCommandType_Request then some r else none) = some r' ∧
        Returns (handler.handle r' userdata) (userdata', response) := by
  unfold ipcServerRespond at responded
  by_cases request : r.hipc.type = CmifCommandType_Request
  · rw [if_pos request] at responded ⊢
    obtain ⟨result, handled, rest⟩ := (handler.stable r userdata).bind_inv responded
    obtain ⟨rfl, -⟩ := Prod.mk.inj ((Returns.pure _).unique rest)
    exact .inr ⟨r, result.2, rfl, handled⟩
  · rw [if_neg request] at responded ⊢
    split at responded
    · obtain ⟨rfl, -⟩ := Prod.mk.inj ((Returns.pure _).unique responded)
      exact .inl ⟨rfl, rfl⟩
    · obtain ⟨rfl, -⟩ := Prod.mk.inj ((Returns.pure _).unique responded)
      exact .inl ⟨rfl, rfl⟩

theorem process_request (sound : server.Sound)
    (returns : Returns (ipcServerProcess handler k server userdata) (server', userdata', rc, events)) :
    k.request server = none ∧ userdata' = userdata ∨
      ∃ r response, k.request server = some r ∧ Returns (handler.handle r userdata)
        (userdata', response) := by
  obtain ⟨turn, -⟩ := process_turn sound returns
  have length := sound.length
  generalize server.table = table, server'.table = table' at turn length
  cases turn with
  | idle failed =>
    refine .inl ⟨if_neg fun ⟨waited, positive, inside⟩ => ?_, rfl⟩
    rcases failed with bad | below | above
    · exact bad waited
    · omega
    · omega
  | unaccepted _ zero | accepted _ zero | refused _ zero =>
    exact .inl ⟨if_neg fun ⟨_, positive, _⟩ => by omega, rfl⟩
  | @served h _ _ _ i waited index positive session served =>
    have inside : i < server.count := length ▸ (List.getElem?_eq_some_iff.mp session).1
    have called : k.waitResult = 0 ∧ 0 < k.handleIndex ∧ k.handleIndex < server.count :=
        ⟨waited, by omega, by omega⟩
    unfold KernelAnswers.request
    rw [if_pos called]
    cases served with
    | unreceived failed =>
      rw [failed]
      exact .inl ⟨rfl, rfl⟩
    | kept request responded =>
      rw [request]
      exact respond_request responded
    | ended request responded =>
      rw [request]
      exact respond_request responded

end IpcServer

namespace IpcService

theorem process_obeys {targetVersion : List UInt8} {stack : Chars INI_BUFFERSIZE} {o : Outcomes}
    {k : KernelAnswers}
    {server server' : IpcServer} {state state' : State} {rc : Result} {events : List (IpcEvent OutData)}
    (sound : server.Sound)
    (returns : Returns (ipcServerProcess (serviceHandler targetVersion stack o) k server state)
      (server', state', rc, events)) :
    state'.mgr.running = (state.mgr.running && !(k.request server).any IpcServerRequest.exits) ∧
      state'.mgr.config.enabled =
        ((k.request server).bind IpcServerRequest.sets).getD state.mgr.config.enabled ∧
      state'.mgr.context = state.mgr.context := by
  rcases IpcServer.process_request sound returns with ⟨unasked, rfl⟩ | ⟨r, response, asked, handled⟩
  · rw [unasked]
    exact ⟨(Bool.and_true _).symm, rfl, rfl⟩
  · rw [asked]
    exact serviceHandlerFunc_obeys handled

end IpcService

/-- The statements from the one on that waits for the thread. -/
def Statement.ends : Statement → Bool
  | .waitForExit | .deleteService | .deleteManager | .processExit | .fileExit | .returned | .terminated =>
      true
  | _ => false

/-- What the next statement of `main` works on must not have been deleted. -/
def Statement.usesManager : Statement → Bool
  | .managerRunning | .enable | .loop | .refreshContext | .refreshConfig | .waitForNextTick
  | .deleteManager => true
  | _ => false

def Statement.usesService : Statement → Bool
  | .startService | .stopService | .waitForExit | .deleteService => true
  | _ => false

namespace Process
variable {statement next : Statement} {targetVersion : List UInt8} {p q : Process} {mgr : HeloManager}
  {srv : IpcService}

/-- The manager and the service are there, and the open handles are those of the server. -/
structure Objects (p : Process) (mgr : HeloManager) (srv : IpcService) : Prop where
  manager : p.heloMgr = some mgr
  service : p.ipcSrv = some srv
  owned : ServerRun.Owned ⟨srv.server, p.port, p.trace⟩

/-- The manager is as the requests have left it. -/
structure Obeyed (p : Process) (mgr : HeloManager) : Prop where
  running : mgr.running = !exited p.history
  enabled : mgr.config.enabled = lastSet p.history
  application : mgr.context.applicationId = lastFound p.history

/-- Nothing has been registered or started. -/
structure Unbuilt (p : Process) : Prop where
  service : p.ipcSrv = none
  thread : p.thread = none
  trace : p.trace = []
  history : p.history = []

/-- The service is there, and its thread has not been started. -/
structure Built (p : Process) (mgr : HeloManager) (srv : IpcService) : Prop extends Objects p mgr srv where
  idle : srv.running = false
  thread : p.thread = some .created
  history : p.history = []
  application : mgr.context.applicationId = 0

/-- The thread serves, and `main` has not asked it to stop. -/
structure Serving (p : Process) (mgr : HeloManager) (srv : IpcService) : Prop extends Objects p mgr srv where
  obeyed : Obeyed p mgr
  running : srv.running = true
  thread : p.Alive

/-- The thread has been asked to stop, after an exit. -/
structure Stopping (p : Process) (mgr : HeloManager) (srv : IpcService) : Prop extends Objects p mgr srv where
  obeyed : Obeyed p mgr
  idle : srv.running = false
  exited : exited p.history = true
  cancelled : p.cancelled = true

/-- The service is gone, and every handle is closed. -/
structure Closed (p : Process) : Prop where
  service : p.ipcSrv = none
  thread : p.thread = some .closed
  held : held [] p.trace = []
  exited : exited p.history = true

/-- After an exception nothing is deleted, and a thread that serves goes on. What a constructor has registered
before it threw stays open. -/
def Left (p : Process) : Prop :=
  p.ipcSrv = none ∧ p.thread = none ∧ (held [] p.trace = [] ∨ held [] p.trace = [p.port]) ∨
    ∃ mgr srv, Objects p mgr srv ∧ (p.thread = some .created ∨ p.Alive ∧ Obeyed p mgr)

theorem Unbuilt.goes (unbuilt : Unbuilt p) (statement : Statement) : Unbuilt { p with statement } :=
  ⟨unbuilt.service, unbuilt.thread, unbuilt.trace, unbuilt.history⟩

theorem Objects.goes (objects : Objects p mgr srv) (statement : Statement) : Objects
    { p with statement } mgr srv :=
  ⟨objects.manager, objects.service, objects.owned⟩

theorem Obeyed.goes (obeyed : Obeyed p mgr) (statement : Statement) : Obeyed { p with statement } mgr :=
  ⟨obeyed.running, obeyed.enabled, obeyed.application⟩

theorem Serving.goes (serving : Serving p mgr srv) (statement : Statement) : Serving
    { p with statement } mgr srv :=
  ⟨serving.toObjects.goes statement, serving.obeyed.goes statement, serving.running, serving.thread⟩

theorem Stopping.goes (stopping : Stopping p mgr srv) (statement : Statement) :
    Stopping { p with statement } mgr srv :=
  ⟨stopping.toObjects.goes statement, stopping.obeyed.goes statement, stopping.idle, stopping.exited,
    stopping.cancelled⟩

theorem Closed.goes (closed : Closed p) (statement : Statement) : Closed { p with statement } :=
  ⟨closed.service, closed.thread, closed.held, closed.exited⟩

theorem Left.goes (left : Left p) (statement : Statement) : Left { p with statement } := by
  rcases left with nothing | ⟨mgr, srv, objects, created | ⟨running, obeyed⟩⟩
  · exact .inl nothing
  · exact .inr ⟨mgr, srv, objects.goes statement, .inl created⟩
  · exact .inr ⟨mgr, srv, objects.goes statement, .inr ⟨running, obeyed.goes statement⟩⟩

/-- What holds before each statement of `main`. -/
def Fits (p : Process) : Prop :=
  match p.statement with
  | .fileInitialize | .processInitialize | .waitForQLaunch | .createManager => p.Unbuilt ∧ p.heloMgr = none
  | .createService => p.Unbuilt ∧ p.heloMgr = some .create
  | .managerRunning => ∃ mgr srv, Built p mgr srv
  | .enable => ∃ mgr srv, Built p mgr srv ∧ mgr.running = true
  | .startService => ∃ mgr srv, Built p mgr srv ∧ Obeyed p mgr
  | .loop | .refreshConfig | .waitForNextTick => ∃ mgr srv, Serving p mgr srv
  | .refreshContext => (∃ mgr srv, Serving p mgr srv) ∧ lateTicks p.history = 0
  | .stopService => (∃ mgr srv, Serving p mgr srv) ∧ exited p.history = true
  | .waitForExit => ∃ mgr srv, Stopping p mgr srv ∧ (p.Alive ∨ p.thread = some .finished)
  | .deleteService => ∃ mgr srv, Stopping p mgr srv ∧ p.thread = some .finished
  | .deleteManager => p.Closed ∧ p.heloMgr.isSome
  | .processExit => p.Closed ∧ p.heloMgr = none
  | .fileExit | .returned => if p.thrown then p.Left else p.Closed ∧ p.heloMgr = none
  | .terminated => ¬ p.Alive ∧ p.thread ≠ some .created

/-- The invariant. An exception is caught at the end, and the thread is cancelled before it is waited for. -/
structure Sound (p : Process) : Prop where
  fits : p.Fits
  lawful : Lawful [] p.trace
  late : lateTicks p.history ≤ 1
  quiet : p.thrown = true → p.statement = .fileExit ∨ p.statement = .returned
  uncancelled : p.cancelled = true → p.statement.ends = true ∧ p.thrown = false

namespace Sound

theorem calm (sound : Sound p) (here : p.statement = statement)
    (runs : statement ≠ .fileExit ∧ statement ≠ .returned) : p.thrown = false := by
  cases thrown : p.thrown with
  | false => rfl
  | true =>
    rcases sound.quiet thrown with last | last
    · exact absurd (here.symm.trans last) runs.1
    · exact absurd (here.symm.trans last) runs.2

theorem working (sound : Sound p) (here : p.statement = statement) (before : statement.ends = false) :
    p.cancelled = false := by
  cases cancelled : p.cancelled with
  | false => rfl
  | true =>
    have ends := (sound.uncancelled cancelled).1
    rw [here, before] at ends
    contradiction

theorem moves (sound : Sound p) (here : p.statement = statement)
    (runs : statement ≠ .fileExit ∧ statement ≠ .returned) (fits : q.Fits) (lawful : Lawful [] q.trace)
    (late : lateTicks q.history ≤ 1) (thrown : q.thrown = p.thrown) (cancelled : q.cancelled = p.cancelled)
    (there : q.statement = next) (ends : statement.ends = false ∨ next.ends = true) : Sound q := by
  have calm := sound.calm here runs
  refine ⟨fits, lawful, late, fun bad => ?_, fun asked => ?_⟩
  · rw [thrown, calm] at bad
    contradiction
  · rw [cancelled] at asked
    refine ⟨?_, thrown.trans calm⟩
    rcases ends with before | after
    · exact absurd ((sound.working here before).symm.trans asked) Bool.false_ne_true
    · exact there ▸ after

theorem throws (sound : Sound p) (here : p.statement = statement) (before : statement.ends = false)
    (left : q.Left) (lawful : Lawful [] q.trace) (late : lateTicks q.history ≤ 1)
    (thrown : q.thrown = true) (last : q.statement = .fileExit) (cancelled : q.cancelled = p.cancelled) :
    Sound q := by
  have working := sound.working here before
  refine ⟨?_, lawful, late, fun _ => .inl last, fun asked => ?_⟩
  · simp only [Fits, last, thrown, if_true]
    exact left
  · rw [cancelled, working] at asked
    contradiction

theorem start : Sound start :=
  ⟨⟨⟨rfl, rfl, rfl, rfl⟩, rfl⟩, trivial, Nat.zero_le _,
    fun bad => by contradiction, fun bad => by contradiction⟩

end Sound

theorem Obeyed.ticked (obeyed : Obeyed p mgr) (q : Process) (found : Option UInt64) (mgr' : HeloManager)
    (running : mgr'.running = mgr.running) (enabled : mgr'.config.enabled = mgr.config.enabled)
    (application : mgr'.context.applicationId = found.getD mgr.context.applicationId) :
    Obeyed { q with history := p.history ++ [.tick found] } mgr' := by
  constructor
  · rw [running, obeyed.running]
    simp [Moment.exits]
  · rw [enabled, obeyed.enabled]
    simp [Moment.sets]
  · rw [application, obeyed.application]
    simp [Moment.finds]

theorem lateTicks_ticked {history : List Moment} (found : Option UInt64) (fresh : lateTicks history = 0) :
    lateTicks (history ++ [.tick found]) ≤ 1 := by
  rw [lateTicks_append, fresh]
  split <;> omega

theorem refresh_enabled (stack : Chars INI_BUFFERSIZE) (stat stat' : Option Int) (file : Option ReadFile)
    (config : Config) : (config.refresh stack stat stat' file).1.enabled = config.enabled := by
  rw [Config.refresh_eq]
  split
  · rw [Config.load_any]
  · rfl

theorem refreshContext_kept {applicationId : UInt64} {mgr' : HeloManager} {changed : Bool}
    (refreshed : mgr.refreshContext applicationId = (mgr', changed)) :
    mgr'.running = mgr.running ∧ mgr'.config = mgr.config ∧ mgr'.context.applicationId = applicationId := by
  rw [HeloManager.refreshContext_eq] at refreshed
  obtain ⟨rfl, -⟩ := Prod.mk.inj refreshed
  exact ⟨rfl, rfl, rfl⟩

theorem init_owned {before server : IpcServer} {port : Handle} {events : List (IpcEvent Unit)}
    (unbuilt : Unbuilt p)
    (initialised : ipcServerInit before srvName 42 registerResult port = (server, 0, events)) :
    ServerRun.Owned ⟨server, port, p.trace ++ events.flatMap IpcEvent.ops⟩ := by
  rw [unbuilt.trace, List.nil_append]
  exact .start (.init initialised)

theorem init_failed {before server : IpcServer} {port : Handle} {events : List (IpcEvent Unit)}
    (initialised : ipcServerInit before srvName 42 registerResult port = (server, rc, events))
      (failed : rc ≠ 0) :
    events = [] := by
  unfold ipcServerInit at initialised
  rw [if_neg (by decide)] at initialised
  dsimp only at initialised
  split at initialised
  · obtain ⟨-, same⟩ := Prod.mk.inj initialised
    exact absurd (Prod.mk.inj same).1.symm failed
  · obtain ⟨-, same⟩ := Prod.mk.inj initialised
    exact (Prod.mk.inj same).2.symm

theorem exit_owned {server server' : IpcServer} {port : Handle} {trace : List (Op Handle)}
    {events : List (IpcEvent Unit)} (owned : ServerRun.Owned ⟨server, port, trace⟩)
    (exit : ipcServerExit unregisterResult server = (server', rc, events)) :
    Lawful [] (trace ++ events.flatMap IpcEvent.ops) ∧
      held [] (trace ++ events.flatMap IpcEvent.ops) = [] := by
  have ops := owned.exit unregisterResult
  rw [exit] at ops
  obtain ⟨lawful, empty⟩ := lawful_release server.table
  rw [lawful_append, held_append, owned.table, ops]
  exact ⟨⟨owned.lawful, lawful⟩, empty⟩

/-- One call on the other thread. -/
structure Call (p q : Process) (mgr mgr' : HeloManager) (srv srv' : IpcService) : Prop where
  manager : q.heloMgr = some mgr'
  service : q.ipcSrv = some srv'
  running : srv'.running = srv.running
  owned : ServerRun.Owned ⟨srv'.server, q.port, q.trace⟩
  late : lateTicks q.history = lateTicks p.history
  exits : exited p.history = true → exited q.history = true
  obeyed : Obeyed p mgr → Obeyed q mgr'

theorem Objects.processed {server : IpcServer} {mgr' : HeloManager} {files files' : Files}
    {stack : Chars INI_BUFFERSIZE} {o : Outcomes} {k : KernelAnswers} {rc : Result}
      {events : List (IpcEvent IpcService.OutData)}
    (objects : Objects p mgr srv)
    (returns : Returns (ipcServerProcess (IpcService.serviceHandler targetVersion stack o) k srv.server
      ⟨mgr, files⟩) (server, ⟨mgr', files'⟩, rc, events))
    (fresh : ∀ port session, .accept port (some session) ∈ events → session ∉ held [] p.trace) :
    Call p { p with
      heloMgr := some mgr'
      ipcSrv := some { srv with server }
      thread := some (if rc = KernelError_Cancelled then .finished else .running)
      trace := p.trace ++ events.flatMap IpcEvent.ops
      history := p.history ++ ((k.request srv.server).map .served).toList } mgr mgr' srv
        { srv with server } := by
  have owned := objects.owned.step (.process returns fresh)
  obtain ⟨late, exits, lastSet, lastFound⟩ := history_served p.history (k.request srv.server)
  obtain ⟨running, enabled, context⟩ := IpcService.process_obeys objects.owned.sound returns
  refine ⟨rfl, rfl, rfl, owned, late, fun before => ?_, fun obeyed => ⟨?_, ?_, ?_⟩⟩
  · rw [exits, before, Bool.true_or]
  · rw [running, obeyed.running, exits, Bool.not_or]
  · rw [enabled, obeyed.enabled, lastSet]
  · rw [context, obeyed.application, lastFound]

theorem Serving.called {mgr' : HeloManager} {srv' : IpcService} (serving : Serving p mgr srv)
    (call : Call p q mgr mgr' srv srv') (thread : q.Alive) : Serving q mgr' srv' :=
  ⟨⟨call.manager, call.service, call.owned⟩, call.obeyed serving.obeyed,
    call.running.trans serving.running, thread⟩

theorem Stopping.called {mgr' : HeloManager} {srv' : IpcService} (stopping : Stopping p mgr srv)
    (call : Call p q mgr mgr' srv srv') (cancelled : q.cancelled = p.cancelled) : Stopping q mgr' srv' :=
  ⟨⟨call.manager, call.service, call.owned⟩, call.obeyed stopping.obeyed, call.running.trans stopping.idle,
    call.exits stopping.exited, cancelled.trans stopping.cancelled⟩

theorem Objects.unique {mgr' : HeloManager} {srv' : IpcService} (objects : Objects p mgr srv)
    (other : Objects p mgr' srv') : mgr' = mgr ∧ srv' = srv :=
  ⟨Option.some.inj (other.manager.symm.trans objects.manager),
    Option.some.inj (other.service.symm.trans objects.service)⟩

namespace Sound

theorem serves (sound : Sound p) (thread : p.Alive) :
    (∃ mgr srv, Serving p mgr srv ∧
        p.statement ∈ [.loop, .refreshContext, .refreshConfig, .waitForNextTick, .stopService]) ∨
      (∃ mgr srv, Stopping p mgr srv ∧ p.statement = .waitForExit) ∨
      p.thrown = true ∧ ∃ mgr srv, Objects p mgr srv ∧ Obeyed p mgr := by
  have fits := sound.fits
  have other {state : Option ThreadState} (same : p.thread = state)
      (differs : state ≠ some .running ∧ state ≠ some .stuck) : False := by
    rcases thread with running | stuck
    · exact differs.1 (same.symm.trans running)
    · exact differs.2 (same.symm.trans stuck)
  cases here : p.statement with
  | fileInitialize | processInitialize | waitForQLaunch | createManager | createService =>
    simp only [Fits, here] at fits
    exact (other fits.1.thread (by simp)).elim
  | managerRunning =>
    simp only [Fits, here] at fits
    obtain ⟨mgr, srv, built⟩ := fits
    exact (other built.thread (by simp)).elim
  | enable | startService =>
    simp only [Fits, here] at fits
    obtain ⟨mgr, srv, built, -⟩ := fits
    exact (other built.thread (by simp)).elim
  | loop | refreshConfig | waitForNextTick =>
    simp only [Fits, here] at fits
    obtain ⟨mgr, srv, serving⟩ := fits
    exact .inl ⟨mgr, srv, serving, by simp⟩
  | refreshContext | stopService =>
    simp only [Fits, here] at fits
    obtain ⟨⟨mgr, srv, serving⟩, -⟩ := fits
    exact .inl ⟨mgr, srv, serving, by simp⟩
  | waitForExit =>
    simp only [Fits, here] at fits
    obtain ⟨mgr, srv, stopping, -⟩ := fits
    exact .inr (.inl ⟨mgr, srv, stopping, rfl⟩)
  | deleteService =>
    simp only [Fits, here] at fits
    obtain ⟨mgr, srv, -, finished⟩ := fits
    exact (other finished (by simp)).elim
  | deleteManager | processExit =>
    simp only [Fits, here] at fits
    exact (other fits.1.thread (by simp)).elim
  | fileExit | returned =>
    simp only [Fits, here] at fits
    split at fits
    · rename_i thrown
      rcases fits with ⟨-, none, -⟩ | ⟨mgr, srv, objects, created | ⟨-, obeyed⟩⟩
      · exact (other none (by simp)).elim
      · exact (other created (by simp)).elim
      · exact .inr (.inr ⟨thrown, mgr, srv, objects, obeyed⟩)
    · exact (other fits.1.thread (by simp)).elim
  | terminated =>
    simp only [Fits, here] at fits
    exact (fits.1 thread).elim

theorem objects (sound : Sound p) (thread : p.Alive) : ∃ mgr srv, Objects p mgr srv := by
  rcases sound.serves thread with ⟨mgr, srv, serving, -⟩ | ⟨mgr, srv, stopping, -⟩ | ⟨-, mgr, srv, objects, -⟩
  · exact ⟨mgr, srv, serving.toObjects⟩
  · exact ⟨mgr, srv, stopping.toObjects⟩
  · exact ⟨mgr, srv, objects⟩

/-- A call on the other thread, which ends with it only when it has been cancelled. -/
theorem called {mgr' : HeloManager} {srv' : IpcService} (sound : Sound p) (running : p.Alive)
    (manager : p.heloMgr = some mgr) (service : p.ipcSrv = some srv) (call : Call p q mgr mgr' srv srv')
    (thread : q.Alive ∨ q.thread = some .finished ∧ p.cancelled = true)
    (statement : q.statement = p.statement) (thrown : q.thrown = p.thrown)
      (cancelled : q.cancelled = p.cancelled) :
    Sound q := by
  have same {mgr₀ : HeloManager} {srv₀ : IpcService} (objects : Objects p mgr₀ srv₀) : mgr₀ = mgr ∧
      srv₀ = srv :=
    ⟨Option.some.inj (objects.manager.symm.trans manager), Option.some.inj
      (objects.service.symm.trans service)⟩
  refine ⟨?_, call.owned.lawful, call.late ▸ sound.late, ?_, ?_⟩
  · have fits := sound.fits
    rcases sound.serves running with ⟨mgr₀, srv₀, serving, here⟩ | ⟨mgr₀, srv₀, stopping, here⟩ |
      ⟨excepted, mgr₀, srv₀, objects, obeyed⟩
    · obtain ⟨rfl, rfl⟩ := same serving.toObjects
      have goesOn (before : p.statement.ends = false) : q.Alive :=
        thread.resolve_right fun ⟨_, asked⟩ => Bool.noConfusion ((sound.working rfl before).symm.trans asked)
      have next (before : p.statement.ends = false) : Serving q mgr' srv' := serving.called call
        (goesOn before)
      simp only [List.mem_cons, List.not_mem_nil, or_false] at here
      rcases here with here | here | here | here | here
      · simp only [Fits, statement, here]
        exact ⟨mgr', srv', next (here ▸ rfl)⟩
      · simp only [Fits, here] at fits
        simp only [Fits, statement, here]
        exact ⟨⟨mgr', srv', next (here ▸ rfl)⟩, call.late.trans fits.2⟩
      · simp only [Fits, statement, here]
        exact ⟨mgr', srv', next (here ▸ rfl)⟩
      · simp only [Fits, statement, here]
        exact ⟨mgr', srv', next (here ▸ rfl)⟩
      · simp only [Fits, here] at fits
        simp only [Fits, statement, here]
        exact ⟨⟨mgr', srv', next (here ▸ rfl)⟩, call.exits fits.2⟩
    · obtain ⟨rfl, rfl⟩ := same stopping.toObjects
      simp only [Fits, statement, here]
      exact ⟨mgr', srv', stopping.called call cancelled, thread.imp_right And.left⟩
    · obtain ⟨rfl, rfl⟩ := same objects
      have goesOn : q.Alive :=
        thread.resolve_right fun ⟨_, asked⟩ => Bool.noConfusion
          ((sound.uncancelled asked).2.symm.trans excepted)
      have left : q.Left :=
        .inr ⟨mgr', srv', ⟨call.manager, call.service, call.owned⟩, .inr ⟨goesOn, call.obeyed obeyed⟩⟩
      rcases sound.quiet excepted with here | here
      · simp only [Fits, statement, here, thrown, excepted, if_true]
        exact left
      · simp only [Fits, statement, here, thrown, excepted, if_true]
        exact left
  · rw [statement, thrown]
    exact sound.quiet
  · rw [statement, thrown, cancelled]
    exact sound.uncancelled

/-- The invariant is kept by each statement of `main`, and by each call on the other thread. -/
theorem step (sound : Sound p) (taken : Step targetVersion p q) : Sound q := by
  have fits := sound.fits
  have lawful := sound.lawful
  have late := sound.late
  cases taken with
  | fileInitialized here =>
    simp only [Fits, here] at fits
    exact sound.moves here (by decide) ⟨fits.1.goes _, fits.2⟩ lawful late rfl rfl rfl (.inl rfl)
  | fileFatal here =>
    simp only [Fits, here] at fits
    refine sound.moves here (by decide) ?_ lawful late rfl rfl rfl (.inl rfl)
    simp [Fits, Alive, fits.1.thread]
  | processInitialized here =>
    simp only [Fits, here] at fits
    exact sound.moves here (by decide) ⟨fits.1.goes _, fits.2⟩ lawful late rfl rfl rfl (.inl rfl)
  | processThrows here =>
    simp only [Fits, here] at fits
    exact sound.throws here rfl (.inl ⟨fits.1.service, fits.1.thread, .inl (congrArg (held []) fits.1.trace)⟩)
      lawful late rfl rfl rfl
  | qlaunchMissing here => exact sound
  | qlaunchFound here =>
    simp only [Fits, here] at fits
    exact sound.moves here (by decide) ⟨fits.1.goes _, fits.2⟩ lawful late rfl rfl rfl (.inl rfl)
  | managerCreated here =>
    simp only [Fits, here] at fits
    obtain ⟨⟨service, thread, trace, history⟩, -⟩ := fits
    exact sound.moves here (by decide) ⟨⟨service, thread, trace, history⟩, rfl⟩ lawful late rfl rfl
      rfl (.inl rfl)
  | priorityThrows here =>
    simp only [Fits, here] at fits
    exact sound.throws here rfl (.inl ⟨fits.1.service, fits.1.thread, .inl (congrArg (held []) fits.1.trace)⟩)
      lawful late rfl rfl rfl
  | registerThrows here initialised failed =>
    simp only [Fits, here] at fits
    obtain rfl := init_failed initialised failed
    refine sound.throws here rfl (.inl ⟨fits.1.service, fits.1.thread, .inl ?_⟩) ?_ late rfl rfl rfl
    · rw [List.flatMap_nil, List.append_nil, fits.1.trace]
      rfl
    · exact (List.append_nil p.trace).symm ▸ lawful
  | threadThrows here initialised =>
    simp only [Fits, here] at fits
    have owned := init_owned fits.1 initialised
    refine sound.throws here rfl (.inl ⟨fits.1.service, fits.1.thread, .inr ?_⟩) owned.lawful late rfl rfl rfl
    exact owned.table.trans (IpcServer.init_table initialised).2.1
  | serviceCreated here initialised =>
    simp only [Fits, here] at fits
    obtain ⟨unbuilt, manager⟩ := fits
    have owned := init_owned unbuilt initialised
    exact sound.moves here (by decide) ⟨_, _, ⟨manager, rfl, owned⟩, rfl, rfl, unbuilt.history,
      rfl⟩ owned.lawful
      late rfl rfl rfl (.inl rfl)
  | managerRunning here there =>
    simp only [Fits, here] at fits
    obtain ⟨mgr, srv, ⟨manager, service, owned⟩, idle, thread, history, application⟩ := fits
    obtain rfl := Option.some.inj (there.symm.trans manager)
    exact sound.moves here (by decide) ⟨_, srv, ⟨⟨rfl, service, owned⟩, idle, thread, history, application⟩,
      rfl⟩
      lawful late rfl rfl rfl (.inl rfl)
  | enabled here there =>
    simp only [Fits, here] at fits
    obtain ⟨mgr, srv, ⟨⟨manager, service, owned⟩, idle, thread, history, application⟩, running⟩ := fits
    obtain rfl := Option.some.inj (there.symm.trans manager)
    refine sound.moves here (by decide)
      ⟨_, srv, ⟨⟨rfl, service, owned⟩, idle, thread, history, application⟩, ?_, ?_, ?_⟩
      lawful late rfl rfl rfl (.inl rfl)
    · dsimp only
      rw [running, history]
      rfl
    · dsimp only
      rw [history]
      rfl
    · dsimp only
      rw [application, history]
      rfl
  | startThrows here there stopped =>
    simp only [Fits, here] at fits
    obtain ⟨mgr, srv, ⟨⟨manager, service, owned⟩, -, thread, -, -⟩, -⟩ := fits
    obtain rfl := Option.some.inj (there.symm.trans service)
    exact sound.throws here rfl (.inr ⟨mgr, _, ⟨manager, rfl, owned⟩, .inl thread⟩) lawful late rfl rfl rfl
  | started here there stopped =>
    simp only [Fits, here] at fits
    obtain ⟨mgr, srv, ⟨⟨manager, service, owned⟩, -, -, -, -⟩, ⟨running, enabled, application⟩⟩ := fits
    obtain rfl := Option.some.inj (there.symm.trans service)
    exact sound.moves here (by decide) ⟨mgr, _, ⟨manager, rfl, owned⟩, ⟨running, enabled, application⟩,
      rfl, .inl rfl⟩
      lawful late rfl rfl rfl (.inl rfl)
  | goesOn here there running =>
    simp only [Fits, here] at fits
    obtain ⟨mgr, srv, serving⟩ := fits
    obtain rfl := Option.some.inj (there.symm.trans serving.manager)
    have stays : exited p.history = false := by
      have obeyed := serving.obeyed.running
      rw [running] at obeyed
      simpa using obeyed
    exact sound.moves here (by decide) ⟨⟨_, srv, serving.goes _⟩, lateTicks_fresh stays⟩ lawful
      late rfl rfl rfl
      (.inl rfl)
  | leaves here there stopped =>
    simp only [Fits, here] at fits
    obtain ⟨mgr, srv, serving⟩ := fits
    obtain rfl := Option.some.inj (there.symm.trans serving.manager)
    have ended : exited p.history = true := by
      have obeyed := serving.obeyed.running
      simpa [obeyed] using stopped
    exact sound.moves here (by decide) ⟨⟨_, srv, serving.goes _⟩, ended⟩ lawful late rfl rfl rfl (.inl rfl)
  | applicationThrows here there failed =>
    simp only [Fits, here] at fits
    obtain ⟨⟨mgr, srv, serving⟩, fresh⟩ := fits
    obtain rfl := Option.some.inj (serving.manager.symm.trans there)
    have obeyed := serving.obeyed.ticked p none { mgr with context := _ } rfl rfl rfl
    exact sound.throws here rfl (.inr ⟨_, srv, ⟨rfl, serving.service, serving.owned⟩,
      .inr ⟨serving.thread, obeyed.running, obeyed.enabled, obeyed.application⟩⟩)
      lawful (lateTicks_ticked _ fresh) rfl rfl rfl
  | contextChanged here there found refreshed =>
    simp only [Fits, here] at fits
    obtain ⟨⟨mgr, srv, serving⟩, fresh⟩ := fits
    obtain rfl := Option.some.inj (there.symm.trans serving.manager)
    obtain ⟨running, config, application⟩ := refreshContext_kept refreshed
    have obeyed := serving.obeyed.ticked p (some _) _ running (congrArg _ config) application
    exact sound.moves here (by decide) ⟨_, srv, ⟨rfl, serving.service, serving.owned⟩,
      ⟨obeyed.running, obeyed.enabled, obeyed.application⟩, serving.running, serving.thread⟩
      lawful (lateTicks_ticked _ fresh) rfl rfl rfl (.inl rfl)
  | contextSame here there found refreshed =>
    simp only [Fits, here] at fits
    obtain ⟨⟨mgr, srv, serving⟩, fresh⟩ := fits
    obtain rfl := Option.some.inj (there.symm.trans serving.manager)
    obtain ⟨running, config, application⟩ := refreshContext_kept refreshed
    have obeyed := serving.obeyed.ticked p (some _) _ running (congrArg _ config) application
    exact sound.moves here (by decide) ⟨_, srv, ⟨rfl, serving.service, serving.owned⟩,
      ⟨obeyed.running, obeyed.enabled, obeyed.application⟩, serving.running, serving.thread⟩
      lawful (lateTicks_ticked _ fresh) rfl rfl rfl (.inl rfl)
  | configRefreshed here there stack stat stat' file =>
    simp only [Fits, here] at fits
    obtain ⟨mgr, srv, serving⟩ := fits
    obtain rfl := Option.some.inj (serving.manager.symm.trans there)
    have enabled := refresh_enabled stack stat stat' file mgr.config
    exact sound.moves here (by decide) ⟨_, srv, ⟨rfl, serving.service, serving.owned⟩,
      ⟨serving.obeyed.running, enabled.trans serving.obeyed.enabled, serving.obeyed.application⟩,
        serving.running,
      serving.thread⟩ lawful late rfl rfl rfl (.inl rfl)
  | slept here there =>
    simp only [Fits, here] at fits
    obtain ⟨mgr, srv, serving⟩ := fits
    exact sound.moves here (by decide) ⟨mgr, srv, serving.goes _⟩ lawful late rfl rfl rfl (.inl rfl)
  | stopped here there stopped =>
    simp only [Fits, here] at fits
    obtain ⟨⟨mgr, srv, serving⟩, -⟩ := fits
    obtain rfl := Option.some.inj (there.symm.trans serving.service)
    simp [serving.running] at stopped
  | stops here there running =>
    simp only [Fits, here] at fits
    obtain ⟨⟨mgr, srv, serving⟩, ended⟩ := fits
    obtain rfl := Option.some.inj (there.symm.trans serving.service)
    have calm := sound.calm here (by decide)
    refine ⟨⟨mgr, _, ⟨⟨serving.manager, rfl, serving.owned⟩, ?_, rfl, ended, rfl⟩, .inl serving.thread⟩,
      lawful, late,
      fun thrown => ?_, fun _ => ⟨rfl, calm⟩⟩
    · exact ⟨serving.obeyed.running, serving.obeyed.enabled, serving.obeyed.application⟩
    · exact absurd (calm.symm.trans thrown) Bool.false_ne_true
  | joined here finished =>
    simp only [Fits, here] at fits
    obtain ⟨mgr, srv, stopping, -⟩ := fits
    exact sound.moves here (by decide) ⟨mgr, srv, stopping.goes _, finished⟩ lawful late rfl rfl
      rfl (.inr rfl)
  | deletionStops here there running =>
    simp only [Fits, here] at fits
    obtain ⟨mgr, srv, stopping, -⟩ := fits
    obtain rfl := Option.some.inj (there.symm.trans stopping.service)
    exact absurd (stopping.idle.symm.trans running) Bool.false_ne_true
  | closeTerminates here there stopped =>
    simp only [Fits, here] at fits
    obtain ⟨mgr, srv, stopping, finished⟩ := fits
    refine sound.moves here (by decide) ?_ lawful late rfl rfl rfl (.inr rfl)
    simp [Fits, Alive, finished]
  | unregisterTerminates here there stopped exit failed =>
    simp only [Fits, here] at fits
    obtain ⟨mgr, srv, stopping, finished⟩ := fits
    obtain rfl := Option.some.inj (there.symm.trans stopping.service)
    refine sound.moves here (by decide) ?_ (exit_owned stopping.owned exit).1 late rfl rfl rfl (.inr rfl)
    simp [Fits, Alive]
  | serviceDeleted here there stopped exit =>
    simp only [Fits, here] at fits
    obtain ⟨mgr, srv, stopping, finished⟩ := fits
    obtain rfl := Option.some.inj (there.symm.trans stopping.service)
    obtain ⟨balanced, empty⟩ := exit_owned stopping.owned exit
    exact sound.moves here (by decide) ⟨⟨rfl, rfl, empty, stopping.exited⟩, by simp [stopping.manager]⟩
      balanced late
      rfl rfl rfl (.inr rfl)
  | managerDeleted here there =>
    simp only [Fits, here] at fits
    obtain ⟨⟨service, thread, held, ended⟩, -⟩ := fits
    exact sound.moves here (by decide) ⟨⟨service, thread, held, ended⟩, rfl⟩ lawful late rfl rfl
      rfl (.inr rfl)
  | processExited here =>
    simp only [Fits, here] at fits
    have calm := sound.calm here (by decide)
    refine sound.moves here (by decide) ?_ lawful late rfl rfl rfl (.inr rfl)
    unfold Fits
    dsimp only
    rw [if_neg (by rw [calm]; exact Bool.false_ne_true)]
    exact ⟨fits.1.goes _, fits.2⟩
  | fileExited here =>
    refine ⟨?_, lawful, late, fun _ => .inr rfl, fun asked => ⟨rfl, (sound.uncancelled asked).2⟩⟩
    simp only [Fits, here] at fits
    unfold Fits
    dsimp only
    split at fits
    · rename_i thrown
      rw [if_pos thrown]
      exact fits.goes _
    · rename_i calm
      rw [if_neg calm]
      exact ⟨fits.1.goes _, fits.2⟩
  | processed thread manager service returns fresh told =>
    obtain ⟨mgr, srv, objects⟩ := sound.objects (.inl thread)
    obtain rfl := Option.some.inj (manager.symm.trans objects.manager)
    obtain rfl := Option.some.inj (service.symm.trans objects.service)
    refine sound.called (.inl thread) manager service (objects.processed returns fresh) ?_ rfl rfl rfl
    dsimp only
    split
    · rename_i cancelled
      exact .inr ⟨rfl, told (IpcServer.process_cancelled returns cancelled)⟩
    · exact .inl (.inl rfl)
  | hung thread manager service endless =>
    obtain ⟨mgr, srv, objects⟩ := sound.objects (.inl thread)
    obtain rfl := Option.some.inj (manager.symm.trans objects.manager)
    obtain rfl := Option.some.inj (service.symm.trans objects.service)
    have call : Call p { p with thread := some .stuck } _ _ _ _ :=
      ⟨manager, service, rfl, objects.owned, rfl, id, fun obeyed =>
        ⟨obeyed.running, obeyed.enabled, obeyed.application⟩⟩
    exact sound.called (.inl thread) manager service call (.inl (.inr rfl)) rfl rfl rfl

theorem manager (sound : Sound p) (uses : p.statement.usesManager = true) : p.heloMgr.isSome := by
  have fits := sound.fits
  cases here : p.statement with
  | managerRunning =>
    simp only [Fits, here] at fits
    obtain ⟨mgr, srv, built⟩ := fits
    exact Option.isSome_of_eq_some built.manager
  | enable =>
    simp only [Fits, here] at fits
    obtain ⟨mgr, srv, built, -⟩ := fits
    exact Option.isSome_of_eq_some built.manager
  | loop | refreshConfig | waitForNextTick =>
    simp only [Fits, here] at fits
    obtain ⟨mgr, srv, serving⟩ := fits
    exact Option.isSome_of_eq_some serving.manager
  | refreshContext =>
    simp only [Fits, here] at fits
    obtain ⟨⟨mgr, srv, serving⟩, -⟩ := fits
    exact Option.isSome_of_eq_some serving.manager
  | deleteManager =>
    simp only [Fits, here] at fits
    exact fits.2
  | _ => simp [Statement.usesManager, here] at uses

theorem service (sound : Sound p) (uses : p.statement.usesService = true) : p.ipcSrv.isSome := by
  have fits := sound.fits
  cases here : p.statement with
  | startService =>
    simp only [Fits, here] at fits
    obtain ⟨mgr, srv, built, -⟩ := fits
    exact Option.isSome_of_eq_some built.service
  | stopService =>
    simp only [Fits, here] at fits
    obtain ⟨⟨mgr, srv, serving⟩, -⟩ := fits
    exact Option.isSome_of_eq_some serving.service
  | waitForExit | deleteService =>
    simp only [Fits, here] at fits
    obtain ⟨mgr, srv, stopping, -⟩ := fits
    exact Option.isSome_of_eq_some stopping.service
  | _ => simp [Statement.usesService, here] at uses

end Sound

theorem invariant : (system targetVersion).Invariant Sound where
  start _ first := first ▸ .start
  step _ _ sound taken := sound.step taken

end Process

end SysHelo
