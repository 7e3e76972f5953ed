import SysHelo.IpcServerProofs
import SysHelo.Lib.Handles
import SysHelo.Lib.System

/-! Who owns which handle, over whole runs of the IPC server. -/
namespace SysHelo
open Loop Handles

/-- What a call on handles does with each of them. -/
def IpcEvent.ops : IpcEvent α → List (Op Handle)
  | .register port => [.acquire port]
  | .wait handles => handles.map .use
  | .accept port none => [.use port]
  | .accept port (some session) => [.use port, .acquire session]
  | .receive session => [.use session]
  | .reply session _ => [.use session]
  | .close handle => [.release handle]
  | .unregister _ => []

/-- A server, the port it was given, and everything it has done with handles. -/
structure ServerRun where
  server : IpcServer
  port : Handle
  trace : List (Op Handle)

namespace ServerRun

/-- The server is initialised, whatever its fields held before. -/
inductive Start : ServerRun → Prop where
  | init {before server : IpcServer} {port : Handle} {events : List (IpcEvent Unit)}
      (initialised : ipcServerInit before srvName maxSessions registerResult port = (server, 0, events)) :
      Start ⟨server, port, events.flatMap IpcEvent.ops⟩

/-- One call of `ipcServerProcess`, with any handler, user data and answers of the kernel. A session
that the kernel gives out is not one that is open. -/
inductive Step : ServerRun → ServerRun → Prop where
  | process {run : ServerRun} {server : IpcServer} {σ α : Type} {handler : IpcServerRequestHandler σ α}
      {userdata userdata' : σ} {events : List (IpcEvent α)}
      (returns : Returns (ipcServerProcess handler k run.server userdata) (server, userdata', rc, events))
      (fresh : ∀ port session, .accept port (some session) ∈ events → session ∉ held [] run.trace) :
      Step run ⟨server, run.port, run.trace ++ events.flatMap IpcEvent.ops⟩

def system : System ServerRun := ⟨Start, Step⟩

/-- The table and the open handles agree, and no handle has been used that was not open. -/
structure Owned (run : ServerRun) : Prop where
  sound : run.server.Sound
  port : run.server.table[0]? = some run.port
  table : held [] run.trace = run.server.table
  lawful : Lawful [] run.trace

theorem flatMap_served {handler : IpcServerRequestHandler σ α} {k : KernelAnswers} {h : Handle}
    {userdata userdata' : σ} {events : List (IpcEvent α)} {closed : Bool}
    (served : IpcServer.Served handler k h userdata userdata' events closed) {table : List Handle}
    (inside : h ∈ table) :
    Lawful table (events.flatMap IpcEvent.ops) ∧
      held table (events.flatMap IpcEvent.ops) = if closed then table.erase h else table := by
  cases served <;> simp [IpcEvent.ops, Lawful, Allowed, after, held, inside]

theorem waited_iff {table : List Handle} (events : List (IpcEvent α)) :
    let ops := (IpcEvent.wait table :: events).flatMap IpcEvent.ops
    (Lawful table ops ↔ Lawful table (events.flatMap IpcEvent.ops)) ∧
      held table ops = held table (events.flatMap IpcEvent.ops) := by
  obtain ⟨lawful, same⟩ := lawful_use fun h (member : h ∈ table) => member
  simp only [List.flatMap_cons, IpcEvent.ops, lawful_append, held_append, lawful, same, true_and,
    and_self]

/-- One call is lawful, and changes the open handles as it does the table. -/
theorem turn_owned {handler : IpcServerRequestHandler σ α} {k : KernelAnswers}
    {table table' : List Handle} {userdata userdata' : σ} {events : List (IpcEvent α)}
    (turn : IpcServer.Turn handler k most table userdata table' userdata' events) (nodup : table.Nodup)
    (fresh : ∀ port session, .accept port (some session) ∈ events → session ∉ table) :
    Lawful table (events.flatMap IpcEvent.ops) ∧ held table (events.flatMap IpcEvent.ops) = table' := by
  cases turn with
  | idle failed =>
    rw [(waited_iff _).1, (waited_iff _).2]
    exact ⟨trivial, rfl⟩
  | unaccepted waited index port failed =>
    rw [(waited_iff _).1, (waited_iff _).2]
    exact ⟨⟨List.mem_of_getElem? port, trivial⟩, rfl⟩
  | @accepted h waited index port taken room =>
    rw [(waited_iff _).1, (waited_iff _).2]
    exact ⟨⟨List.mem_of_getElem? port, fresh h _ (by simp), trivial⟩, rfl⟩
  | @refused h waited index port taken full =>
    have new : k.session ∉ table := fresh h _ (by simp)
    rw [(waited_iff _).1, (waited_iff _).2]
    refine ⟨⟨List.mem_of_getElem? port, new, by simp [Allowed, after], trivial⟩, ?_⟩
    simp [IpcEvent.ops, held, after, List.erase_append_right _ new]
  | @served userdata' h events closed i waited index positive session served =>
    obtain ⟨lawful, opened⟩ := flatMap_served served (List.mem_of_getElem? session)
    rw [(waited_iff _).1, (waited_iff _).2]
    obtain ⟨inside, rfl⟩ := List.getElem?_eq_some_iff.mp session
    rw [nodup.erase_getElem] at opened
    exact ⟨lawful, opened⟩

theorem turn_port {handler : IpcServerRequestHandler σ α} {k : KernelAnswers}
    {table table' : List Handle} {userdata userdata' : σ} {events : List (IpcEvent α)} {port : Handle}
    (turn : IpcServer.Turn handler k most table userdata table' userdata' events)
    (first : table[0]? = some port) : table'[0]? = some port := by
  cases turn with
  | idle | unaccepted | refused => exact first
  | accepted => rw [List.getElem?_append_left (List.getElem?_eq_some_iff.mp first).1, first]
  | served waited index positive session served =>
    split
    · rw [List.getElem?_eraseIdx_of_lt positive, first]
    · exact first

namespace Owned

theorem nodup {run : ServerRun} (owned : Owned run) : run.server.table.Nodup := by
  have := owned.lawful.nodup List.nodup_nil
  rwa [owned.table] at this

theorem start {run : ServerRun} (start : Start run) : Owned run := by
  obtain ⟨initialised⟩ := start
  obtain ⟨sound, table, rfl⟩ := IpcServer.init_table initialised
  refine ⟨sound, by rw [table]; rfl, by rw [table]; rfl, ?_⟩
  exact ⟨by simp [Allowed], trivial⟩

theorem step {run run' : ServerRun} (owned : Owned run) (step : Step run run') : Owned run' := by
  obtain ⟨returns, fresh⟩ := step
  obtain ⟨turn, sound, -, -⟩ := IpcServer.process_turn owned.sound returns
  obtain ⟨lawful, table⟩ := turn_owned turn owned.nodup fun port session member =>
    owned.table ▸ fresh port session member
  refine ⟨sound, turn_port turn owned.port, ?_, ?_⟩
  · rw [held_append, owned.table, table]
  · rw [lawful_append, owned.table]
    exact ⟨owned.lawful, lawful⟩

theorem invariant : system.Invariant Owned := ⟨fun _ => start, fun _ _ => step⟩

theorem exit {run : ServerRun} (owned : Owned run) (unregisterResult : Result) :
    (@ipcServerExit Unit unregisterResult run.server).2.2.flatMap IpcEvent.ops =
      run.server.table.map .release := by
  rw [IpcServer.exit_closes owned.sound, List.flatMap_append, List.flatMap_map, List.map_eq_flatMap]
  simp [IpcEvent.ops]

end Owned

/-- After every call: the bounds of the table; the port is its first handle, and the rest are the
sessions accepted and not closed, in the order of acceptance, none twice; every handle has been closed
as often as opened, but for those in the table; and an exit closes these. -/
theorem run_owned {run : ServerRun} (reached : system.Reachable run) (unregisterResult : Result) :
    1 ≤ run.server.count ∧ run.server.count ≤ run.server.max ∧ run.server.max ≤ MAX_WAIT_OBJECTS ∧
      run.server.handles.getD 0 0 = run.port ∧
      held [] run.trace = run.port :: (run.server.handles.toList.take run.server.count).drop 1 ∧
      (held [] run.trace).Nodup ∧ Lawful [] run.trace ∧
      (∀ h, run.trace.count (.acquire h) =
        run.trace.count (.release h) + run.server.table.count h) ∧
      let exit := (@ipcServerExit Unit unregisterResult run.server).2.2.flatMap IpcEvent.ops
      exit = (held [] run.trace).map .release ∧ Lawful [] (run.trace ++ exit) ∧
        held [] (run.trace ++ exit) = [] := by
  have owned := Owned.invariant.reachable reached
  obtain ⟨registered, counted, room⟩ := owned.sound
  have nodup := owned.lawful.nodup List.nodup_nil
  have port := Option.some.inj (owned.sound.port.symm.trans owned.port)
  refine ⟨registered, counted, room, port, ?_, nodup, owned.lawful, fun h => ?_, ?_⟩
  · rw [owned.table, ← IpcServer.table, List.drop_one]
    exact (List.cons_head?_tail (List.head?_eq_getElem?.trans owned.port)).symm
  · have balance := owned.lawful.balance h
    rw [owned.table] at balance
    simpa using balance
  · obtain ⟨lawful, empty⟩ := lawful_release (held [] run.trace)
    rw [owned.exit, ← owned.table]
    exact ⟨rfl, lawful_append.mpr ⟨owned.lawful, lawful⟩, held_append.trans empty⟩

/-- A handler that does nothing. -/
def idleHandler : IpcServerRequestHandler Unit Unit :=
  ⟨fun _ _ => pure ((), ⟨0, none, 0⟩), fun _ _ => .pure _⟩

def filledServer : IpcServer :=
  ⟨0, (((Vector.replicate _ 0).setIfInBounds 0 7).setIfInBounds 1 8).setIfInBounds 2 9, 3, 3⟩

/-- The port is 7. Sessions 8 and 9 fill the table, 10 is refused, and 8 sends a message without a header. -/
def thinnedRun : ServerRun where
  server := { filledServer with handles := filledServer.handles.setIfInBounds 1 9, count := 2 }
  port := 7
  trace := [.acquire 7, .use 7, .use 7, .acquire 8, .use 7, .use 8, .use 7, .acquire 9,
    .use 7, .use 8, .use 9, .use 7, .acquire 10, .release 10, .use 7, .use 8, .use 9, .use 8, .release 8]

theorem reached_thinned : system.Reachable thinnedRun := by
  refine ⟨_, @Start.init 0 2 0 ⟨0, .replicate _ 0, 0, 0⟩ _ 7 _ rfl, ?_⟩
  have accepts (session : Handle) (server server' : IpcServer) (rc : Result) (events : List (IpcEvent Unit))
      (returns : Returns (ipcServerProcess idleHandler ⟨0, 0, 0, session, 0, ⟨⟨0, 0, []⟩, none⟩, 0⟩ server ())
        (server', (), rc, events)) {trace : List (Op Handle)}
      (fresh : ∀ port session, .accept port (some session) ∈ events → session ∉ held [] trace) :
      Step ⟨server, 7, trace⟩ ⟨server', 7, trace ++ events.flatMap IpcEvent.ops⟩ :=
    @Step.process _ _ ⟨server, 7, trace⟩ _ _ _ _ _ _ _ returns fresh
  refine .head (accepts 8 _ _ _ [.wait [7], .accept 7 (some 8)] (.pure _) (by simp; decide)) ?_
  refine .head (accepts 9 _ _ _ [.wait [7, 8], .accept 7 (some 9)] (.pure _) (by simp; decide)) ?_
  refine .head (accepts 10 _ filledServer _ [.wait [7, 8, 9], .accept 7 (some 10), .close 10] (.pure _)
    (by simp; decide)) ?_
  have closes : Returns (ipcServerProcess idleHandler
      ⟨0, 1, 0, 0, 0, ⟨⟨CmifCommandType_Request, 0, []⟩, none⟩, 0⟩ filledServer ())
      (thinnedRun.server, (), LibnxError_BadInput, [.wait [7, 8, 9], .receive 8, .close 8]) := .pure _
  exact .single (@Step.process _ _ ⟨filledServer, 7, _⟩ _ _ _ _ _ _ _ closes (by simp))

theorem run_owned_thinned : held [] thinnedRun.trace = [7, 9] ∧ (held [] thinnedRun.trace).Nodup ∧
    Lawful [] thinnedRun.trace ∧
    (∀ h, thinnedRun.trace.count (.acquire h) =
      thinnedRun.trace.count (.release h) + thinnedRun.server.table.count h) ∧
    (@ipcServerExit Unit 0 thinnedRun.server).2.2.flatMap IpcEvent.ops = [.release 7, .release 9] ∧
    held [] (thinnedRun.trace ++ [.release 7, .release 9]) = [] := by
  obtain ⟨-, -, -, -, sessions, nodup, lawful, balance, exit, -, empty⟩ := run_owned reached_thinned 0
  have opened : held [] thinnedRun.trace = [7, 9] := sessions.trans (by decide)
  rw [opened] at exit
  rw [exit] at empty
  exact ⟨opened, nodup, lawful, balance, exit, empty⟩

end ServerRun

end SysHelo
