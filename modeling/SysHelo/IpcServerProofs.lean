import SysHelo.IpcServer

/-! The table of handles as a list, and everything that one call of `ipcServerProcess` can do to it. -/
namespace SysHelo
open Loop
variable {σ α : Type}

namespace IpcServer

/-- The handles in use: the port and the sessions. -/
def table (server : IpcServer) : List Handle := server.handles.toList.take server.count

/-- A server that has a port, and room for every session it counts. -/
structure Sound (server : IpcServer) : Prop where
  registered : 1 ≤ server.count
  counted : server.count ≤ server.max
  room : server.max ≤ MAX_WAIT_OBJECTS

end IpcServer

open IpcServer

theorem getD_toList (handles : Vector Handle n) (i : Nat) (d : Handle) :
    handles.getD i d = handles.toList[i]?.getD d := by
  rw [Vector.getD, Array.getD_eq_getD_getElem?, Vector.toList, Array.getElem?_toList]

theorem shiftHandles_getElem? (j n : Nat) (handles : Vector Handle MAX_WAIT_OBJECTS)
    (inside : j + n < MAX_WAIT_OBJECTS) (i : Nat) :
    (shiftHandles j n handles).toList[i]? =
      if j ≤ i ∧ i < j + n then handles.toList[i + 1]? else handles.toList[i]? := by
  induction n generalizing j handles with
  | zero => rw [if_neg (by omega), shiftHandles]
  | succ n ih =>
    rw [shiftHandles, ih (j + 1) _ (by omega), Vector.toList_setIfInBounds, getD_toList]
    have next : j + 1 < handles.toList.length := by rw [Vector.length_toList]; omega
    simp only [List.getElem?_set, Vector.length_toList]
    rcases Nat.lt_trichotomy i j with below | rfl | above
    · simp [show ¬ j = i by omega, show ¬ j + 1 ≤ i by omega, show ¬ j ≤ i by omega]
    · simp [show i < MAX_WAIT_OBJECTS by omega, List.getElem?_eq_getElem next]
    · simp [show ¬ j = i by omega, show ¬ j = i + 1 by omega, show j + 1 ≤ i by omega, show j ≤ i by omega,
        show (i < j + 1 + n) = (i < j + (n + 1)) by rw [Nat.add_right_comm, Nat.add_assoc]]

namespace IpcServer
variable {server : IpcServer}

theorem Sound.length (sound : server.Sound) : server.table.length = server.count := by
  obtain ⟨-, counted, room⟩ := sound
  rw [table, List.length_take, Vector.length_toList]
  omega

theorem Sound.getElem? (sound : server.Sound) {index : Nat} (inside : index < server.count) :
    server.table[index]? = some (server.handles.getD index 0) := by
  obtain ⟨-, counted, room⟩ := sound
  have bound : index < server.handles.toList.length := by
    rw [Vector.length_toList]
    omega
  rw [table, List.getElem?_take_of_lt inside, getD_toList, List.getElem?_eq_getElem bound,
    Option.getD_some]

theorem init_table {server' : IpcServer} {name : SmServiceName} {port : Handle}
    {events : List (IpcEvent α)} (initialised :
      ipcServerInit server name maxSessions registerResult port = (server', 0, events)) :
    server'.Sound ∧ server'.table = [port] ∧ events = [.register port] := by
  unfold ipcServerInit at initialised
  by_cases refused : maxSessions < 1 ∨ maxSessions > MAX_WAIT_OBJECTS - 1
  · rw [if_pos refused] at initialised
    exact absurd (Prod.mk.inj (Prod.mk.inj initialised).2).1 (by decide)
  · rw [if_neg refused] at initialised
    by_cases registered : registerResult = 0
    · simp only [registered, if_true] at initialised
      obtain ⟨rfl, -, rfl⟩ := initialised
      have bound : 0 < server.handles.toList.length := by
        rw [Vector.length_toList]
        decide
      refine ⟨⟨by simp, by simp, by dsimp only; omega⟩, ?_, rfl⟩
      simp only [table, Vector.toList_setIfInBounds]
      rw [List.take_one, List.head?_eq_getElem?, List.getElem?_set_self bound, Option.toList_some]
    · simp only [registered, if_false] at initialised
      exact absurd (Prod.mk.inj (Prod.mk.inj initialised).2).1 registered

theorem exit_closes (sound : server.Sound) (unregisterResult : Result) :
    (ipcServerExit unregisterResult server).2.2 =
      server.table.map .close ++ [(.unregister server.srvName : IpcEvent α)] := by
  have handles : (List.range server.count).map (fun i => server.handles.getD i 0) = server.table := by
    apply List.ext_getElem?
    intro i
    rw [List.getElem?_map]
    by_cases inside : i < server.count
    · rw [List.getElem?_range inside, sound.getElem? inside]
      rfl
    · rw [List.getElem?_eq_none (by simpa using inside), List.getElem?_eq_none]
      · rfl
      · rw [sound.length]
        omega
  rw [ipcServerExit, ← handles, List.map_map]
  rfl

theorem addSession_full (full : server.max ≤ server.count) (session : Handle) :
    ipcServerAddSession session server = (server, LibnxError_OutOfMemory) := if_pos full

theorem addSession_room (sound : server.Sound) (room : server.count < server.max) (session : Handle) :
    ∃ server', ipcServerAddSession session server = (server', 0) ∧ server'.Sound ∧
      server'.max = server.max ∧ server'.srvName = server.srvName ∧
      server'.table = server.table ++ [session] := by
  obtain ⟨-, -, most⟩ := sound
  refine ⟨_, if_neg (by omega), ⟨by simp, room, most⟩, rfl, rfl, ?_⟩
  have bound : server.count < server.handles.toList.length := by
    rw [Vector.length_toList]
    omega
  simp only [table, Vector.toList_setIfInBounds]
  rw [List.take_add_one, List.take_set_of_le (Nat.le_refl _), List.getElem?_set_self bound,
    Option.toList_some]

theorem deleteSession_table (sound : server.Sound) {index : Nat} (session : 0 < index)
    (inside : index < server.count) :
    ∃ server', ipcServerDeleteSession (α := α) index server =
        (server', 0, [.close (server.handles.getD index 0)]) ∧ server'.Sound ∧
      server'.max = server.max ∧ server'.srvName = server.srvName ∧
      server'.table = server.table.eraseIdx index := by
  obtain ⟨-, counted, room⟩ := sound
  refine ⟨_, if_neg (by omega), ⟨by dsimp only; omega, by dsimp only; omega, room⟩, rfl, rfl, ?_⟩
  apply List.ext_getElem?
  intro i
  simp only [table, List.getElem?_take, List.getElem?_eraseIdx,
    shiftHandles_getElem? index _ _ (show index + (server.count - 1 - index) < _ by omega)]
  rcases Nat.lt_trichotomy i (server.count - 1) with below | rfl | above
  · by_cases left : i < index
    · simp [below, left, show i < server.count by omega, show ¬ index ≤ i by omega]
    · simp [below, left, show i + 1 < server.count by omega, show index ≤ i by omega,
        show i < index + (server.count - 1 - index) by omega]
  · simp [show ¬ server.count - 1 < index by omega, show ¬ server.count - 1 + 1 < server.count by omega]
  · simp [show ¬ i < server.count - 1 by omega, show ¬ i + 1 < server.count by omega,
      show ¬ i < server.count by omega]

/-- What is done for a session that is ready, and whether it ends up closed. -/
inductive Served (handler : IpcServerRequestHandler σ α) (k : KernelAnswers) (session : Handle)
    (userdata : σ) : σ → List (IpcEvent α) → Bool → Prop where
  | unreceived (failed : k.received = .error rc) :
      Served handler k session userdata userdata [.receive session, .close session] true
  | kept (request : k.received = .ok r)
      (responded : Returns (ipcServerRespond handler r userdata) (userdata', content, false))
      (replied : k.replied = 0) :
      Served handler k session userdata userdata' [.receive session, .reply session content] false
  | ended (request : k.received = .ok r)
      (responded : Returns (ipcServerRespond handler r userdata) (userdata', content, close))
      (ended : k.replied ≠ 0 ∨ close) :
      Served handler k session userdata userdata'
        [.receive session, .reply session content, .close session] true

/-- What one call does to the table, the user data and the handles; `most` is how many handles
the table may hold. -/
inductive Turn (handler : IpcServerRequestHandler σ α) (k : KernelAnswers) (most : Nat)
    (table : List Handle) (userdata : σ) : List Handle → σ → List (IpcEvent α) → Prop where
  | idle (failed : k.waitResult ≠ 0 ∨ k.handleIndex < 0 ∨ k.handleIndex ≥ table.length) :
      Turn handler k most table userdata table userdata [.wait table]
  | unaccepted (waited : k.waitResult = 0) (index : k.handleIndex = 0) (port : table[0]? = some h)
      (failed : k.acceptResult ≠ 0) :
      Turn handler k most table userdata table userdata [.wait table, .accept h none]
  | accepted (waited : k.waitResult = 0) (index : k.handleIndex = 0) (port : table[0]? = some h)
      (taken : k.acceptResult = 0) (room : table.length < most) :
      Turn handler k most table userdata (table ++ [k.session]) userdata
        [.wait table, .accept h (some k.session)]
  | refused (waited : k.waitResult = 0) (index : k.handleIndex = 0) (port : table[0]? = some h)
      (taken : k.acceptResult = 0) (full : most ≤ table.length) :
      Turn handler k most table userdata table userdata
        [.wait table, .accept h (some k.session), .close k.session]
  | served {i : Nat} (waited : k.waitResult = 0) (index : k.handleIndex = i) (positive : 0 < i)
      (session : table[i]? = some h) (served : Served handler k h userdata userdata' events closed) :
      Turn handler k most table userdata (if closed then table.eraseIdx i else table) userdata'
        (.wait table :: events)

theorem respond_stable (handler : IpcServerRequestHandler σ α) (r : IpcServerRequest) (userdata : σ) :
    Stable (ipcServerRespond handler r userdata) := by
  unfold ipcServerRespond
  split
  · exact (handler.stable r userdata).bind fun _ => .pure _
  · split <;> exact .pure _

theorem processSession_stable (handler : IpcServerRequestHandler σ α) (k : KernelAnswers) (index : Nat)
    (server : IpcServer) (userdata : σ) :
    Stable (ipcServerProcessSession handler k index server userdata) := by
  unfold ipcServerProcessSession
  dsimp only
  cases k.received with
  | error rc => exact .pure _
  | ok r => exact (respond_stable handler r userdata).bind fun _ => .pure _

theorem processSession_served {handler : IpcServerRequestHandler σ α} {k : KernelAnswers}
    {userdata userdata' : σ} {server' : IpcServer} {rc : Result} {events : List (IpcEvent α)}
    (sound : server.Sound) {index : Nat} (session : 0 < index) (inside : index < server.count)
    (returns : Returns (ipcServerProcessSession handler k index server userdata)
      (server', userdata', rc, events)) :
    ∃ closed, Served handler k (server.handles.getD index 0) userdata userdata' events closed ∧
      server'.Sound ∧ server'.max = server.max ∧ server'.srvName = server.srvName ∧
      server'.table = if closed then server.table.eraseIdx index else server.table := by
  obtain ⟨deleted, delete, sound', max, srvName, table⟩ :=
    @deleteSession_table α server sound index session inside
  unfold ipcServerProcessSession at returns
  cases request : k.received with
  | error rc =>
    simp only [request, delete] at returns
    obtain ⟨rfl, rfl, rfl, rfl⟩ := (Returns.pure _).unique returns
    exact ⟨true, .unreceived request, sound', max, srvName, by rw [table, if_pos rfl]⟩
  | ok r =>
    simp only [request] at returns
    obtain ⟨⟨after, content, close⟩, responded, rest⟩ :=
      (respond_stable handler r userdata).bind_inv returns
    dsimp only at rest
    by_cases ended : k.replied ≠ 0 ∨ close
    · simp only [ended, if_true, delete] at rest
      obtain ⟨rfl, rfl, rfl, rfl⟩ := (Returns.pure _).unique rest
      exact ⟨true, .ended request responded ended, sound', max, srvName, by rw [table, if_pos rfl]⟩
    · simp only [ended, if_false] at rest
      obtain ⟨rfl, rfl, rfl, rfl⟩ := (Returns.pure _).unique rest
      simp only [not_or, ne_eq, Decidable.not_not, Bool.not_eq_true] at ended
      obtain ⟨replied, rfl⟩ := ended
      exact ⟨false, .kept request responded replied, sound, rfl, rfl, rfl⟩

theorem served_processSession {handler : IpcServerRequestHandler σ α} {k : KernelAnswers}
    {userdata userdata' : σ} {events : List (IpcEvent α)} (sound : server.Sound) {index : Nat}
    (session : 0 < index) (inside : index < server.count)
    (served : Served handler k (server.handles.getD index 0) userdata userdata' events closed) :
    ∃ server' rc, Returns (ipcServerProcessSession handler k index server userdata)
        (server', userdata', rc, events) ∧
      server'.table = if closed then server.table.eraseIdx index else server.table := by
  obtain ⟨deleted, delete, -, -, -, table⟩ := @deleteSession_table α server sound index session inside
  unfold ipcServerProcessSession
  cases served with
  | unreceived failed =>
    simp only [failed, delete]
    exact ⟨_, _, .pure _, by simp [table]⟩
  | kept request responded replied =>
    simp only [request]
    refine ⟨server, k.replied, .bind responded ?_, rfl⟩
    simp only [replied, ne_eq, not_true_eq_false, Bool.false_eq_true, or_self, if_false]
    exact .pure _
  | ended request responded ended =>
    simp only [request]
    refine ⟨deleted, k.replied, .bind responded ?_, by simp [table]⟩
    simp only [ended, if_true, delete]
    exact .pure _

theorem Sound.port (sound : server.Sound) : server.table[0]? = some (server.handles.getD 0 0) :=
  sound.getElem? sound.registered

theorem Sound.first_valid (sound : server.Sound) :
    ¬ ((0 : Int) < 0 ∨ (0 : Int) ≥ server.count) := by
  have := sound.registered
  omega

/-- Every call takes a turn. -/
theorem process_turn {handler : IpcServerRequestHandler σ α} {k : KernelAnswers} {userdata userdata' : σ}
    {server' : IpcServer} {rc : Result} {events : List (IpcEvent α)} (sound : server.Sound)
    (returns : Returns (ipcServerProcess handler k server userdata) (server', userdata', rc, events)) :
    Turn handler k server.max server.table userdata server'.table userdata' events ∧
      server'.Sound ∧ server'.max = server.max ∧ server'.srvName = server.srvName := by
  have length := sound.length
  unfold ipcServerProcess at returns
  rw [← IpcServer.table] at returns
  by_cases ready : k.waitResult = 0 ∧ ¬ (k.handleIndex < 0 ∨ k.handleIndex ≥ server.count)
  · obtain ⟨waited, valid⟩ := ready
    simp only [waited, valid, and_false, if_false, if_true] at returns
    by_cases first : k.handleIndex = 0
    · simp only [first, ne_eq, not_true_eq_false, if_false] at returns
      unfold ipcServerProcessNewSession at returns
      by_cases taken : k.acceptResult = 0
      · simp only [taken, if_true] at returns
        by_cases room : server.count < server.max
        · obtain ⟨added, add, sound', max, srvName, table⟩ := addSession_room sound room k.session
          simp only [add, if_true] at returns
          obtain ⟨rfl, rfl, rfl, rfl⟩ := (Returns.pure _).unique returns
          rw [table]
          exact ⟨.accepted waited first sound.port taken (length ▸ room), sound', max, srvName⟩
        · simp only [addSession_full (Nat.le_of_not_lt room)] at returns
          obtain ⟨rfl, rfl, rfl, rfl⟩ := (Returns.pure _).unique returns
          exact ⟨.refused waited first sound.port taken (length ▸ Nat.le_of_not_lt room), sound, rfl, rfl⟩
      · simp only [taken, if_false] at returns
        obtain ⟨rfl, rfl, rfl, rfl⟩ := (Returns.pure _).unique returns
        exact ⟨.unaccepted waited first sound.port taken, sound, rfl, rfl⟩
    · obtain ⟨index, same⟩ : ∃ index : Nat, k.handleIndex = index := ⟨k.handleIndex.toNat, by omega⟩
      have inside : index < server.count := by omega
      simp only [same, Int.toNat_natCast, ne_eq, show ¬ (index : Int) = 0 by omega, not_false_eq_true,
        if_true] at returns
      obtain ⟨⟨server'', userdata'', rc', events'⟩, processed, rest⟩ :=
        (processSession_stable handler k index server userdata).bind_inv returns
      obtain ⟨rfl, rfl, rfl, rfl⟩ := (Returns.pure _).unique rest
      have positive : 0 < index := by omega
      obtain ⟨closed, served, sound', max, srvName, table⟩ :=
        processSession_served sound positive inside processed
      rw [table]
      exact ⟨.served waited same positive (sound.getElem? inside) served, sound', max, srvName⟩
  · have failed : k.waitResult ≠ 0 ∨ k.handleIndex < 0 ∨ k.handleIndex ≥ server.table.length := by
      rw [length]
      by_cases waited : k.waitResult = 0
      · exact .inr (Decidable.not_not.mp fun valid => ready ⟨waited, valid⟩)
      · exact .inl waited
    have error : (if k.waitResult = 0 ∧ (k.handleIndex < 0 ∨ k.handleIndex ≥ server.count)
        then LibnxError_NotFound else k.waitResult) ≠ 0 := by
      split
      · decide
      · rename_i other
        intro zero
        exact ready ⟨zero, fun bad => other ⟨zero, bad⟩⟩
    simp only [error, if_false] at returns
    obtain ⟨rfl, rfl, rfl, rfl⟩ := (Returns.pure _).unique returns
    exact ⟨.idle failed, sound, rfl, rfl⟩

/-- Every turn is taken by a call. -/
theorem turn_process {handler : IpcServerRequestHandler σ α} {k : KernelAnswers} {userdata userdata' : σ}
    {table' : List Handle} {events : List (IpcEvent α)} (sound : server.Sound)
    (turn : Turn handler k server.max server.table userdata table' userdata' events) :
    ∃ server' rc, Returns (ipcServerProcess handler k server userdata) (server', userdata', rc, events) ∧
      server'.table = table' := by
  have length := sound.length
  unfold ipcServerProcess
  rw [← IpcServer.table]
  cases turn with
  | idle failed =>
    rw [length] at failed
    have error : (if k.waitResult = 0 ∧ (k.handleIndex < 0 ∨ k.handleIndex ≥ server.count)
        then LibnxError_NotFound else k.waitResult) ≠ 0 := by
      split
      · decide
      · rename_i other
        intro zero
        exact other ⟨zero, failed.resolve_left (not_not_intro zero)⟩
    simp only [error, if_false]
    exact ⟨server, _, .pure _, rfl⟩
  | unaccepted waited index port failed =>
    have valid := sound.first_valid
    obtain rfl := Option.some.inj (port.symm.trans sound.port)
    simp only [waited, index, valid, and_false, if_false, if_true, ne_eq, not_true_eq_false,
      ipcServerProcessNewSession, failed]
    exact ⟨server, _, .pure _, rfl⟩
  | accepted waited index port taken room =>
    have valid := sound.first_valid
    obtain rfl := Option.some.inj (port.symm.trans sound.port)
    obtain ⟨added, add, -, -, -, table⟩ := addSession_room sound (length ▸ room) k.session
    simp only [waited, index, valid, and_false, if_false, if_true, ne_eq, not_true_eq_false,
      ipcServerProcessNewSession, taken, add]
    exact ⟨added, _, .pure _, table⟩
  | refused waited index port taken full =>
    have valid := sound.first_valid
    obtain rfl := Option.some.inj (port.symm.trans sound.port)
    simp only [waited, index, valid, and_false, if_false, if_true, ne_eq, not_true_eq_false,
      ipcServerProcessNewSession, taken, addSession_full (length ▸ full)]
    exact ⟨server, _, .pure _, rfl⟩
  | @served _ _ _ _ i waited index positive session served =>
    have inside : i < server.count := length ▸ (List.getElem?_eq_some_iff.mp session).1
    obtain rfl := Option.some.inj (session.symm.trans (sound.getElem? inside))
    obtain ⟨server', rc, processed, table⟩ := served_processSession sound positive inside served
    have valid : ¬ ((i : Int) < 0 ∨ (i : Int) ≥ server.count) := by omega
    simp only [waited, index, valid, and_false, if_false, if_true, ne_eq, show ¬ (i : Int) = 0 by omega,
      not_false_eq_true, Int.toNat_natCast]
    exact ⟨server', rc, .bind processed (.pure _), table⟩

end IpcServer

end SysHelo
