import SysHelo.ConfigSave
import SysHelo.IpcServerProofs
import SysHelo.IpcService

/-! One call of the server without one of its sessions, and the requests that leave the configuration as it
is. -/
namespace SysHelo
open CString Stdio Loop MinIni IpcServer

namespace KernelAnswers

/-- The session at an index is the one that is served. -/
def ReadyAt (k : KernelAnswers) (index : Nat) : Prop := k.waitResult = 0 ∧ k.handleIndex = index

instance (k : KernelAnswers) (index : Nat) : Decidable (k.ReadyAt index) :=
  inferInstanceAs (Decidable (_ ∧ _))

/-- Whether the session that is served ends up closed. -/
def closes (k : KernelAnswers) : Bool :=
  match k.received with
  | .error _ => true
  | .ok r => k.replied ≠ 0 || r.hipc.type = CmifCommandType_Close

/-- The same answers when the table lacks the handle at `place`. -/
def without (k : KernelAnswers) (place : Nat) : KernelAnswers :=
  if k.handleIndex > place then { k with handleIndex := k.handleIndex - 1 } else k

/-- Where the handle at `place` is after a call that serves another session. -/
def moved (k : KernelAnswers) (place : Nat) : Nat :=
  if k.waitResult = 0 ∧ 0 < k.handleIndex ∧ k.handleIndex < place ∧ k.closes then place - 1 else place

theorem without_fields (k : KernelAnswers) (place : Nat) :
    (k.without place).waitResult = k.waitResult ∧ (k.without place).acceptResult = k.acceptResult ∧
      (k.without place).session = k.session ∧ (k.without place).received = k.received ∧
      (k.without place).replied = k.replied := by
  unfold without
  split <;> exact ⟨rfl, rfl, rfl, rfl, rfl⟩

theorem without_index (k : KernelAnswers) (place : Nat) : (k.without place).handleIndex =
    if k.handleIndex > place then k.handleIndex - 1 else k.handleIndex := by
  unfold without
  split <;> rfl

end KernelAnswers

/-- Two erasures commute when the index of the later element is adjusted. -/
theorem eraseIdx_comm {i j : Nat} (before : i < j) (l : List α) :
    (l.eraseIdx j).eraseIdx i = (l.eraseIdx i).eraseIdx (j - 1) := by
  apply List.ext_getElem?
  intro n
  simp only [List.getElem?_eraseIdx]
  rcases Nat.lt_trichotomy n i with left | rfl | right
  · simp [left, show n < j by omega, show n < j - 1 by omega]
  · by_cases last : n + 1 = j
    · simp [← last]
    · simp [show n + 1 < j by omega, show n < j - 1 by omega]
  · by_cases near : n < j - 1
    · simp [near, show ¬ n < i by omega, show n + 1 < j by omega]
    · simp [near, show ¬ n < i by omega, show ¬ n + 1 < j by omega, show ¬ n + 1 < i by omega]

namespace IpcServer
variable {σ α : Type} {handler : IpcServerRequestHandler σ α} {k : KernelAnswers}
  {userdata userdata' : σ} {events : List (IpcEvent α)} {table table' : List Handle} {place : Nat}

theorem respond_close {r : IpcServerRequest} {content : Reply α} {close : Bool}
    (responded : Returns (ipcServerRespond handler r userdata) (userdata', content, close)) :
    close = decide (r.hipc.type = CmifCommandType_Close) := by
  unfold ipcServerRespond at responded
  by_cases request : r.hipc.type = CmifCommandType_Request
  · rw [if_pos request] at responded
    obtain ⟨result, -, rest⟩ := (handler.stable r userdata).bind_inv responded
    obtain ⟨-, -, rfl⟩ := (Returns.pure _).unique rest
    rw [request]
    decide
  · rw [if_neg request] at responded
    by_cases closing : r.hipc.type = CmifCommandType_Close
    · rw [if_pos closing] at responded
      obtain ⟨-, -, rfl⟩ := (Returns.pure _).unique responded
      simp [closing]
    · rw [if_neg closing] at responded
      obtain ⟨-, -, rfl⟩ := (Returns.pure _).unique responded
      simp [closing]

theorem served_closes {h : Handle} {closed : Bool}
    (served : Served handler k h userdata userdata' events closed) : closed = k.closes := by
  unfold KernelAnswers.closes
  cases served with
  | unreceived failed => simp [failed]
  | kept request responded replied =>
    have := respond_close responded
    simp only [request, replied, ne_eq, not_true_eq_false, decide_false, Bool.false_or, ← this]
  | ended request responded ended =>
    have := respond_close responded
    simpa [request, ← this] using ended

theorem served_without {h : Handle} {closed : Bool}
    (served : Served handler k h userdata userdata' events closed) (place : Nat) :
    Served handler (k.without place) h userdata userdata' events closed := by
  obtain ⟨-, -, -, received, replied⟩ := k.without_fields place
  cases served with
  | unreceived failed => exact .unreceived (received.trans failed)
  | kept request responded done => exact .kept (received.trans request) responded (replied.trans done)
  | ended request responded ended => exact .ended (received.trans request) responded (replied ▸ ended)

section Serving
variable {h : Handle} {closed : Bool} {i : Nat} (waited : k.waitResult = 0) (index : k.handleIndex = i)
  (first : 0 < i) (session : table[i]? = some h)
    (served : Served handler k h userdata userdata' events closed)
include waited index first session served

/-- The handle that is served stands before the one left out, which then moves with the closing. -/
theorem turn_without_before (below : i < place) (inside : place < table.length) (most : Nat) :
    Turn handler (k.without place) most (table.eraseIdx place) userdata
        ((if closed then table.eraseIdx i else table).eraseIdx (k.moved place)) userdata'
        (.wait (table.eraseIdx place) :: events) ∧
      0 < k.moved place ∧ k.moved place < (if closed then table.eraseIdx i else table).length := by
  obtain ⟨waitResult, -⟩ := k.without_fields place
  obtain ⟨bound, -⟩ := List.getElem?_eq_some_iff.mp session
  have handle : (table.eraseIdx place)[i]? = some h := by
    rw [List.getElem?_eraseIdx_of_lt below, session]
  have moves : k.moved place = if closed then place - 1 else place := by
    simp only [KernelAnswers.moved, waited, index, ← served_closes served, true_and, Int.natCast_pos, first,
      Int.ofNat_lt, below]
  have same : (if closed then table.eraseIdx i else table).eraseIdx (k.moved place) =
      if closed then (table.eraseIdx place).eraseIdx i else table.eraseIdx place := by
    rw [moves]
    cases closed
    · rfl
    · exact (eraseIdx_comm below table).symm
  rw [same]
  refine ⟨.served (waitResult.trans waited) ?_ first handle (served_without served place), ?_, ?_⟩
  · rw [k.without_index place, if_neg (by omega), index]
  · rw [moves]
    split <;> omega
  · rw [moves]
    cases closed
    · exact inside
    · rw [if_pos rfl, if_pos rfl, List.length_eraseIdx_of_lt bound]
      omega

/-- The handle that is served stands behind the one left out, which stays where it is. -/
theorem turn_without_behind (above : place < i) (positive : 0 < place) (inside : place < table.length)
    (most : Nat) :
    Turn handler (k.without place) most (table.eraseIdx place) userdata
        ((if closed then table.eraseIdx i else table).eraseIdx (k.moved place)) userdata'
        (.wait (table.eraseIdx place) :: events) ∧
      0 < k.moved place ∧ k.moved place < (if closed then table.eraseIdx i else table).length := by
  obtain ⟨waitResult, -⟩ := k.without_fields place
  obtain ⟨bound, -⟩ := List.getElem?_eq_some_iff.mp session
  have handle : (table.eraseIdx place)[i - 1]? = some h := by
    rw [List.getElem?_eraseIdx_of_ge (by omega), Nat.sub_add_cancel first, session]
  have stays : k.moved place = place := if_neg fun ⟨_, _, below, _⟩ => by omega
  have same : (if closed then table.eraseIdx i else table).eraseIdx place =
      if closed then (table.eraseIdx place).eraseIdx (i - 1) else table.eraseIdx place := by
    cases closed
    · rfl
    · exact eraseIdx_comm above table
  rw [stays, same]
  refine ⟨.served (waitResult.trans waited) ?_ (by omega) handle (served_without served place), positive, ?_⟩
  · rw [k.without_index place, if_pos (by omega), index]
    omega
  · cases closed
    · exact inside
    · rw [if_pos rfl, List.length_eraseIdx_of_lt bound]
      omega

end Serving

theorem turn_without (positive : 0 < place) (inside : place < table.length) (room : table.length < most)
    (other : ¬ k.ReadyAt place)
    (turn : Turn handler k most table userdata table' userdata' (.wait table :: events)) :
    Turn handler (k.without place) most (table.eraseIdx place) userdata (table'.eraseIdx (k.moved place))
        userdata' (.wait (table.eraseIdx place) :: events) ∧
      0 < k.moved place ∧ k.moved place < table'.length := by
  obtain ⟨waitResult, acceptResult, new, -, -⟩ := k.without_fields place
  have index' := k.without_index place
  have length := List.length_eraseIdx_of_lt inside
  -- the first handle stays the first
  have port {h : Handle} (first : table[0]? = some h) : (table.eraseIdx place)[0]? = some h := by
    rw [List.getElem?_eraseIdx_of_lt positive, first]
  have unmoved (zero : k.handleIndex = 0) : k.moved place = place :=
    if_neg fun ⟨_, later, _⟩ => by omega
  have unchanged (zero : k.handleIndex = 0) : (k.without place).handleIndex = 0 := by
    rw [index', if_neg (by omega), zero]
  cases turn with
  | idle failed =>
    have still : k.moved place = place := if_neg fun ⟨waited, later, below, _⟩ => by
      rcases failed with bad | bad | bad
      · exact bad waited
      · omega
      · omega
    rw [still]
    refine ⟨.idle ?_, positive, inside⟩
    rw [waitResult, index', length]
    apply failed.imp_right
    intro bad
    split <;> omega
  | unaccepted waited index first failed =>
    rw [unmoved index]
    exact ⟨.unaccepted (waitResult.trans waited) (unchanged index) (port first)
      (acceptResult ▸ failed), positive, inside⟩
  | accepted waited index first taken _ =>
    rw [unmoved index, List.eraseIdx_append_of_lt_length inside, ← new]
    refine ⟨.accepted (waitResult.trans waited) (unchanged index) (port first)
      (acceptResult.trans taken) (by omega), positive, ?_⟩
    rw [List.length_append]
    omega
  | refused waited index first taken full => omega
  | @served h _ _ closed i waited index first session served =>
    have apart : i ≠ place := by
      intro same
      exact other ⟨waited, same ▸ index⟩
    rcases Nat.lt_or_gt_of_ne apart with below | above
    · exact turn_without_before waited index first session served below inside most
    · exact turn_without_behind waited index first session served above positive inside most

theorem turn_accept {port session : Handle} (turn : Turn handler k most table userdata table' userdata'
      [.wait table, .accept port (some session)]) :
    table' = table ++ [session] ∧ userdata' = userdata := by
  cases turn with
  | accepted => exact ⟨rfl, rfl⟩
  | served _ _ _ _ served => cases served

theorem turn_own (ready : k.ReadyAt place) (positive : 0 < place) (inside : place < table.length)
    (turn : Turn handler k most table userdata table' userdata' (.wait table :: events)) :
    (table' = if k.closes then table.eraseIdx place else table) ∧
      ∃ h, Served handler k h userdata userdata' events k.closes := by
  obtain ⟨waited, index⟩ := ready
  cases turn with
  | idle failed =>
    rcases failed with bad | bad | bad
    · exact absurd waited bad
    · omega
    · omega
  | unaccepted _ zero | accepted _ zero | refused _ zero => omega
  | served _ index' _ _ served =>
    obtain rfl := Int.ofNat_inj.mp (index.symm.trans index')
    have closes := served_closes served
    subst closes
    exact ⟨rfl, _, served⟩

end IpcServer

namespace IpcService

theorem setConfigValues_stable (stack : Chars INI_BUFFERSIZE) (o : Outcomes)
    (configValues : SysHeloConfigValueList) (files : Files) (mgr : HeloManager) :
    Stable (setConfigValues stack o configValues files mgr) := by
  unfold setConfigValues
  split
  · exact .pure _
  · exact (Config.setConfigValues_stable o).bind fun _ => .pure _

theorem serviceHandlerFunc_stable (targetVersion : List UInt8) (stack : Chars INI_BUFFERSIZE)
    (o : Outcomes) (r : IpcServerRequest) (state : State) :
    Stable (serviceHandlerFunc targetVersion stack o r state) := by
  unfold serviceHandlerFunc
  dsimp only
  repeat' split
  all_goals first
    | exact .pure _
    | exact Stable.bind (setConfigValues_stable _ _ _ _ _) fun _ => .pure _

def serviceHandler (targetVersion : List UInt8) (stack : Chars INI_BUFFERSIZE) (o : Outcomes) :
    IpcServerRequestHandler State OutData :=
  ⟨serviceHandlerFunc targetVersion stack o, serviceHandlerFunc_stable targetVersion stack o⟩

/-- Everything that a request can do to the state. -/
inductive Handled (stack : Chars INI_BUFFERSIZE) (o : Outcomes) (r : IpcServerRequest) (state : State) :
    State → Prop where
  | unchanged (stays : r.data.cmdId ≠ SysHeloIpcCmd_Exit)
      (missing : r.data.cmdId = SysHeloIpcCmd_SetEnabled → r.data.ptr = none ∨ r.data.size < 1) :
      Handled stack o r state state
  | exited (command : r.data.cmdId = SysHeloIpcCmd_Exit) :
      Handled stack o r state { state with mgr := exit state.mgr }
  | enabled (command : r.data.cmdId = SysHeloIpcCmd_SetEnabled) (given : r.data.ptr = some ptr)
      (long : 1 ≤ r.data.size) : Handled stack o r state { state with mgr := setEnabled (ptr 0) state.mgr }
  | saved (command : r.data.cmdId = SysHeloIpcCmd_SetConfigValues)
      (saving : Returns (setConfigValues stack o configValues state.files state.mgr) (files, mgr, rc)) :
      Handled stack o r state ⟨mgr, files⟩

theorem serviceHandlerFunc_handled {targetVersion : List UInt8} {stack : Chars INI_BUFFERSIZE} {o : Outcomes}
    {r : IpcServerRequest} {state state' : State} {response : Response OutData}
    (returns : Returns (serviceHandlerFunc targetVersion stack o r state) (state', response)) :
    Handled stack o r state state' := by
  have same {answer : Response OutData} (returns : Returns (pure (state, answer)) (state', response)) :
      state' = state := (Prod.mk.inj (returns.unique (.pure _))).1
  unfold serviceHandlerFunc at returns
  by_cases exit : r.data.cmdId = SysHeloIpcCmd_Exit
  · simp +decide only [exit, if_true, if_false] at returns
    obtain ⟨rfl, -⟩ := Prod.mk.inj (returns.unique (.pure _))
    exact .exited exit
  by_cases enable : r.data.cmdId = SysHeloIpcCmd_SetEnabled
  · simp +decide only [enable, if_true, if_false] at returns
    split at returns
    · rename_i ptr given
      split at returns
      · rename_i long
        obtain ⟨rfl, -⟩ := Prod.mk.inj (returns.unique (.pure _))
        exact .enabled enable given long
      · rename_i short
        obtain rfl := same returns
        exact .unchanged exit fun _ => .inr (by omega)
    · rename_i missing
      obtain rfl := same returns
      exact .unchanged exit fun _ => .inl missing
  by_cases save : r.data.cmdId = SysHeloIpcCmd_SetConfigValues
  · simp +decide only [save, if_true, if_false] at returns
    split at returns
    · split at returns
      · obtain ⟨⟨files, mgr, rc⟩, saving, rest⟩ := (setConfigValues_stable _ _ _ _ _).bind_inv returns
        obtain ⟨rfl, -⟩ := Prod.mk.inj (rest.unique (.pure _))
        exact .saved save saving
      · obtain rfl := same returns
        exact .unchanged exit fun bad => absurd bad enable
    · obtain rfl := same returns
      exact .unchanged exit fun bad => absurd bad enable
  -- the other commands only read
  simp only [exit, enable, save, if_false] at returns
  have kept : state' = state := by
    repeat' split at returns
    all_goals exact same returns
  rw [kept]
  exact .unchanged exit fun bad => absurd bad enable

/-- A request that is answered without looking at a command, or with an error, or only reads. A close
is of the first kind. -/
inductive Harmless (r : IpcServerRequest) : Prop where
  | unsupported (type : r.hipc.type ≠ CmifCommandType_Request)
  | unknown (absent : r.data.cmdId ∉ [SysHeloIpcCmd_GetApiVersion, SysHeloIpcCmd_GetVersionString,
      SysHeloIpcCmd_GetCurrentContext, SysHeloIpcCmd_Exit, SysHeloIpcCmd_SetEnabled,
      SysHeloIpcCmd_GetConfigValues, SysHeloIpcCmd_SetConfigValues])
  | short (tooShort : r.data.cmdId = SysHeloIpcCmd_SetEnabled ∧ r.data.size < 1 ∨
      r.data.cmdId = SysHeloIpcCmd_SetConfigValues ∧ r.data.size < CONFIG_VALUE_LIST_SIZE)
  | readOnly (reads : r.data.cmdId ∈ [SysHeloIpcCmd_GetApiVersion, SysHeloIpcCmd_GetVersionString,
      SysHeloIpcCmd_GetCurrentContext, SysHeloIpcCmd_GetConfigValues])

theorem serviceHandlerFunc_harmless {targetVersion : List UInt8} {stack : Chars INI_BUFFERSIZE}
    {o : Outcomes} {r : IpcServerRequest} (request : r.hipc.type = CmifCommandType_Request)
    (harmless : Harmless r) (state : State) :
    ∃ response, serviceHandlerFunc targetVersion stack o r state = pure (state, response) := by
  unfold serviceHandlerFunc
  cases harmless with
  | unsupported type => exact absurd request type
  | unknown absent =>
    simp only [List.mem_cons, List.not_mem_nil, or_false, not_or] at absent
    obtain ⟨version, string, context, exit, enabled, get, set⟩ := absent
    simp only [version, string, context, exit, enabled, get, set, if_false]
    exact ⟨_, rfl⟩
  | short tooShort =>
    rcases tooShort with ⟨command, size⟩ | ⟨command, size⟩
    · simp +decide only [command, ge_iff_le, Nat.not_le_of_lt size, if_false, if_true]
      split <;> exact ⟨_, rfl⟩
    · simp +decide only [command, ge_iff_le, Nat.not_le_of_lt size, if_false, if_true]
      split <;> exact ⟨_, rfl⟩
  | readOnly reads =>
    simp only [List.mem_cons, List.not_mem_nil, or_false] at reads
    rcases reads with command | command | command | command
    · simp +decide only [command, if_true]
      exact ⟨_, rfl⟩
    · simp +decide only [command, if_true, if_false]
      split <;> exact ⟨_, rfl⟩
    · simp +decide only [command, if_true, if_false]
      exact ⟨_, rfl⟩
    · simp +decide only [command, if_true, if_false]
      exact ⟨_, rfl⟩

end IpcService

end SysHelo
