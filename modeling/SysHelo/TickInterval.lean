import SysHelo.Acknowledged
import SysHelo.Lib.System

/-! How long the main loop sleeps. The interval comes from a file or from a client, is multiplied when
it is used, and is then taken for a signed number. -/
namespace SysHelo
open CString Stdio Lines Loop MinIni

namespace HeloManager

/-- The main loop sleeps, and for as long as the interval says. -/
def Sleeps (mgr : HeloManager) : Prop :=
  0 < mgr.waitForNextTick ∧
    mgr.waitForNextTick.toInt = (mgr.config.getConfigValue .tickIntervalMs).toNat * 1000000

/-- The longest interval in milliseconds whose nanoseconds are a signed number of 64 bits. -/
def INTERVAL_MAX : UInt64 := 9223372036854

theorem toInt_ofNat_iff (n : Nat) : (Int64.ofNat n).toInt = n ↔ n < 2 ^ 63 := by
  constructor
  · intro same
    have bound := (Int64.ofNat n).toInt_lt
    omega
  · exact Int64.toInt_ofNat_of_lt

theorem waitForNextTick_eq (mgr : HeloManager) :
    mgr.waitForNextTick = .ofNat ((mgr.config.getConfigValue .tickIntervalMs).toNat * 1000000) := by
  rw [waitForNextTick, ← UInt64.toInt64_ofNat', UInt64.ofNat_mul, UInt64.ofNat_toNat]
  rfl

theorem sleeps_iff (mgr : HeloManager) :
    mgr.Sleeps ↔ 0 < mgr.config.getConfigValue .tickIntervalMs ∧
      mgr.config.getConfigValue .tickIntervalMs ≤ INTERVAL_MAX := by
  have limit : INTERVAL_MAX.toNat = 9223372036854 := rfl
  rw [Sleeps, waitForNextTick_eq, UInt64.lt_iff_toNat_lt, UInt64.le_iff_toNat_le, limit, UInt64.toNat_zero]
  generalize (mgr.config.getConfigValue .tickIntervalMs).toNat = n
  have exact_iff := toInt_ofNat_iff (n * 1000000)
  rw [Int64.lt_iff_toInt_lt, Int64.toInt_zero]
  constructor
  · rintro ⟨positive, same⟩
    have fits := exact_iff.mp (by exact_mod_cast same)
    omega
  · rintro ⟨positive, short⟩
    have same := exact_iff.mpr (by omega)
    constructor
    · omega
    · exact_mod_cast same

end HeloManager

namespace TickInterval
open IpcService

/-- What can change the interval, or whether the next tick does. A file is whatever its opening gives,
and so are the modification times. -/
inductive Action where
  | setConfigValues (stack : Chars INI_BUFFERSIZE) (o : Outcomes) (configValues : SysHeloConfigValueList)
  | setEnabled (enabled : UInt8)
  | refresh (stack : Chars INI_BUFFERSIZE) (stat stat' : Option Int) (file : Option ReadFile)
  | tick (applicationId : UInt64) (stack : Chars INI_BUFFERSIZE) (stat stat' : Option Int)
    (file : Option ReadFile)
  | edit (files : Files)

namespace Action

def Step (s : State) : Action → State → Prop
  | .setConfigValues stack o configValues, t =>
    ∃ rc, Returns (IpcService.setConfigValues stack o configValues s.files s.mgr) (t.files, t.mgr, rc)
  | .setEnabled enabled, t => t = { s with mgr := IpcService.setEnabled enabled s.mgr }
  | .refresh stack stat stat' file, t =>
    t = { s with mgr := { s.mgr with config := (s.mgr.config.refresh stack stat stat' file).1 } }
  | .tick applicationId stack stat stat' file, t =>
    t = { s with mgr := s.mgr.tick applicationId stack stat stat' file }
  | .edit files, t => t = { s with files }

/-- The last entry of the file for the interval, if there is one and the file can be read, is not too
large a number. -/
def ShortFile (stack : Chars INI_BUFFERSIZE) (stat : Option Int) (file : Option ReadFile) : Prop :=
  Config.checkModificationTime stat ≠ 0 →
    Config.lastOr 300 .tickIntervalMs (handedOver stack file) ≤ HeloManager.INTERVAL_MAX

/-- An interval that is set by the action is not too large. -/
def Short (s : State) : Action → Prop
  | .setConfigValues _ o configValues =>
    s.mgr.config.loaded → o.fopenWrite → configValues .tickIntervalMs ≤ HeloManager.INTERVAL_MAX
  | .refresh stack stat stat' file => s.mgr.config.Stale stat → ShortFile stack stat' file
  | .tick applicationId stack stat stat' file =>
    s.mgr.context = ⟨s.mgr.config.enabled, applicationId⟩ → s.mgr.config.Stale stat →
      ShortFile stack stat' file
  | .setEnabled _ | .edit _ => True

/-- The interval that the action sets, if it sets one. -/
def sets (s : State) : Action → Option UInt64
  | .setConfigValues _ o configValues =>
    if s.mgr.config.loaded ∧ o.fopenWrite then
      some (Config.accepted .tickIntervalMs (configValues .tickIntervalMs))
    else none
  | .refresh stack stat stat' file =>
    if s.mgr.config.Stale stat then some (Config.loadedValue stack stat' file .tickIntervalMs) else none
  | .tick applicationId stack stat stat' file =>
    if s.mgr.context = ⟨s.mgr.config.enabled, applicationId⟩ ∧ s.mgr.config.Stale stat then
      some (Config.loadedValue stack stat' file .tickIntervalMs)
    else none
  | .setEnabled _ | .edit _ => none

theorem accepted_short {input : UInt64} :
    Config.accepted .tickIntervalMs input ≤ HeloManager.INTERVAL_MAX ↔ input ≤ HeloManager.INTERVAL_MAX := by
  unfold Config.accepted
  split
  · rfl
  · rename_i invalid
    have zero : input = 0 := by simpa [sysHeloValidConfigValue] using invalid
    rw [zero]
    decide

theorem loadedValue_short {stack : Chars INI_BUFFERSIZE} {stat : Option Int} {file : Option ReadFile} :
    Config.loadedValue stack stat file .tickIntervalMs ≤ HeloManager.INTERVAL_MAX ↔
      ShortFile stack stat file := by
  unfold Config.loadedValue ShortFile
  split
  · rename_i missing
    exact iff_of_true (by decide) (absurd missing)
  · rename_i found
    exact ⟨fun short _ => short, fun short => short found⟩

theorem forall_ite_some {c : Prop} [Decidable c] {x : UInt64} {p : UInt64 → Prop} :
    (∀ v, (if c then some x else none) = some v → p v) ↔ (c → p x) := by
  by_cases holds : c
  · simp [holds]
  · simp [holds]

theorem short_iff (s : State) (a : Action) :
    a.Short s ↔ ∀ v, a.sets s = some v → v ≤ HeloManager.INTERVAL_MAX := by
  cases a with
  | setConfigValues stack o configValues => rw [sets, forall_ite_some, accepted_short, and_imp, Short]
  | refresh stack stat stat' file => rw [sets, forall_ite_some, loadedValue_short, Short]
  | tick applicationId stack stat stat' file => rw [sets, forall_ite_some, loadedValue_short, and_imp, Short]
  | setEnabled enabled => simp [Short, sets]
  | edit files => simp [Short, sets]

theorem sets_positive {s : State} {a : Action} {v : UInt64} (set : a.sets s = some v) : 0 < v := by
  have valid : sysHeloValidConfigValue .tickIntervalMs v := by
    cases a with
    | setConfigValues stack o configValues =>
      obtain ⟨-, same⟩ := Option.ite_none_right_eq_some.mp set
      obtain rfl := Option.some.inj same
      exact Config.accepted_valid _ _
    | refresh stack stat stat' file =>
      obtain ⟨-, same⟩ := Option.ite_none_right_eq_some.mp set
      obtain rfl := Option.some.inj same
      exact Config.loadedValue_valid _ _ _ _
    | tick applicationId stack stat stat' file =>
      obtain ⟨-, same⟩ := Option.ite_none_right_eq_some.mp set
      obtain rfl := Option.some.inj same
      exact Config.loadedValue_valid _ _ _ _
    | setEnabled enabled => contradiction
    | edit files => contradiction
  exact Config.valid_positive valid

theorem step_interval {s t : State} {a : Action} (stepped : a.Step s t) :
    t.mgr.config.getConfigValue .tickIntervalMs =
      (a.sets s).getD (s.mgr.config.getConfigValue .tickIntervalMs) := by
  cases a with
  | setConfigValues stack o configValues =>
    obtain ⟨rc, answered⟩ := stepped
    obtain ⟨loaded, -, -, same⟩ | ⟨loaded, saved, saving, same, -⟩ := setConfigValues_inv answered
    · simp [sets, loaded, same]
    · obtain rfl := Config.setConfigValues_saved saving
      by_cases opened : o.fopenWrite
      · simp [sets, loaded, same, opened, Config.applied, Config.getConfigValue, Config.acceptedValues]
      · simp [sets, loaded, same, opened, Config.applied]
  | refresh stack stat stat' file =>
    obtain rfl := stepped
    simp only [sets, Config.refresh_eq]
    split
    · rw [Config.load_any]
      rfl
    · rfl
  | tick applicationId stack stat stat' file =>
    obtain rfl := stepped
    simp only [sets, HeloManager.tick_eq, Config.refresh_eq]
    by_cases settled : s.mgr.context = ⟨s.mgr.config.enabled, applicationId⟩
    · simp only [settled, if_true, true_and]
      split
      · rw [Config.load_any]
        rfl
      · rfl
    · simp only [settled, if_false, false_and]
      rfl
  | setEnabled enabled =>
    obtain rfl := stepped
    rfl
  | edit files =>
    obtain rfl := stepped
    rfl

end Action

/-- From a state that sleeps, a step leads to one that does when what it sets is short. -/
theorem step_sleeps_iff {s t : State} {a : Action} (sleeps : s.mgr.Sleeps) (stepped : a.Step s t) :
    t.mgr.Sleeps ↔ a.Short s := by
  rw [HeloManager.sleeps_iff] at sleeps ⊢
  rw [Action.step_interval stepped, Action.short_iff]
  cases set : a.sets s with
  | none => simpa using sleeps
  | some v => simp [Action.sets_positive set]

/-- In a run from the start, the main loop sleeps as long as the interval says in every state exactly
when no step sets an interval above the limit. -/
theorem run_sleeps_iff {s : State} (created : s.mgr = .create) {run : List (Action × State)}
    (ran : Along Action.Step s run) :
    (∀ passed ∈ run, passed.2.mgr.Sleeps) ↔ Along (fun s a _ => a.Short s) s run := by
  have each := along_target (fun t : State => t.mgr.Sleeps) s run
  rw [← each]
  apply along_iff (fun s => s.mgr.Sleeps) _ _ ran
  · intro s a t sleeps stepped
    exact ⟨step_sleeps_iff sleeps stepped, id⟩
  · rw [created, HeloManager.sleeps_iff]
    decide

/-- What a run starts with. -/
def start : State := ⟨.create, Config.emptyCard⟩

/-- The first tick, which loads this text. -/
def firstTick (text : String) : List (Action × State) :=
  let load : Action := .tick 0 (.replicate _ 0) (some 1) (some 1) (some ⟨bytes text, 0⟩)
  [(load, { start with mgr := start.mgr.tick 0 (.replicate _ 0) (some 1) (some 1) (some ⟨bytes text, 0⟩) })]

theorem run_sleeps_iff_first :
    (∀ passed ∈ firstTick "[values]\ntick_interval_ms=500\n", passed.2.mgr.Sleeps) ↔
      Along (fun s a _ => a.Short s) start (firstTick "[values]\ntick_interval_ms=500\n") := by
  have ran : Along Action.Step start (firstTick "[values]\ntick_interval_ms=500\n") := ⟨rfl, trivial⟩
  exact run_sleeps_iff rfl ran

/-- A negative interval is a valid one, and the main loop does not sleep at all. -/
theorem not_sleeps : ∃ run, Along Action.Step start run ∧ ∃ passed ∈ run,
    ¬ passed.2.mgr.Sleeps ∧ passed.2.mgr.waitForNextTick = -1000000 := by
  have settled : start.mgr.context = ⟨start.mgr.config.enabled, 0⟩ := rfl
  have text : Config.reading (bytes "[values]\ntick_interval_ms=-1\n") .tickIntervalMs =
      0xffffffffffffffff := by
    decide
  have loaded := Config.loadedValue_text (.replicate _ 0) (show (1 : Int) ≠ 0 by decide)
    (show Fits LINE_ROOM (bytes "[values]\ntick_interval_ms=-1\n") by decide) (by decide)
  have interval : (start.mgr.tick 0 (.replicate _ 0) (some 1) (some 1)
      (some ⟨bytes "[values]\ntick_interval_ms=-1\n", 0⟩)).config.getConfigValue .tickIntervalMs =
        0xffffffffffffffff := by
    rw [HeloManager.tick_eq, if_pos settled, Config.refresh_eq, if_pos (.inl (by decide)),
      Config.load_any, loaded]
    exact text
  refine ⟨firstTick "[values]\ntick_interval_ms=-1\n", ⟨rfl, trivial⟩, _, List.mem_singleton_self _, ?_, ?_⟩
  · rw [HeloManager.sleeps_iff, interval]
    decide
  · rw [HeloManager.waitForNextTick, interval]
    decide

end TickInterval

end SysHelo
