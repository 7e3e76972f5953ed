import SysHelo.Acknowledged
import SysHelo.Lib.System

/-! What becomes of the values when the configuration file is there but cannot be opened, while
refreshes, saves and edits by other programs come in any order. -/
namespace SysHelo
open CString Stdio Lines Loop MinIni

namespace FailedLoad

/-- The card and the manager. Recorded beside the code is the modification time at the last Load that
could not open the file, until a Refresh comes that can. -/
structure State where
  card : Card
  mgr : HeloManager
  failedAt : Option Int

namespace State

def values (s : State) : SysHeloConfigValueList := s.mgr.config.configValues

/-- What the file says. -/
def fileValues (stack : Chars INI_BUFFERSIZE) (s : State) : SysHeloConfigValueList :=
  Config.loadedValue stack s.card.stat s.card.openRead

/-- `Refresh` loads the file. -/
def Loads (s : State) : Prop := s.mgr.config.Stale s.card.stat

instance (s : State) : Decidable s.Loads := inferInstanceAs (Decidable (Config.Stale _ _))

/-- A `Refresh`, and whether the file can be opened meanwhile. -/
def refresh (stack : Chars INI_BUFFERSIZE) (opens : Bool) (s : State) : State where
  card := s.card
  mgr := { s.mgr with
    config := (s.mgr.config.refresh stack s.card.stat s.card.stat
      (if opens then s.card.openRead else none)).1 }
  failedAt := if opens then none else if s.Loads then some s.card.mtime else s.failedAt

end State

/-- A save and an edit may leave any modification time. -/
inductive Action where
  | refresh (stack : Chars INI_BUFFERSIZE) (opens : Bool)
  | setConfigValues (stack : Chars INI_BUFFERSIZE) (o : Outcomes) (configValues : SysHeloConfigValueList)
    (mtime : Int)
  | edit (text : List UInt8) (mtime : Int)

namespace Action

/-- Whenever the configuration is refreshed, `stat` finds the file, with a time that is not 0. -/
def Step (s : State) : Action → State → Prop
  | .refresh stack opens, t => Config.checkModificationTime s.card.stat ≠ 0 ∧ t = s.refresh stack opens
  | .setConfigValues stack o configValues mtime, t =>
    (∃ rc, Returns (IpcService.setConfigValues stack o configValues s.card.files s.mgr)
      (t.card.files, t.mgr, rc)) ∧ t.card.mtime = mtime ∧ t.failedAt = s.failedAt
  | .edit text mtime, t =>
    t = { s with card := ⟨Function.update s.card.files Config.path (some text), mtime⟩ }

/-- A Load that cannot open the file leaves the values, and the next Refresh that can brings them up
to date. -/
def Recovers (s : State) : Action → State → Prop
  | .refresh _ false, t => s.Loads → t.values = s.values
  | .refresh stack true, t => s.failedAt.isSome → t.values = t.fileValues stack
  | _, _ => True

/-- A Load that cannot open the file comes when all values are the defaults, and the next Refresh that
can comes when the file has another time than then, or the values are up to date as they are. -/
def Spared (s : State) : Action → Prop
  | .refresh _ false => s.Loads → s.values = sysHeloDefaultConfigValue
  | .refresh stack true => ∀ time, s.failedAt = some time → s.card.mtime ≠ time ∨
      s.values = s.fileValues stack
  | _ => True

end Action

/-- After a Load that failed, its time is remembered as that of a Load that did not. -/
def Remembered (s : State) : Prop :=
  ∀ time, s.failedAt = some time → s.mgr.config.loaded ∧ s.mgr.config.mtime = time

theorem stat_found {s : State} (found : Config.checkModificationTime s.card.stat ≠ 0) :
    Config.checkModificationTime s.card.stat = s.card.mtime := by
  rw [Card.stat_eq] at found ⊢
  split
  · rfl
  · rename_i missing
    exact absurd (if_neg missing) found

/-- The values after a Load that cannot open the file. -/
theorem loadedValue_none (stack : Chars INI_BUFFERSIZE) (stat : Option Int) :
    Config.loadedValue stack stat none = sysHeloDefaultConfigValue := by
  funext kval
  unfold Config.loadedValue
  split <;> rfl

theorem refresh_config (stack : Chars INI_BUFFERSIZE) (opens : Bool) (s : State) :
    (s.refresh stack opens).mgr.config =
      if s.Loads then
        ⟨true, Config.checkModificationTime s.card.stat, s.mgr.config.enabled,
          Config.loadedValue stack s.card.stat (if opens then s.card.openRead else none)⟩
      else s.mgr.config := by
  simp only [State.refresh, Config.refresh_eq, Config.load_any]
  rfl

theorem step_remembered {s t : State} {a : Action} (remembered : Remembered s) (stepped : a.Step s t) :
    Remembered t := by
  cases a with
  | refresh stack opens =>
    obtain ⟨found, rfl⟩ := stepped
    intro time failed
    rw [refresh_config]
    cases opens with
    | true => simp [State.refresh] at failed
    | false =>
      by_cases loads : s.Loads
      · simp only [State.refresh, loads, if_true, Bool.false_eq_true, if_false, Option.some.injEq] at failed
        rw [if_pos loads, ← failed]
        exact ⟨rfl, stat_found found⟩
      · simp only [State.refresh, loads, Bool.false_eq_true, if_false] at failed
        rw [if_neg loads]
        exact remembered time failed
  | setConfigValues stack o configValues mtime =>
    obtain ⟨⟨rc, answered⟩, -, failed⟩ := stepped
    intro time here
    obtain ⟨-, -, -, same⟩ | ⟨-, saved, -, same, -⟩ := IpcService.setConfigValues_inv answered
    · rw [same]
      exact remembered time (failed ▸ here)
    · have kept := remembered time (failed ▸ here)
      rw [same]
      unfold Config.applied
      split <;> exact kept
  | edit text mtime =>
    obtain rfl := stepped
    exact remembered

theorem step_recovers_iff {s t : State} {a : Action} (remembered : Remembered s) (stepped : a.Step s t) :
    a.Recovers s t ↔ a.Spared s := by
  cases a with
  | refresh stack opens =>
    obtain ⟨found, rfl⟩ := stepped
    have config := refresh_config stack opens s
    cases opens with
    | false =>
      apply imp_congr_right
      intro loads
      rw [if_pos loads] at config
      simp only [State.values, config, Bool.false_eq_true, if_false, loadedValue_none]
      exact eq_comm
    | true =>
      rw [if_pos rfl] at config
      have same : (s.refresh stack true).fileValues stack = s.fileValues stack := rfl
      simp only [Action.Recovers, Action.Spared, same, Option.isSome_iff_exists, forall_exists_index]
      apply forall_congr'
      intro time
      apply imp_congr_right
      intro failed
      obtain ⟨loaded, remembers⟩ := remembered time failed
      by_cases loads : s.Loads
      · rw [if_pos loads] at config
        have other : s.card.mtime ≠ time := by
          rw [← stat_found found, ← remembers]
          exact (loads.resolve_left (not_not.mpr loaded)).symm
        exact iff_of_true (congrArg Config.configValues config) (.inl other)
      · rw [if_neg loads] at config
        have again : s.card.mtime = time := by
          rw [← stat_found found, ← remembers]
          by_contra other
          exact loads (.inr (Ne.symm other))
        rw [State.values, config, or_iff_right (not_not.mpr again)]
        rfl
  | setConfigValues stack o configValues mtime => exact Iff.rfl
  | edit text mtime => exact Iff.rfl

/-- In every run, a failed Load leaves the values and the next Refresh that can open the file makes up
for it, exactly when every failed Load finds the defaults, and every such Refresh another time than the
Load that failed, or values that are up to date. -/
theorem run_recovers_iff {s : State} (fresh : s.failedAt = none) {run : List (Action × State)}
    (ran : Along Action.Step s run) :
    Along (fun s a t => a.Recovers s t) s run ↔ Along (fun s a _ => a.Spared s) s run := by
  apply along_iff Remembered _ _ ran
  · intro s a t remembered stepped
    exact ⟨step_recovers_iff remembered stepped, fun _ => step_remembered remembered stepped⟩
  · intro time failed
    rw [fresh] at failed
    contradiction

theorem stat_card (text : String) (mtime : Int) : Card.stat ⟨Config.card text, mtime⟩ = some mtime := by
  simp [Card.stat, Config.card_path]

/-- The sysmodule has just been started on a card with this file. -/
def start (text : String) : State := ⟨⟨Config.card text, 1⟩, .create, none⟩

def stack : Chars INI_BUFFERSIZE := .replicate _ 0

/-- The file has been loaded, and written again as it was. -/
def touched (text : String) : State :=
  { (start text).refresh stack true with card := ⟨Config.card text, 2⟩ }

/-- The next Refresh cannot open the file, but the one after it can. -/
def unlucky (text : String) : List (Action × State) :=
  let failed := (touched text).refresh stack false
  [(.refresh stack true, (start text).refresh stack true), (.edit (bytes text) 2, touched text),
    (.refresh stack false, failed), (.refresh stack true, failed.refresh stack true)]

theorem unlucky_runs (text : String) : Along Action.Step (start text) (unlucky text) := by
  have before : Config.checkModificationTime (Card.stat ⟨Config.card text, 1⟩) ≠ 0 := by
    rw [stat_card]
    decide
  have later : Config.checkModificationTime (Card.stat ⟨Config.card text, 2⟩) ≠ 0 := by
    rw [stat_card]
    decide
  have edited : Function.update (Config.card text) Config.path (some (bytes text)) = Config.card text :=
    Function.update_idem ..
  refine ⟨⟨before, rfl⟩, ?_, ⟨later, rfl⟩, ⟨later, rfl⟩, trivial⟩
  rw [Action.Step]
  simp only [touched, State.refresh, start, edited]

/-- The first Refresh cannot open the file; then it is written again, and read. -/
theorem run_recovers_iff_lucky :
    let text := "[values]\ntick_interval_ms=500\n"
    let failed := (start text).refresh stack false
    let edited := { failed with card := ⟨Config.card text, 2⟩ }
    let run := [(.refresh stack false, failed), (.edit (bytes text) 2, edited),
      (.refresh stack true, edited.refresh stack true)]
    Along Action.Step (start text) run ∧ Along (fun s a t => a.Recovers s t) (start text) run ∧
      failed.failedAt = some 1 ∧ failed.values .tickIntervalMs = 300 ∧
      (edited.refresh stack true).values .tickIntervalMs = 500 := by
  intro text failed edited run
  have before : Config.checkModificationTime (Card.stat ⟨Config.card text, 1⟩) ≠ 0 := by
    rw [stat_card]
    decide
  have later : Config.checkModificationTime (Card.stat ⟨Config.card text, 2⟩) ≠ 0 := by
    rw [stat_card]
    decide
  have same : Function.update (Config.card text) Config.path (some (bytes text)) = Config.card text :=
    Function.update_idem ..
  have runs : Along Action.Step (start text) run := by
    refine ⟨⟨before, rfl⟩, ?_, ⟨later, rfl⟩, trivial⟩
    rw [Action.Step]
    simp only [edited, failed, State.refresh, start, same]
  have first : (start text).Loads := .inl (by decide)
  have missed : failed.failedAt = some 1 := by
    simp only [failed, State.refresh, first, Bool.false_eq_true, if_true, if_false]
    rfl
  have recovers : Along (fun s a t => a.Recovers s t) (start text) run := by
    refine (run_recovers_iff rfl runs).mpr ⟨fun _ => rfl, trivial, fun time failed => .inl ?_, trivial⟩
    obtain rfl := Option.some.inj (missed.symm.trans failed)
    decide
  have reset := refresh_config stack false (start text)
  rw [if_pos first, if_neg (by decide), loadedValue_none] at reset
  refine ⟨runs, recovers, missed, ?_, ?_⟩
  · rw [State.values, reset]
    rfl
  · obtain ⟨-, -, found, -⟩ := recovers
    rw [found (Option.isSome_of_eq_some missed), State.fileValues]
    have time : edited.card.stat = some 2 := stat_card text 2
    have reads : Config.reading (bytes text) .tickIntervalMs = 500 := by decide
    rw [show (edited.refresh stack true).card.stat = _ from time]
    rw [show (edited.refresh stack true).card.openRead = _ from Files.fopenRead_ok (Config.card_path text),
      Config.loadedValue_text stack (by decide) (by decide)
      (by decide)]
    exact reads

/-- The interval is set back to the default, and stays so although the file can be read again. -/
theorem unlucky_lost :
    let text := "[values]\ntick_interval_ms=500\n"
    let failed := (touched text).refresh stack false
    let next := failed.refresh stack true
    Along Action.Step (start text) (unlucky text) ∧
      ¬ Along (fun s a t => a.Recovers s t) (start text) (unlucky text) ∧
      (touched text).values .tickIntervalMs = 500 ∧ failed.values .tickIntervalMs = 300 ∧
      next.values .tickIntervalMs = 300 ∧ next.fileValues stack .tickIntervalMs = 500 := by
  intro text failed next
  have reads : Config.reading (bytes text) .tickIntervalMs = 500 := by decide
  have content (mtime : Int) (found : mtime ≠ 0) :
      Config.loadedValue stack (some mtime) (Card.openRead ⟨Config.card text, mtime⟩)
        .tickIntervalMs = 500 := by
    rw [Card.openRead, Files.fopenRead_ok (Config.card_path text),
      Config.loadedValue_text stack found (by decide)
      (by decide)]
    exact reads
  have first : (start text).Loads := .inl (by decide)
  have loaded := refresh_config stack true (start text)
  rw [if_pos first, if_pos rfl] at loaded
  have time : (start text).card.stat = some 1 := stat_card text 1
  have second : (touched text).Loads := by
    right
    rw [show (touched text).mgr.config = _ from loaded, time, show (touched text).card.stat =
      _ from stat_card text 2]
    decide
  have reset := refresh_config stack false (touched text)
  rw [if_pos second, if_neg (by decide), loadedValue_none] at reset
  have third : ¬ failed.Loads := by
    rintro (unloaded | other)
    · exact unloaded (congrArg Config.loaded reset)
    · exact other (congrArg Config.mtime reset)
  have kept := refresh_config stack true failed
  rw [if_neg third] at kept
  have before : (touched text).values .tickIntervalMs = 500 := by
    rw [State.values, show (touched text).mgr.config = _ from loaded, time]
    exact content 1 (by decide)
  have lost : failed.values .tickIntervalMs = 300 := by
    rw [State.values, reset]
    rfl
  have stays : next.values .tickIntervalMs = 300 := by
    rw [State.values, kept]
    exact lost
  refine ⟨unlucky_runs text, ?_, before, lost, stays, ?_⟩
  · rintro ⟨-, -, here, -⟩
    have same := congrFun (here second) .tickIntervalMs
    rw [lost, before] at same
    exact absurd same (by decide)
  · rw [State.fileValues, show next.card.stat = _ from stat_card text 2]
    exact content 2 (by decide)

end FailedLoad

end SysHelo
