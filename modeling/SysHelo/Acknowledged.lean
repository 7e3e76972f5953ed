import SysHelo.Card
import SysHelo.ConfigReread
import SysHelo.IpcService

/-! Whether a list stays in force after its save has been acknowledged. Later ticks may load the
file again, and an entry that was left below the section then overrules the list. -/
namespace SysHelo
open CString Stdio Lines Loop MinIni

/-- What happens between two saves when no other program writes the file. -/
inductive Event where
  | tick (applicationId : UInt64) (stack : Chars INI_BUFFERSIZE)
  | setEnabled (enabled : UInt8)
  | exit

namespace HeloManager

def step (card : Card) (mgr : HeloManager) : Event → HeloManager
  | .tick applicationId stack => mgr.tick applicationId stack card.stat card.stat card.openRead
  | .setEnabled enabled => IpcService.setEnabled enabled mgr
  | .exit => IpcService.exit mgr

def run (card : Card) (events : List Event) (mgr : HeloManager) : HeloManager :=
  events.foldl (step card) mgr

theorem run_two_ticks {card : Card} (readable : card.Readable) (stack : Chars INI_BUFFERSIZE)
    (applicationId : UInt64) (mgr : HeloManager) :
    card.Current (mgr.run card [.tick applicationId stack, .tick applicationId stack]).config ∧
      (¬ card.Current mgr.config →
        (mgr.run card [.tick applicationId stack, .tick applicationId stack]).config.configValues =
          card.values) := by
  have settled := tick_context applicationId stack card.stat card.stat card.openRead mgr
  have first := tick_config readable applicationId stack mgr
  rw [run, List.foldl_cons, List.foldl_cons, List.foldl_nil, step, step]
  generalize mgr.tick applicationId stack card.stat card.stat card.openRead = mid at settled first
  have enabled : mid.config.enabled = mgr.config.enabled := by
    rcases first with kept | ⟨-, reloaded⟩
    · rw [kept]
    · rw [reloaded]
  rw [tick_eq, if_pos (by rw [settled, enabled])]
  dsimp only
  by_cases current : card.Current mid.config
  · rw [Card.refresh_current current]
    refine ⟨current, fun stale => ?_⟩
    rcases first with kept | ⟨-, reloaded⟩
    · exact absurd (kept ▸ current) stale
    · rw [reloaded]
  · rw [Card.refresh_stale current, Card.load_eq readable]
    exact ⟨⟨rfl, rfl⟩, fun _ => rfl⟩

/-- The list is in memory, and no load of the file as it is would change it. -/
structure Holds (card : Card) (list : SysHeloConfigValueList) (mgr : HeloManager) : Prop where
  loaded : mgr.config.loaded
  configValues : mgr.config.configValues = list
  stays : card.Current mgr.config ∨ card.values = list

theorem step_holds {card : Card} (readable : card.Readable) {list : SysHeloConfigValueList}
    {mgr : HeloManager} (holds : Holds card list mgr) (event : Event) :
    Holds card list (mgr.step card event) := by
  obtain ⟨loaded, same, stays⟩ := holds
  cases event with
  | tick applicationId stack =>
    rcases tick_config readable applicationId stack mgr with kept | ⟨stale, reloaded⟩
    · exact ⟨by rw [step, kept, loaded], by rw [step, kept, same], by rw [step, kept]; exact stays⟩
    · have read := stays.resolve_left stale
      exact ⟨by rw [step, reloaded], by rw [step, reloaded, ← read], .inr read⟩
  | setEnabled enabled => exact ⟨loaded, same, stays⟩
  | exit => exact ⟨loaded, same, stays⟩

theorem run_holds {card : Card} (readable : card.Readable) {list : SysHeloConfigValueList}
    (events : List Event) {mgr : HeloManager} (holds : Holds card list mgr) :
    Holds card list (mgr.run card events) := by
  induction events generalizing mgr with
  | nil => exact holds
  | cons event events ih => exact ih (step_holds readable holds event)

end HeloManager

namespace IpcService

/-- What a save has put in the place of the old file, or of no file. -/
def Saved (configValues : SysHeloConfigValueList) : Option (List UInt8) → List UInt8 → Prop
  | none, out => out = sectionText configValSection (Config.iniSettings configValues)
  | some text, out => Replaced configValSection (Config.iniSettings configValues) text out

theorem Saved.room {configValues : SysHeloConfigValueList} {old : Option (List UInt8)} {out : List UInt8}
    (saved : Saved configValues old out)
    (texts : ∀ text, old = some text → Fits Config.LINE_LIMIT text ∧ 0 ∉ text) :
    Fits LINE_ROOM out ∧ 0 ∉ out := by
  cases old with
  | none => exact saved ▸ Config.room_sectionText configValues
  | some text => exact Config.room_replaced saved (texts text rfl).1 (texts text rfl).2

/-- The new file gives the list back when what is below the section does not overrule it. -/
theorem Saved.reading_eq_iff {configValues : SysHeloConfigValueList} {old : Option (List UInt8)}
    {out : List UInt8} (saved : Saved configValues old out) :
    Config.reading out = Config.acceptedValues configValues ↔
      ∀ text, old = some text → Config.KeepsSaved configValues text := by
  cases old with
  | none =>
    refine iff_of_true (funext fun kval => ?_) (fun _ bad => by contradiction)
    rw [saved]
    exact Config.reading_sectionText configValues kval
  | some text =>
    simp only [funext_iff, Config.reading_replaced saved, Option.some.injEq, forall_eq',
      Config.KeepsSaved]

theorem setConfigValues_inv {stack : Chars INI_BUFFERSIZE} {o : Outcomes}
    {configValues : SysHeloConfigValueList} {files files' : Files} {mgr mgr' : HeloManager} {rc : Result}
    (answered : Returns (setConfigValues stack o configValues files mgr) (files', mgr', rc)) :
    mgr.config.loaded = false ∧ rc = SYSHELO_ERROR .configNotLoaded ∧ files' = files ∧ mgr' = mgr ∨
      mgr.config.loaded = true ∧ ∃ saved,
        Returns (mgr.config.setConfigValues stack o configValues true files)
          (files', Config.applied configValues true mgr.config saved, saved) ∧
        mgr' = { mgr with config := Config.applied configValues true mgr.config saved } ∧
        rc = if saved then 0 else SYSHELO_ERROR .configSaveFailed := by
  unfold setConfigValues at answered
  cases loaded : mgr.config.loaded with
  | false =>
    simp only [Config.hasLoaded, loaded, Bool.not_false, if_true] at answered
    obtain ⟨rfl, same⟩ := Prod.mk.inj ((Returns.pure _).unique answered)
    obtain ⟨rfl, rfl⟩ := Prod.mk.inj same
    exact .inl ⟨rfl, rfl, rfl, rfl⟩
  | true =>
    simp only [Config.hasLoaded, loaded, Bool.not_true, Bool.false_eq_true, if_false] at answered
    obtain ⟨result, saving, rest⟩ := (Config.setConfigValues_stable _).bind_inv answered
    obtain ⟨files'', saved, -, rfl⟩ := Config.setConfigValues_inv saving
    obtain ⟨rfl, same⟩ := Prod.mk.inj ((Returns.pure _).unique rest)
    obtain ⟨rfl, rfl⟩ := Prod.mk.inj same
    exact .inr ⟨rfl, saved, saving, rfl, rfl⟩

/-- A request is rejected, or it saves the list and puts it into memory. -/
theorem setConfigValues_cases {stack : Chars INI_BUFFERSIZE} {configValues : SysHeloConfigValueList}
    {files files' : Files} {mgr mgr' : HeloManager} {rc : Result}
    (texts : ∀ text, files Config.path = some text → Fits Config.LINE_LIMIT text ∧ 0 ∉ text)
    (answered : Returns (setConfigValues stack .ok configValues files mgr) (files', mgr', rc)) :
    ¬ mgr.config.loaded ∧ rc = SYSHELO_ERROR .configNotLoaded ∧ files' = files ∧ mgr' = mgr ∨
      mgr.config.loaded ∧ rc = 0 ∧
        mgr' = { mgr with
          config := { mgr.config with configValues := Config.acceptedValues configValues } } ∧
        ∃ out, files' Config.path = some out ∧ Saved configValues (files Config.path) out := by
  obtain ⟨loaded, rfl, rfl, rfl⟩ | ⟨loaded, saved, saving, rfl, rfl⟩ := setConfigValues_inv answered
  · exact .inl ⟨by simp [loaded], rfl, rfl, rfl⟩
  refine .inr ⟨loaded, ?_⟩
  cases content : files Config.path with
  | none =>
    obtain ⟨ideal, returns, alone⟩ :=
      Config.setConfigValues_absent stack configValues true mgr.config content
    obtain ⟨rfl, memory⟩ := Prod.mk.inj (saving.unique returns)
    obtain ⟨-, rfl⟩ := Prod.mk.inj memory
    exact ⟨rfl, rfl, _, alone, rfl⟩
  | some text =>
    obtain ⟨fits, free⟩ := texts text content
    have readable := Config.readable_of_fits (fun line member =>
      (fits line member).trans (by decide)) free
    have returned : ¬ Config.Hangs configValues text := by
      intro hangs
      exact (Config.setConfigValues_diverges stack configValues true mgr.config content readable
        hangs).not_returns _ saving
    obtain ⟨ideal, out, returns, there, replaced⟩ :=
      Config.setConfigValues_present stack configValues true mgr.config content readable returned
    obtain ⟨rfl, memory⟩ := Prod.mk.inj (saving.unique returns)
    obtain ⟨-, rfl⟩ := Prod.mk.inj memory
    exact ⟨rfl, rfl, out, there, replaced⟩

theorem setConfigValues_of_saved {stack : Chars INI_BUFFERSIZE} {o : Outcomes}
    {configValues : SysHeloConfigValueList} {files files' : Files} {mgr : HeloManager} {config : Config}
    (loaded : mgr.config.loaded)
    (saving : Returns (mgr.config.setConfigValues stack o configValues true files) (files', config, true)) :
    Returns (setConfigValues stack o configValues files mgr) (files', { mgr with config }, 0) := by
  simp only [setConfigValues, Config.hasLoaded, loaded, Bool.not_true, Bool.false_eq_true, if_false]
  exact Returns.bind saving (Returns.pure _)

theorem getConfigValues_loaded {mgr : HeloManager} (loaded : mgr.config.loaded) :
    getConfigValues mgr = (0, some mgr.config.configValues) := by
  simp [getConfigValues, Config.hasLoaded, loaded, Config.getConfigValues]

/-- An acknowledged list is what every later reply carries exactly when the save left the time
that was remembered, or reading the new file gives the list back. -/
theorem acknowledged_stays_iff {stack : Chars INI_BUFFERSIZE} {configValues : SysHeloConfigValueList}
    {files files' : Files} {mgr mgr' : HeloManager}
    (texts : ∀ text, files Config.path = some text → Fits Config.LINE_LIMIT text ∧ 0 ∉ text)
    (answered : Returns (setConfigValues stack .ok configValues files mgr) (files', mgr', 0)) (mtime : Int) :
    (∀ events, getConfigValues (mgr'.run ⟨files', mtime⟩ events) =
        (0, some (Config.acceptedValues configValues))) ↔
      mtime = mgr.config.mtime ∨
        if mtime = 0 then Config.acceptedValues configValues = sysHeloDefaultConfigValue
        else ∀ text, files Config.path = some text → Config.KeepsSaved configValues text := by
  obtain ⟨-, bad, -⟩ | ⟨loaded, -, rfl, out, there, saved⟩ := setConfigValues_cases texts answered
  · exact absurd bad (by decide)
  have room := saved.room texts
  have readable : Card.Readable ⟨files', mtime⟩ := by
    intro text same
    exact Option.some.inj (there.symm.trans same) ▸ room
  have seen : Config.checkModificationTime (Card.stat ⟨files', mtime⟩) = mtime := by
    simp [Card.stat_eq, there]
  have given : Card.values ⟨files', mtime⟩ = Config.acceptedValues configValues ↔
      if mtime = 0 then Config.acceptedValues configValues = sysHeloDefaultConfigValue
      else ∀ text, files Config.path = some text → Config.KeepsSaved configValues text := by
    simp only [Card.values, there]
    split
    · exact eq_comm
    · exact saved.reading_eq_iff
  rw [← given]
  constructor
  · intro always
    by_contra other
    rw [not_or] at other
    have stale : ¬ Card.Current ⟨files', mtime⟩ mgr.config := by
      intro current
      exact other.1 (seen.symm.trans current.2.symm)
    obtain ⟨current, reread⟩ := HeloManager.run_two_ticks readable stack 0
      { mgr with config := { mgr.config with configValues := Config.acceptedValues configValues } }
    have reply := always [.tick 0 stack, .tick 0 stack]
    rw [getConfigValues_loaded current.1, reread stale, Prod.mk.injEq, Option.some.injEq] at reply
    exact other.2 reply.2
  · intro stays events
    have holds : HeloManager.Holds ⟨files', mtime⟩ (Config.acceptedValues configValues) { mgr with
        config := { mgr.config with configValues := Config.acceptedValues configValues } } :=
      ⟨loaded, rfl, stays.imp (fun same => ⟨loaded, by rw [seen, same]⟩) id⟩
    have kept := HeloManager.run_holds readable events holds
    rw [getConfigValues_loaded kept.loaded, kept.configValues]

/-- A manager that has loaded a file with time 1. -/
def loadedManager : HeloManager :=
  { HeloManager.create with config := { Config.createDefault with loaded := true, mtime := 1 } }

theorem acknowledged_stays_first :
    ∃ files' mgr', Returns (setConfigValues (.replicate _ 0) .ok (fun _ => 500) Config.emptyCard
        loadedManager) (files', mgr', 0) ∧
      ∀ events, getConfigValues (mgr'.run ⟨files', 2⟩ events) = (0, some fun _ => 500) := by
  obtain ⟨files', saving, -⟩ := Config.setConfigValues_absent (.replicate _ 0) (fun _ => 500) true
    loadedManager.config Config.emptyCard_path
  have answered := setConfigValues_of_saved rfl saving
  have same : Config.acceptedValues (fun _ => 500) = fun _ => 500 := by
    funext kval
    cases kval
    decide
  refine ⟨files', _, answered, ?_⟩
  rw [← same]
  refine (acknowledged_stays_iff (fun text bad => ?_) answered 2).mpr (.inr ?_)
  · rw [Config.emptyCard_path] at bad
    contradiction
  · rw [if_neg (by decide)]
    intro text bad
    rw [Config.emptyCard_path] at bad
    contradiction

/-- A second header of the section is left in the file, and the reader takes its entry. -/
theorem acknowledged_reverts :
    Fits Config.LINE_LIMIT (bytes "[values]\n[values]\ntick_interval_ms=5\n") ∧
      0 ∉ bytes "[values]\n[values]\ntick_interval_ms=5\n" ∧
      ∃ files' mgr', Returns (setConfigValues (.replicate _ 0) .ok (fun _ => 500)
          (Config.card "[values]\n[values]\ntick_interval_ms=5\n") loadedManager) (files', mgr', 0) ∧
        ∃ events, getConfigValues (mgr'.run ⟨files', 2⟩ events) ≠ (0, some fun _ => 500) := by
  have fits : Fits Config.LINE_LIMIT (bytes "[values]\n[values]\ntick_interval_ms=5\n") := by decide
  have free : 0 ∉ bytes "[values]\n[values]\ntick_interval_ms=5\n" := by decide
  obtain ⟨files', out, saving, there, replaced⟩ := Config.setConfigValues_present (.replicate _ 0)
    (fun _ => 500) true loadedManager.config (Config.card_path _)
    (Config.readable_of_fits (fun line member => (fits line member).trans (by decide)) free)
    (fun hangs => absurd hangs.2 (by decide))
  refine ⟨fits, free, files', _, setConfigValues_of_saved rfl saving,
    [.tick 0 (.replicate _ 0), .tick 0 (.replicate _ 0)], ?_⟩
  have readable : Card.Readable ⟨files', 2⟩ := by
    intro text same
    obtain rfl := Option.some.inj (there.symm.trans same)
    exact Config.room_replaced replaced fits free
  obtain ⟨current, reread⟩ := HeloManager.run_two_ticks readable (.replicate _ 0) 0
    { loadedManager with config := Config.applied (fun _ => 500) true loadedManager.config true }
  have stale : ¬ Card.Current ⟨files', 2⟩
      (Config.applied (fun _ => 500) true loadedManager.config true) := by
    rintro ⟨-, same⟩
    simp only [Card.stat_eq, there, Option.isSome_some, if_true] at same
    exact absurd same (by decide)
  rw [getConfigValues_loaded current.1, reread stale]
  intro same
  have value := congrFun (Option.some.inj (Prod.mk.inj same).2) .tickIntervalMs
  simp only [Card.values, there, if_neg (show (2 : Int) ≠ 0 by decide)] at value
  rw [Config.reading_replaced replaced] at value
  exact absurd value (by decide)

end IpcService

end SysHelo
