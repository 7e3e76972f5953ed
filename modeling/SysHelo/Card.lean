import SysHelo.ConfigLoad
import SysHelo.HeloManager

/-! The card as the main thread sees it, and what refreshing the configuration and a tick do on a
card that stays as it is. -/
namespace SysHelo
open CString Stdio Lines MinIni

/-- What the main thread sees of the card: its files, and `st_mtime` of the configuration file. -/
structure Card where
  files : Files
  mtime : Int

namespace Card

def stat (card : Card) : Option Int := (card.files Config.path).map fun _ => card.mtime

def openRead (card : Card) : Option ReadFile := Files.fopenRead .ok card.files Config.path

end Card

namespace Card

/-- The configuration file, if there is one, can be read whole. -/
def Readable (card : Card) : Prop :=
  ∀ text, card.files Config.path = some text → Fits LINE_ROOM text ∧ 0 ∉ text

/-- What the file gives; with a time of 0 it counts as missing. -/
def values (card : Card) : SysHeloConfigValueList :=
  match card.files Config.path with
  | none => sysHeloDefaultConfigValue
  | some text => if card.mtime = 0 then sysHeloDefaultConfigValue else Config.reading text

theorem stat_eq (card : Card) : Config.checkModificationTime card.stat =
    if (card.files Config.path).isSome then card.mtime else 0 := by
  cases content : card.files Config.path <;> simp [stat, Config.checkModificationTime, content]

theorem load_eq {card : Card} (readable : card.Readable) (stack : Chars INI_BUFFERSIZE) (config : Config) :
    config.load stack card.stat card.openRead =
      ⟨true, Config.checkModificationTime card.stat, config.enabled, card.values⟩ := by
  cases content : card.files Config.path with
  | none => simp [Config.load, stat, values, content, Config.checkModificationTime, Config.close]
  | some text =>
    obtain ⟨fits, free⟩ := readable text content
    by_cases missing : card.mtime = 0
    · simp [Config.load, stat, values, content, missing, Config.checkModificationTime, Config.close]
    · have opened : card.openRead = some ⟨text, 0⟩ := Files.fopenRead_ok content
      have seen : card.stat = some card.mtime := by simp [stat, content]
      rw [seen, opened, Config.load_eq stack config missing fits free, values, content]
      simp [missing, Config.checkModificationTime]

/-- The configuration has seen the file as it is now. -/
def Current (card : Card) (config : Config) : Prop :=
  config.loaded ∧ config.mtime = Config.checkModificationTime card.stat

theorem refresh_current {card : Card} {config : Config} (current : card.Current config)
    (stack : Chars INI_BUFFERSIZE) (stat' : Option Int) (file : Option ReadFile) :
    config.refresh stack card.stat stat' file = (config, false) := by
  simp [Config.refresh, current.1, current.2]

theorem refresh_stale {card : Card} {config : Config} (stale : ¬ card.Current config)
    (stack : Chars INI_BUFFERSIZE) (stat' : Option Int) (file : Option ReadFile) :
    config.refresh stack card.stat stat' file = (config.load stack stat' file, true) := by
  unfold Config.refresh
  rw [if_pos]
  by_contra other
  apply stale
  simpa [Current] using other

end Card

namespace HeloManager

theorem tick_context (applicationId : UInt64) (stack : Chars INI_BUFFERSIZE) (stat stat' : Option Int)
    (file : Option ReadFile) (mgr : HeloManager) :
    (mgr.tick applicationId stack stat stat' file).context = ⟨mgr.config.enabled, applicationId⟩ := by
  rw [tick_eq]
  split
  · assumption
  · rfl

theorem tick_loads (applicationId : UInt64) (stack : Chars INI_BUFFERSIZE) (stat stat' : Option Int)
    (file : Option ReadFile) (mgr : HeloManager) :
    (mgr.tick applicationId stack stat stat' file).config = mgr.config ∨
      (mgr.tick applicationId stack stat stat' file).config = mgr.config.load stack stat' file := by
  rw [tick_eq]
  split
  · unfold Config.refresh
    dsimp only
    split
    · exact .inr rfl
    · exact .inl rfl
  · exact .inl rfl

theorem tick_config {card : Card} (readable : card.Readable) (applicationId : UInt64)
    (stack : Chars INI_BUFFERSIZE) (mgr : HeloManager) :
    (mgr.tick applicationId stack card.stat card.stat card.openRead).config = mgr.config ∨
      ¬ card.Current mgr.config ∧ (mgr.tick applicationId stack card.stat card.stat card.openRead).config =
        ⟨true, Config.checkModificationTime card.stat, mgr.config.enabled, card.values⟩ := by
  rw [tick_eq]
  split
  · by_cases current : card.Current mgr.config
    · rw [Card.refresh_current current]
      exact .inl rfl
    · rw [Card.refresh_stale current, Card.load_eq readable]
      exact .inr ⟨current, rfl⟩
  · exact .inl rfl

end HeloManager

end SysHelo
