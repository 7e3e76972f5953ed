import SysHelo.ConfigLoad
import SysHelo.MinIni.PutsectionProofs

/-! Saving the configuration when the file operations succeed: what the new file is, and when
the call returns at all. -/
namespace SysHelo
open CString Stdio Numeral Lines Loop MinIni

namespace Config

theorem named_configValSection : Named configValSection := ⟨by decide, by decide, by decide⟩

theorem filename_path : Filename path := ⟨by decide, by decide, by decide, by decide⟩

theorem mem_iniSettings {configValues : SysHeloConfigValueList} {setting : List UInt8 × List UInt8} :
    setting ∈ iniSettings configValues ↔ ∃ kval, sysHeloValidConfigValue kval (configValues kval) ∧
      configValues kval ≠ sysHeloDefaultConfigValue kval ∧
      setting = (sysHeloFormatConfigValue kval false, formatLong (configValues kval)) := by
  simp only [iniSettings, List.mem_filterMap]
  constructor
  · rintro ⟨kval, -, written⟩
    split at written
    · contradiction
    · rename_i kept
      simp only [Bool.or_eq_true, Bool.not_eq_true', decide_eq_true_eq, not_or, Bool.not_eq_false] at kept
      rw [snprintfLong_eq _ _ (by decide)] at written
      exact ⟨kval, kept.1, kept.2, (Option.some.inj written).symm⟩
  · rintro ⟨kval, valid, other, rfl⟩
    refine ⟨kval, SysHeloConfigValue.mem_all kval, ?_⟩
    rw [if_neg (by simp [valid, other]), snprintfLong_eq _ _ (by decide)]

theorem format_plain (kval : SysHeloConfigValue) : 0 ∉ sysHeloFormatConfigValue kval false ∧
    (sysHeloFormatConfigValue kval false).length ≤ 32 := by
  cases kval; decide

theorem formatLong_ne {v : UInt64} {c : UInt8} (minus : c ≠ '-'.toUInt8)
    (digits : ∀ d, d < 10 → c ≠ d.digitChar.toUInt8) : c ∉ formatLong v := by
  intro member
  rcases formatLong_chars v c member with same | ⟨d, small, same⟩
  · exact minus same
  · exact digits d small same

/-- Every number is written as it is, without quotes and on one line. -/
theorem plain_setting (kval : SysHeloConfigValue) (v : UInt64) :
    Plain (sysHeloFormatConfigValue kval false, formatLong v) := by
  have key := format_plain kval
  have value := formatLong_length v
  have size : INI_BUFFERSIZE = 512 := rfl
  refine ⟨key.1, formatLong_ne (by decide) (by decide), ?_, by dsimp only; omega⟩
  have quote : '"'.toUInt8 ∉ formatLong v := formatLong_ne (by decide) (by decide)
  have semicolon : ';'.toUInt8 ∉ formatLong v := formatLong_ne (by decide) (by decide)
  have hash : '#'.toUInt8 ∉ formatLong v := formatLong_ne (by decide) (by decide)
  have space : ' '.toUInt8 ∉ formatLong v := formatLong_ne (by decide) (by decide)
  apply if_neg
  rintro (special | last)
  · obtain ⟨c, inside, same⟩ := List.any_eq_true.mp special
    rcases of_decide_eq_true same with rfl | rfl | rfl
    · exact quote inside
    · exact semicolon inside
    · exact hash inside
  · exact space (List.mem_of_getLast? last)

theorem plain_iniSettings (configValues : SysHeloConfigValueList) :
    ∀ setting ∈ iniSettings configValues, Plain setting := by
  intro setting member
  obtain ⟨kval, -, -, rfl⟩ := mem_iniSettings.mp member
  exact plain_setting kval (configValues kval)

/-- The longest line, newline included, that the line buffer holds. -/
def LINE_MAX : Nat := INI_BUFFERSIZE - 1

theorem readable_of_fits {text : List UInt8} (fits : Fits LINE_MAX text) (free : 0 ∉ text) :
    Readable (lines newline text) := by
  intro line member
  refine ⟨Nat.lt_of_le_of_lt (fits line member) (by decide), fun zero => free ?_⟩
  exact (mem_iff_lines newline).mpr ⟨line, member, zero⟩

/-- The list a successful call leaves in memory. -/
def acceptedValues (configValues : SysHeloConfigValueList) : SysHeloConfigValueList :=
  fun kval => accepted kval (configValues kval)

section Saving
variable {stack : Chars INI_BUFFERSIZE} {configValues : SysHeloConfigValueList} {immediate : Bool}
  {files : Files} {config : Config} {text : List UInt8}

/-- The configuration after a call that returned `saved`. -/
def applied (configValues : SysHeloConfigValueList) (immediate : Bool) (config : Config) (saved : Bool) :
    Config :=
  if saved ∧ immediate then { config with configValues := acceptedValues configValues } else config

theorem setConfigValues_of_iniPutsection {o : Outcomes} {files' : Files} {saved : Bool}
    (returns : Returns (iniPutsection stack o configValSection
      ((iniSettings configValues).map Prod.fst) ((iniSettings configValues).map Prod.snd) path files)
      (files', saved)) :
    Returns (setConfigValues stack o configValues immediate files config)
      (files', applied configValues immediate config saved, saved) := by
  apply Returns.bind returns
  unfold applied acceptedValues
  dsimp only
  split <;> exact Returns.pure _

theorem setConfigValues_inv {o : Outcomes} {result : Files × Config × Bool}
    (returns : Returns (setConfigValues stack o configValues immediate files config) result) :
    ∃ files' saved, Returns (iniPutsection stack o configValSection
        ((iniSettings configValues).map Prod.fst) ((iniSettings configValues).map Prod.snd) path files)
        (files', saved) ∧
      result = (files', applied configValues immediate config saved, saved) := by
  obtain ⟨⟨files', saved⟩, saving, -⟩ := (iniPutsection_stable _ _ _ _ _ _ _).bind_inv returns
  exact ⟨files', saved, saving, returns.unique (setConfigValues_of_iniPutsection saving)⟩

theorem setConfigValues_saved {o : Outcomes} {config' : Config} {saved : Bool} {files' : Files}
    (returns : Returns (setConfigValues stack o configValues immediate files config)
      (files', config', saved)) :
    saved = o.fopenWrite := by
  obtain ⟨files'', saved', saving, same⟩ := setConfigValues_inv returns
  obtain ⟨-, -, rfl⟩ := same
  exact iniPutsection_saved saving

theorem setConfigValues_stable (o : Outcomes) :
    Stable (setConfigValues stack o configValues immediate files config) := by
  apply Stable.bind (iniPutsection_stable _ _ _ _ _ _ _)
  rintro ⟨files', saved⟩
  dsimp only
  split <;> exact Stable.pure _

variable (stack configValues immediate config)

theorem setConfigValues_absent (absent : files path = none) :
    ∃ files', Returns (setConfigValues stack .ok configValues immediate files config)
        (files', applied configValues immediate config true, true) ∧
      files' path = some (sectionText configValSection (iniSettings configValues)) := by
  have missing : Files.fopenRead .ok files path = none := by simp [Files.fopenRead, absent]
  refine ⟨_, setConfigValues_of_iniPutsection (iniPutsection_missing named_configValSection
    (plain_iniSettings configValues) missing rfl), ?_⟩
  rw [Files.fclose, Function.update_self, stored_ok, flatten_sectionLog]

/-- The text has the settings' section, indented and on its last line, so that there is no end. -/
def Hangs (configValues : SysHeloConfigValueList) (text : List UInt8) : Prop :=
  iniSettings configValues ≠ [] ∧ IndentedLast configValSection text

theorem setConfigValues_present (present : files path = some text)
    (readable : Readable (lines newline text)) (ends : ¬ Hangs configValues text) :
    ∃ files' new, Returns (setConfigValues stack .ok configValues immediate files config)
        (files', applied configValues immediate config true, true) ∧
      files' path = some new ∧ Replaced configValSection (iniSettings configValues) text new := by
  obtain ⟨st, new, returns, rewritten, replaced⟩ := rewriteSection_spec readable named_configValSection
    (plain_iniSettings configValues) ends (iniTempname stack path)
  refine ⟨closeRename .ok files path st (tempname path), new, setConfigValues_of_iniPutsection ?_, ?_,
    replaced⟩
  · rw [iniPutsection_eq _ _ _ _ filename_path (Files.fopenRead_ok present) rfl]
    exact Returns.bind returns (Returns.pure _)
  · rw [closeRename_at filename_path, if_pos (show Outcomes.ok.rename = true from rfl), stored_ok,
      rewritten.content]

theorem setConfigValues_diverges (present : files path = some text)
    (readable : Readable (lines newline text)) (hangs : Hangs configValues text) :
    Diverges (setConfigValues stack .ok configValues immediate files config) := by
  refine Diverges.bind ?_ _
  rw [iniPutsection_eq _ _ _ _ filename_path (Files.fopenRead_ok present) rfl]
  exact (rewriteSection_diverges readable named_configValSection (plain_iniSettings configValues)
    hangs.1 hangs.2 _).bind _

variable {stack configValues immediate config}

/-- Whenever a call returns, the section has replaced the old one, or stands at the end. -/
theorem setConfigValues_replaces (present : files path = some text) (fits : Fits LINE_MAX text)
    (free : 0 ∉ text) {files' : Files} {config' : Config} {saved : Bool}
    (returns : Returns (setConfigValues stack .ok configValues immediate files config)
      (files', config', saved)) :
    ∃ new, files' path = some new ∧
      (HasSection configValSection text → new = before configValSection text ++
        sectionText configValSection (iniSettings configValues) ++ after configValSection text) ∧
      (¬ HasSection configValSection text →
        ∃ n, new = text ++ n ++ sectionText configValSection (iniSettings configValues) ∧
          (n = [newline] ∨ n = [] ∧ text.getLast? = some newline)) := by
  have readable := readable_of_fits fits free
  by_cases hangs : Hangs configValues text
  · exact absurd returns
      ((setConfigValues_diverges stack configValues immediate config present readable hangs).not_returns _)
  · obtain ⟨files'', new, saving, content, replaced⟩ := setConfigValues_present stack
      configValues immediate config present readable hangs
    obtain ⟨rfl, -⟩ := Prod.mk.inj (returns.unique saving)
    exact ⟨new, content, replaced.found, replaced.missing⟩

/-- A card whose configuration file has this text. -/
def card (text : String) : Files := Function.update (fun _ => none) path (some (bytes text))

theorem card_path (text : String) : card text path = some (bytes text) := Function.update_self ..

def emptyCard : Files := fun _ => none

theorem emptyCard_path : emptyCard path = none := rfl

theorem setConfigValues_replaces_middle :
    ∃ files' config' saved,
      Returns (setConfigValues (.replicate _ 0) .ok (fun _ => 500) true
        (card "a=1\n[VALUES]\nb=2\n[other]\n") createDefault) (files', config', saved) ∧
      files' path = some (bytes "a=1\n[values]\ntick_interval_ms=500\n\n[other]\n") := by
  have fits : Fits LINE_MAX (bytes "a=1\n[VALUES]\nb=2\n[other]\n") := by decide
  obtain ⟨files', new, returns, -⟩ := setConfigValues_present (.replicate _ 0) (fun _ => 500) true
    createDefault (card_path _) (readable_of_fits fits (by decide))
    (fun hangs => absurd hangs.2 (by decide))
  obtain ⟨new', content, found, -⟩ := setConfigValues_replaces (card_path _) fits (by decide) returns
  refine ⟨files', _, true, returns, content.trans (congrArg some ?_)⟩
  rw [found (by decide)]
  decide

/-- A call returns, and finds every count it flushes, unless the text ends with the section's
indented header and there is something to write. -/
theorem setConfigValues_returns_iff
    (texts : ∀ text, files path = some text → Fits LINE_MAX text ∧ 0 ∉ text) :
    ((∃ result, Returns (setConfigValues stack .ok configValues immediate files config) result) ∧
        ∀ text st, files path = some text →
          Returns (rewriteSection configValSection ((iniSettings configValues).map Prod.fst)
            ((iniSettings configValues).map Prod.snd) (.start (iniTempname stack path) text)) st →
          ∀ flush ∈ st.flushes, Supplied text flush) ↔
      ¬ ∃ text, files path = some text ∧ iniSettings configValues ≠ [] ∧
        IndentedLast configValSection text := by
  cases present : files path with
  | none =>
    obtain ⟨files', returns, -⟩ := setConfigValues_absent stack configValues immediate config present
    exact iff_of_true ⟨⟨_, returns⟩, fun _ _ bad => by contradiction⟩ (by rintro ⟨_, bad, -⟩; contradiction)
  | some text =>
    obtain ⟨fits, free⟩ := texts text present
    have readable := readable_of_fits fits free
    by_cases hangs : Hangs configValues text
    · refine iff_of_false ?_ (not_not.mpr ⟨text, rfl, hangs⟩)
      rintro ⟨⟨result, returns⟩, -⟩
      exact (setConfigValues_diverges stack configValues immediate config present readable
        hangs).not_returns result returns
    · obtain ⟨files', new, returns, -⟩ :=
        setConfigValues_present stack configValues immediate config present readable hangs
      refine iff_of_true ⟨⟨_, returns⟩, ?_⟩ (by
        rintro ⟨text', same, hung⟩
        exact hangs (Option.some.inj same ▸ hung))
      rintro text' st same rewriting
      obtain rfl := Option.some.inj same
      obtain ⟨st', out, again, rewritten, -⟩ := rewriteSection_spec readable named_configValSection
        (plain_iniSettings configValues) hangs (iniTempname stack path)
      obtain rfl := rewriting.unique again
      exact fun flush member => (rewritten.counted flush member).supplied

end Saving

/-- A blank before the last line's header is enough. -/
theorem setConfigValues_hangs :
    (∀ text, card " [values]\n" path = some text → Fits LINE_MAX text ∧ 0 ∉ text) ∧
      ¬ ∃ result, Returns (setConfigValues (.replicate _ 0) .ok (fun _ => 500) true
        (card " [values]\n") createDefault) result := by
  have fits : Fits LINE_MAX (bytes " [values]\n") := by decide
  have free : 0 ∉ bytes " [values]\n" := by decide
  constructor
  · intro text present
    rw [card_path, Option.some.injEq] at present
    exact present ▸ ⟨fits, free⟩
  · rintro ⟨result, returns⟩
    have diverges := setConfigValues_diverges (.replicate _ 0) (fun _ => 500) true createDefault
      (card_path _) (readable_of_fits fits free) ⟨by decide, by decide⟩
    exact diverges.not_returns result returns

theorem setConfigValues_returns_middle :
    let text := bytes "a=1\n[VALUES]\nb=2\n[other]\n"
    (∃ result, Returns (setConfigValues (.replicate _ 0) .ok (fun _ => 500) true
        (card "a=1\n[VALUES]\nb=2\n[other]\n") createDefault) result) ∧
      ∀ st, Returns (rewriteSection configValSection ((iniSettings fun _ => 500).map Prod.fst)
          ((iniSettings fun _ => 500).map Prod.snd) (.start (iniTempname (.replicate _ 0) path) text)) st →
        ∀ flush ∈ st.flushes, Supplied text flush := by
  intro text
  have texts : ∀ text, card "a=1\n[VALUES]\nb=2\n[other]\n" path = some text → Fits LINE_MAX text ∧
      0 ∉ text := by
    intro text present
    rw [card_path, Option.some.injEq] at present
    exact present ▸ by decide
  obtain ⟨returns, counted⟩ := (setConfigValues_returns_iff texts).mpr (by
    rintro ⟨text, present, -, bad⟩
    rw [card_path, Option.some.injEq] at present
    exact absurd (present ▸ bad) (by decide))
  exact ⟨returns, fun st rewriting => counted text st (card_path _) rewriting⟩

end Config
end SysHelo
