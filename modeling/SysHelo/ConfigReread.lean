import SysHelo.ConfigSave
import SysHelo.MinIni.Reread

/-! Loading a file again after it has been saved: the writer and the reader do not agree on what
the section is, so what was saved is only read back when nothing below the section names a key. -/
namespace SysHelo
open CString Stdio Numeral Lines Loop MinIni

namespace Config

theorem format_legible (kval : SysHeloConfigValue) :
    (∀ c ∈ sysHeloFormatConfigValue kval false,
      ¬ blank c ∧ c ≠ '='.toUInt8 ∧ c ≠ ';'.toUInt8 ∧ c ≠ '#'.toUInt8 ∧ c ≠ '['.toUInt8) ∧
    sysHeloFormatConfigValue kval false ≠ [] := by
  cases kval
  have each : ((sysHeloFormatConfigValue .tickIntervalMs false).all fun c =>
      ¬ blank c ∧ c ≠ '='.toUInt8 ∧ c ≠ ';'.toUInt8 ∧ c ≠ '#'.toUInt8 ∧ c ≠ '['.toUInt8) = true := by decide
  exact ⟨fun c member => of_decide_eq_true (List.all_eq_true.mp each c member), by decide⟩

theorem decimal_legible {c : UInt8} (digit : Decimal c) :
    ¬ blank c ∧ c ≠ '"'.toUInt8 ∧ c ≠ ';'.toUInt8 ∧ c ≠ '#'.toUInt8 := by
  obtain ⟨d, small, rfl⟩ := digit
  revert d
  decide

theorem legible_setting (kval : SysHeloConfigValue) (v : UInt64) :
    Legible (sysHeloFormatConfigValue kval false, formatLong v) := by
  refine ⟨(format_legible kval).1, (format_legible kval).2, fun c inside => ?_, formatLong_ne_nil v⟩
  rcases formatLong_chars v c inside with rfl | digit
  · decide
  · exact decimal_legible digit

theorem legible_iniSettings (configValues : SysHeloConfigValueList) :
    ∀ setting ∈ iniSettings configValues, Legible setting := by
  intro setting member
  obtain ⟨kval, -, -, rfl⟩ := mem_iniSettings.mp member
  exact legible_setting kval (configValues kval)

section Number
variable {kval : SysHeloConfigValue} {v : UInt64}

/-- The line of a key and the text of its value. -/
def valueLine (kval : SysHeloConfigValue) (text : List UInt8) : List UInt8 :=
  sysHeloFormatConfigValue kval false ++ bytes "=" ++ text ++ INI_LINETERM

theorem keyLine_number :
    keyLine (sysHeloFormatConfigValue kval false, formatLong v) = valueLine kval (formatLong v) := by
  simp [keyLine, valueLine, INI_LINETERM, bytes, newline]

theorem lines_number (rest : List UInt8) :
    lines newline (valueLine kval (formatLong v) ++ rest) =
      valueLine kval (formatLong v) :: lines newline rest := by
  have key : newline ∉ sysHeloFormatConfigValue kval false :=
    fun bad => ((format_legible kval).1 newline bad).1 (by decide)
  have value : newline ∉ formatLong v :=
    fun bad => ((legible_setting kval v).value newline bad).1 (by decide)
  have inside : newline ∉ sysHeloFormatConfigValue kval false ++ bytes "=" ++ formatLong v := by
    simp only [List.mem_append, not_or]
    exact ⟨⟨key, by decide⟩, value⟩
  have whole := lines_line newline inside rest
  have line : valueLine kval (formatLong v) =
      sysHeloFormatConfigValue kval false ++ bytes "=" ++ formatLong v ++ [newline] := rfl
  rw [line, List.append_assoc _ [newline], List.singleton_append, whole]

/-- A positive number is what `BrowseIniFunc` makes of the text that is written for it. -/
theorem browseIniFunc_number (positive : 0 < v) (config : Config) :
    browseIniFunc configValSection (sysHeloFormatConfigValue kval false) (formatLong v) config =
      ({ config with configValues := Function.update config.configValues kval v }, true) := by
  have valid : sysHeloValidConfigValue kval v := by
    cases kval
    exact decide_eq_true positive
  have spec := browseIniFunc_spec ⟨configValSection, sysHeloFormatConfigValue kval false, formatLong v⟩ config
  dsimp only at spec
  rw [spec]
  congr 2
  funext other
  by_cases same : other = kval
  · subst same
    simp [names, strtoul_formatLong positive, accepted, valid]
  · have named : ¬ names other ⟨configValSection, sysHeloFormatConfigValue kval false, formatLong v⟩ := by
      intro its
      have key := (Bool.and_eq_true_iff.mp its).2
      exact same (format_injective (of_decide_eq_true key).symm)
    rw [if_neg named, Function.update_of_ne same]

/-- A positive number is printed whole, is written on one line behind its key, and wherever that
line is read, in whatever section, its value is the number again. -/
theorem number_reread (kval : SysHeloConfigValue) (positive : 0 < v) :
    (snprintfLong 0x20 v = formatLong v ∧ (formatLong v).length + 1 ≤ 0x20) ∧
    (∀ w : Writer, (writekey w (sysHeloFormatConfigValue kval false) (snprintfLong 0x20 v)).wfp =
      w.wfp ++ [valueLine kval (snprintfLong 0x20 v)]) ∧
    (∀ (σ : Type) (callback : Callback σ) (user : σ) (b : Chars INI_BUFFERSIZE) (lenSec : Nat)
        (fp : ReadFile) (rest : List UInt8),
      (str b 0).length + 1 = lenSec →
      lenSec + (valueLine kval (snprintfLong 0x20 v)).length < INI_BUFFERSIZE →
      fp.remaining = valueLine kval (snprintfLong 0x20 v) ++ rest →
      ∃ buf next, fgets b lenSec (INI_BUFFERSIZE - lenSec) fp = some (buf, next) ∧ next.remaining = rest ∧
        InSection (browseLine callback buf lenSec user)
          (str b 0, callback (str b 0) (sysHeloFormatConfigValue kval false) (snprintfLong 0x20 v) user)) ∧
    ∀ config, browseIniFunc configValSection (sysHeloFormatConfigValue kval false)
      (snprintfLong 0x20 v) config =
      ({ config with configValues := Function.update config.configValues kval v }, true) := by
  have whole : snprintfLong 0x20 v = formatLong v := snprintfLong_eq v _ (by decide)
  have bound := formatLong_length v
  rw [whole]
  refine ⟨⟨rfl, by omega⟩, fun w => ?_, ?_, browseIniFunc_number positive⟩
  · rw [(writekey_spec w (plain_setting kval v)).1, keyLine_number]
  · intro σ callback user b lenSec fp rest named fits remaining
    have split : lines newline fp.remaining = valueLine kval (formatLong v) :: lines newline rest := by
      rw [remaining, lines_number]
    have free : 0 ∉ valueLine kval (formatLong v) := by
      have plain := plain_setting kval v
      simp only [valueLine, List.mem_append, not_or]
      exact ⟨⟨⟨plain.key, by decide⟩, plain.value⟩, by decide⟩
    have nameAt : str (store b lenSec (valueLine kval (formatLong v) ++ [0])) 0 = str b 0 :=
      str_store_outside _ _ (by omega)
    have pass := browseLine_spec callback user (by rw [nameAt]; exact named)
      (str_store b free (p := lenSec) fits) fits
    rw [nameAt, ← keyLine_number, parseLine_keyLine (legible_setting kval v), keyLine_number] at pass
    refine ⟨_, _, fgets_line split (by omega) b lenSec, ?_, pass⟩
    rw [remaining_next split, flatten_lines]

theorem number_reread_max :
    browseIniFunc configValSection (sysHeloFormatConfigValue .tickIntervalMs false)
        (snprintfLong 0x20 0xffffffffffffffff) createDefault =
      ({ createDefault with
          configValues := Function.update createDefault.configValues .tickIntervalMs 0xffffffffffffffff },
        true) :=
  (number_reread .tickIntervalMs (v := 0xffffffffffffffff) (by decide)).2.2.2 createDefault

end Number

theorem lastOr_append (start : UInt64) (kval : SysHeloConfigValue) (es es' : List Entry) :
    lastOr start kval (es ++ es') = lastOr (lastOr start kval es) kval es' := by
  induction es generalizing start with
  | nil => rfl
  | cons e es ih => rw [List.cons_append, lastOr_cons, lastOr_cons, ih]

theorem lastOr_outside (start : UInt64) (kval : SysHeloConfigValue) {es : List Entry}
    (outside : ∀ e ∈ es, e.sectionName ≠ configValSection) : lastOr start kval es = start := by
  induction es with
  | nil => rfl
  | cons e es ih =>
    have other : ¬ names kval e := by simp [names, outside e (by simp)]
    rw [lastOr_cons, if_neg other, ih fun d member => outside d (by simp [member])]

theorem lastOr_constant {start value : UInt64} {kval : SysHeloConfigValue} {es : List Entry}
    (same : ∀ e ∈ es, names kval e → accepted kval (strtoul e.value) = value) :
    lastOr start kval es = if ∃ e ∈ es, names kval e then value else start := by
  induction es generalizing start with
  | nil => simp [lastOr]
  | cons e es ih =>
    rw [lastOr_cons, ih fun d member => same d (by simp [member])]
    by_cases later : ∃ d ∈ es, names kval d
    · rw [if_pos later, if_pos (by simpa using .inr later)]
    · rw [if_neg later]
      by_cases named : names kval e
      · rw [if_pos named, if_pos ⟨e, by simp, named⟩, same e (by simp) named]
      · rw [if_neg named, if_neg (by simpa [named] using later)]

theorem valid_positive {kval : SysHeloConfigValue} {input : UInt64}
    (valid : sysHeloValidConfigValue kval input) : 0 < input := by
  cases kval
  simpa [sysHeloValidConfigValue] using valid

theorem names_settingEntries {configValues : SysHeloConfigValueList} {kval : SysHeloConfigValue}
    {e : Entry} (member : e ∈ settingEntries configValSection (iniSettings configValues))
    (named : names kval e) :
    sysHeloValidConfigValue kval (configValues kval) ∧ e.value = formatLong (configValues kval) := by
  obtain ⟨setting, inside, rfl⟩ := List.mem_map.mp member
  obtain ⟨kval', valid, -, rfl⟩ := mem_iniSettings.mp inside
  have key : sysHeloFormatConfigValue kval' false = sysHeloFormatConfigValue kval false :=
    of_decide_eq_true (Bool.and_eq_true_iff.mp named).2
  obtain rfl := format_injective key
  exact ⟨valid, rfl⟩

theorem lastOr_iniSettings (configValues : SysHeloConfigValueList) (kval : SysHeloConfigValue) :
    lastOr (sysHeloDefaultConfigValue kval) kval
        (settingEntries configValSection (iniSettings configValues)) =
      acceptedValues configValues kval := by
  have same : ∀ e ∈ settingEntries configValSection (iniSettings configValues), names kval e →
      accepted kval (strtoul e.value) = acceptedValues configValues kval := by
    intro e member named
    obtain ⟨valid, value⟩ := names_settingEntries member named
    rw [value, strtoul_formatLong (valid_positive valid), acceptedValues]
  rw [lastOr_constant same]
  split
  · rfl
  · rename_i absent
    unfold acceptedValues accepted
    split
    · rename_i valid
      by_contra other
      refine absent ⟨⟨configValSection, sysHeloFormatConfigValue kval false, formatLong (configValues kval)⟩,
        List.mem_map.mpr ⟨_, mem_iniSettings.mpr ⟨kval, valid, Ne.symm other, rfl⟩, rfl⟩, ?_⟩
      simp [names]
    · rfl

theorem newline_not_mem_values : newline ∉ configValSection := by decide

/-- What the new text gives a key is what the list gives it, overruled by the entries below. -/
theorem reading_replaced {configValues : SysHeloConfigValueList} {text out : List UInt8}
    (replaced : Replaced configValSection (iniSettings configValues) text out) (kval : SysHeloConfigValue) :
    reading out kval = lastOr (acceptedValues configValues kval) kval
      (entriesBelow configValSection (iniSettings configValues) text) := by
  obtain ⟨front, outside, split⟩ := replaced.readEntries newline_not_mem_values
    (legible_iniSettings configValues) named_configValSection.nonempty
  rw [reading, split, lastOr_append, lastOr_append, lastOr_outside _ kval outside, lastOr_iniSettings]

/-- The entries below the section leave every value as it is saved. -/
def KeepsSaved (configValues : SysHeloConfigValueList) (text : List UInt8) : Prop :=
  ∀ kval, lastOr (acceptedValues configValues kval) kval
    (entriesBelow configValSection (iniSettings configValues) text) = acceptedValues configValues kval

theorem sectionLog_bounds {configValues : SysHeloConfigValueList} {line : List UInt8}
    (member : line ∈ sectionLog configValSection (iniSettings configValues)) :
    line.length ≤ 100 ∧ 0 ∉ line := by
  unfold sectionLog at member
  split at member
  · simp at member
  · simp only [List.mem_append, List.mem_cons, List.mem_map, List.not_mem_nil, or_false] at member
    rcases member with (rfl | ⟨setting, inside, rfl⟩) | rfl
    · decide
    · obtain ⟨kval, -, -, rfl⟩ := mem_iniSettings.mp inside
      have plain := plain_iniSettings configValues _ inside
      have key := (format_plain kval).2
      have value := formatLong_length (configValues kval)
      refine ⟨by simp [keyLine]; omega, ?_⟩
      simp only [keyLine, List.mem_append, List.mem_cons, List.not_mem_nil, or_false, not_or]
      exact ⟨⟨plain.key, by decide, plain.value⟩, by decide⟩
    · decide

theorem room_of_lines {out : List UInt8}
    (each : ∀ line ∈ lines newline out, line.length ≤ LINE_ROOM ∧ 0 ∉ line) :
    Fits LINE_ROOM out ∧ 0 ∉ out := by
  constructor
  · intro line member
    exact (each line member).1
  · intro bad
    obtain ⟨line, member, inside⟩ := (mem_iff_lines newline).mp bad
    exact (each line member).2 inside

theorem lines_sectionText (configValues : SysHeloConfigValueList) :
    lines newline (sectionText configValSection (iniSettings configValues)) =
      sectionLog configValSection (iniSettings configValues) := by
  have split := lines_flatten newline (sectionLog_whole newline_not_mem_values
    (legible_iniSettings configValues)) []
  rwa [List.append_nil, flatten_sectionLog, lines_nil, List.append_nil] at split

theorem reading_sectionText (configValues : SysHeloConfigValueList) (kval : SysHeloConfigValue) :
    reading (sectionText configValSection (iniSettings configValues)) kval =
      acceptedValues configValues kval := by
  have log := @entries_sectionLog configValSection _ (legible_iniSettings configValues) [] []
  rw [List.append_nil, entries, List.append_nil] at log
  rw [reading, readEntries, lines_sectionText, log, lastOr_iniSettings]

theorem room_sectionText (configValues : SysHeloConfigValueList) :
    Fits LINE_ROOM (sectionText configValSection (iniSettings configValues)) ∧
      0 ∉ sectionText configValSection (iniSettings configValues) := by
  apply room_of_lines
  intro line member
  rw [lines_sectionText] at member
  exact ⟨(sectionLog_bounds member).1.trans (by decide), (sectionLog_bounds member).2⟩

theorem room_replaced {configValues : SysHeloConfigValueList} {text out : List UInt8}
    (replaced : Replaced configValSection (iniSettings configValues) text out)
    (fits : Fits LINE_LIMIT text) (free : 0 ∉ text) : Fits LINE_ROOM out ∧ 0 ∉ out := by
  have zero {line : List UInt8} (member : line ∈ lines newline text) : 0 ∉ line := by
    intro bad
    exact free ((mem_iff_lines newline).mpr ⟨line, member, bad⟩)
  apply room_of_lines
  intro line member
  rcases replaced.mem_lines newline_not_mem_values (legible_iniSettings configValues) member with
    old | new | rfl | ⟨last, old, -, rfl⟩
  · exact ⟨fits_room fits line old, zero old⟩
  · exact ⟨(sectionLog_bounds new).1.trans (by decide), (sectionLog_bounds new).2⟩
  · decide
  · have short : LINE_LIMIT + 1 ≤ LINE_ROOM := by decide
    have bound := fits last old
    refine ⟨by rw [List.length_append, List.length_singleton]; omega, ?_⟩
    simp only [List.mem_append, List.mem_singleton, not_or]
    exact ⟨zero old, by decide⟩

end Config

end SysHelo
