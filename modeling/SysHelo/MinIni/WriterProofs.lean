import SysHelo.MinIni.Quoting

/-! What `putsection` writes, and what it leaves in the buffer. -/
namespace SysHelo.MinIni
open CString Stdio Lines Loop

/-! What the section is written as. -/

/-- Keys and values that are written as they are, on one line. -/
structure Plain (setting : List UInt8 × List UInt8) : Prop where
  key : 0 ∉ setting.1
  value : 0 ∉ setting.2
  unquoted : checkEnquote setting.2 = .none
  fits : setting.1.length + setting.2.length + 4 < INI_BUFFERSIZE

/-- A setting as `writekey` writes it. -/
def asWritten (setting : List UInt8 × List UInt8) : List UInt8 × List UInt8 := (setting.1, quoted setting.2)

theorem Plain.asWritten {setting : List UInt8 × List UInt8} (plain : Plain setting) :
    asWritten setting = setting := by
  have none : quoted setting.2 = setting.2 := by
    rw [quoted, plain.unquoted, if_neg (by decide)]
  exact Prod.ext rfl none

theorem Plain.writable {setting : List UInt8 × List UInt8} (plain : Plain setting) :
    Writable setting.1 setting.2 := by
  have same : quoted setting.2 = setting.2 := congrArg Prod.snd plain.asWritten
  exact ⟨plain.key, plain.value, by rw [same]; exact plain.fits⟩

theorem map_asWritten {settings : List (List UInt8 × List UInt8)}
    (plain : ∀ setting ∈ settings, Plain setting) :
    settings.map asWritten = settings := by
  rw [List.map_congr_left fun setting member => (plain setting member).asWritten, List.map_id']

theorem writesection_spec (w : Writer) {sectionName : List UInt8} (nonempty : sectionName ≠ [])
    (free : 0 ∉ sectionName) (fits : sectionName.length + 4 < INI_BUFFERSIZE) :
    (writesection w sectionName).wfp =
      w.wfp ++ ['['.toUInt8 :: sectionName ++ [']'.toUInt8, newline]] := by
  have opened : str (store (poke w.buf 0 '['.toUInt8) 1 (sectionName ++ [0])) 0 =
      '['.toUInt8 :: sectionName := by
    have := str_store (p := 0) w.buf (s := '['.toUInt8 :: sectionName)
      (by rw [List.mem_cons, not_or]; exact ⟨by decide, free⟩) (by simp; omega)
    simpa [store] using this
  have closed := str_poke_store (l := INI_LINETERM) (c := ']'.toUInt8) opened (by decide)
    (by decide) (by simp only [List.length_cons]; change _ + 1 < _; omega)
  simp only [writesection, if_neg nonempty, Writer.write, strcpy, strlen,
    iniStrncpy_none_text _ sectionName free (show sectionName.length < INI_BUFFERSIZE - 4 by omega),
    opened, closed]
  rfl

theorem writekey_spec (w : Writer) {setting : List UInt8 × List UInt8} (plain : Plain setting) :
    (writekey w setting.1 setting.2).wfp = w.wfp ++ [keyLine setting] ∧
      str (writekey w setting.1 setting.2).buf 0 = keyLine setting := by
  have line := writekey_quoted w plain.writable
  rwa [show (setting.1, quoted setting.2) = setting from plain.asWritten] at line

theorem putkeys_spec (w : Writer) {settings : List (List UInt8 × List UInt8)}
    (writable : ∀ setting ∈ settings, Writable setting.1 setting.2) :
    (putkeys w (settings.map Prod.fst) (settings.map Prod.snd)).wfp =
      w.wfp ++ (settings.map asWritten).map keyLine := by
  induction settings generalizing w with
  | nil => simp [putkeys]
  | cons setting settings ih =>
    rw [List.map_cons, List.map_cons, putkeys, ih _ (fun s member => writable s (by simp [member])),
      (writekey_quoted w (writable setting (by simp))).1]
    simp [asWritten]

/-- What is left in the buffer is the line of the last key. -/
theorem putkeys_buf (w : Writer) {settings : List (List UInt8 × List UInt8)}
    (writable : ∀ setting ∈ settings, Writable setting.1 setting.2) (nonempty : settings ≠ []) :
    ∃ setting ∈ settings,
      str (putkeys w (settings.map Prod.fst) (settings.map Prod.snd)).buf 0 = keyLine
        (asWritten setting) := by
  induction settings generalizing w with
  | nil => contradiction
  | cons setting settings ih =>
    rw [List.map_cons, List.map_cons, putkeys]
    by_cases last : settings = []
    · subst last
      exact ⟨setting, by simp, (writekey_quoted w (writable setting (by simp))).2⟩
    · obtain ⟨found, member, content⟩ := ih (writekey w setting.1 setting.2)
        (fun s member => writable s (by simp [member])) last
      exact ⟨found, by simp [member], content⟩

/-- A section name that `writesection` writes whole. -/
structure Named (sectionName : List UInt8) : Prop where
  nonempty : sectionName ≠ []
  free : 0 ∉ sectionName
  fits : sectionName.length + 4 < INI_BUFFERSIZE

instance (sectionName : List UInt8) : Decidable (Named sectionName) :=
  decidable_of_iff (sectionName ≠ [] ∧ 0 ∉ sectionName ∧ sectionName.length + 4 < INI_BUFFERSIZE)
    ⟨fun all => ⟨all.1, all.2.1, all.2.2⟩, fun named => ⟨named.nonempty, named.free, named.fits⟩⟩

theorem putsection_log (w : Writer) {sectionName : List UInt8} (named : Named sectionName)
    {settings : List (List UInt8 × List UInt8)}
      (writable : ∀ setting ∈ settings, Writable setting.1 setting.2) :
    (putsection w sectionName (settings.map Prod.fst) (settings.map Prod.snd)).wfp =
      w.wfp ++ sectionLog sectionName (settings.map asWritten) := by
  by_cases empty : settings = []
  · simp [putsection, sectionLog, empty]
  · have keys : settings.map Prod.fst ≠ [] ∧ settings.map Prod.snd ≠ [] := by simp [empty]
    rw [putsection, if_pos keys, Writer.write, putkeys_spec _ writable,
      writesection_spec w named.nonempty named.free named.fits, sectionLog, if_neg (by simp [empty])]
    simp [INI_LINETERM]
    rfl

theorem putsection_spec (w : Writer) {sectionName : List UInt8} (named : Named sectionName)
    {settings : List (List UInt8 × List UInt8)}
      (writable : ∀ setting ∈ settings, Writable setting.1 setting.2) :
    (putsection w sectionName (settings.map Prod.fst) (settings.map Prod.snd)).wfp.flatten =
      w.wfp.flatten ++ sectionText sectionName (settings.map asWritten) := by
  rw [putsection_log w named writable, List.flatten_append, flatten_sectionLog]

theorem putsection_buf (w : Writer) (sectionName : List UInt8)
    {settings : List (List UInt8 × List UInt8)}
      (writable : ∀ setting ∈ settings, Writable setting.1 setting.2) :
    (settings = [] →
      (putsection w sectionName (settings.map Prod.fst) (settings.map Prod.snd)).buf = w.buf) ∧
    (settings ≠ [] → ∃ setting ∈ settings,
      str (putsection w sectionName (settings.map Prod.fst) (settings.map Prod.snd)).buf 0 =
        keyLine (asWritten setting)) := by
  constructor
  · intro empty
    simp [putsection, empty]
  · intro nonempty
    have keys : settings.map Prod.fst ≠ [] ∧ settings.map Prod.snd ≠ [] := by simp [nonempty]
    rw [putsection, if_pos keys]
    exact putkeys_buf _ writable nonempty

end SysHelo.MinIni
