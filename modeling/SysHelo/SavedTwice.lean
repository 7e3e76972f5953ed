import SysHelo.ConfigReread
import SysHelo.MinIni.Resave

/-! Saving the same values twice: when the second save leaves the file as the first one has. -/
namespace SysHelo
open CString Stdio Lines Loop MinIni

namespace Config

theorem readable_sectionLog (configValues : SysHeloConfigValueList) :
    Readable (sectionLog configValSection (iniSettings configValues)) := by
  intro line member
  obtain ⟨short, free⟩ := sectionLog_bounds member
  exact ⟨Nat.lt_of_le_of_lt short (by decide), free⟩

section Saving
variable {stack : Chars INI_BUFFERSIZE} {configValues : SysHeloConfigValueList} {immediate saved : Bool}
  {files files' : Files} {config config' : Config} {pieces : List (List UInt8)}

theorem setConfigValues_content (cut : Cut newline (INI_BUFFERSIZE - 1) pieces) (readable : Readable pieces)
    (present : files path = some pieces.flatten)
    (returns : Returns (setConfigValues stack .ok configValues immediate files config)
      (files', config', saved)) :
    files' path = some (rewrittenText configValSection (iniSettings configValues) pieces) := by
  obtain ⟨files'', saved', saving, same⟩ := setConfigValues_inv returns
  obtain ⟨rfl, -⟩ := Prod.mk.inj same
  rw [iniPutsection_eq _ _ _ _ filename_path (Files.fopenRead_ok present) rfl] at saving
  obtain ⟨st, rewriting, closed⟩ := (rewriteSection_stable _ _ _ _).bind_inv saving
  have kept := (Prod.mk.inj (closed.unique (Returns.pure _))).1
  have log := rewriteSection_returned cut (fun line member => readable line (keptPieces_mem member))
    named_configValSection (plain_iniSettings configValues) rewriting
  rw [kept, closeRename_at filename_path, if_pos (show Outcomes.ok.rename = true from rfl), stored_ok, log,
    flatten_rewrittenLog]

/-- The file that a save of this list finds, and that a second one leaves as the first has. -/
def Settles (configValues : SysHeloConfigValueList) : Option (List UInt8) → Prop
  | none => iniSettings configValues ≠ []
  | some text => Settled configValSection (iniSettings configValues) text

/-- What the first save leaves, as the second one reads it. -/
theorem setConfigValues_leaves (texts : ∀ text, files path = some text → Fits LINE_MAX text ∧ 0 ∉ text)
    (returns : Returns (setConfigValues stack .ok configValues immediate files config)
      (files', config', saved)) :
    ∃ pieces, Cut newline (INI_BUFFERSIZE - 1) pieces ∧ Readable pieces ∧ files' path = some pieces.flatten ∧
      (rewrittenText configValSection (iniSettings configValues) pieces = pieces.flatten ↔
        Settles configValues (files path)) := by
  have legible := legible_iniSettings configValues
  have written := readable_sectionLog configValues
  cases present : files path with
  | none =>
    obtain ⟨files'', saving, content⟩ := setConfigValues_absent stack configValues immediate config present
    obtain ⟨rfl, -⟩ := Prod.mk.inj (returns.unique saving)
    refine ⟨sectionLog configValSection (iniSettings configValues),
      cut_sectionLog newline_not_mem_values legible written, written, by rw [content, flatten_sectionLog], ?_⟩
    by_cases empty : iniSettings configValues = []
    · refine iff_of_false (fun same => ?_) (not_not.mpr empty)
      rw [empty] at same
      exact absurd same (by decide)
    · have log := rewrittenText_log configValSection [] [] empty legible (by simp) rfl
      rw [List.append_nil, List.nil_append] at log
      exact iff_of_true log empty
  | some text =>
    obtain ⟨fits, free⟩ := texts text present
    have readable := readable_of_fits fits free
    obtain ⟨pieces, cut, whole, content, settled⟩ :=
      rewrittenText_twice newline_not_mem_values legible written readable
    refine ⟨pieces, cut, whole, ?_, settled⟩
    rw [content]
    exact setConfigValues_content (cut_lines readable) readable (by rw [present, flatten_lines]) returns

/-- When the same list has been saved twice, the file is as after the first save exactly under the
condition on what the first one found. -/
theorem setConfigValues_idempotent_iff {stack' : Chars INI_BUFFERSIZE} {files'' : Files}
    {config₁ config₂ : Config}
    (texts : ∀ text, files path = some text → Fits LINE_MAX text ∧ 0 ∉ text)
    (first : Returns (setConfigValues stack .ok configValues immediate files config) (files', config', true))
    (second : Returns (setConfigValues stack' .ok configValues immediate files' config₁)
      (files'', config₂, true)) :
    files'' path = files' path ↔ Settles configValues (files path) := by
  obtain ⟨pieces, cut, readable, content, settles⟩ := setConfigValues_leaves texts first
  rw [setConfigValues_content cut readable content second, content, Option.some.injEq]
  exact settles

theorem exists_save {text : List UInt8} (present : files path = some text) (fits : Fits LINE_MAX text)
    (free : 0 ∉ text) (ends : ¬ Hangs configValues text) (stack : Chars INI_BUFFERSIZE) (immediate : Bool)
      (config : Config) :
    ∃ files', Returns (setConfigValues stack .ok configValues immediate files config)
        (files', applied configValues immediate config true, true) ∧
      files' path = some (rewrittenText configValSection (iniSettings configValues)
        (lines newline text)) := by
  have readable := readable_of_fits fits free
  obtain ⟨files', -, returns, -⟩ := setConfigValues_present stack configValues immediate config present
    readable ends
  refine ⟨files', returns, setConfigValues_content (cut_lines readable) readable ?_ returns⟩
  rw [present, flatten_lines]

end Saving

/-- Without a file, values that are not all default are saved as they are saved again. -/
theorem setConfigValues_idempotent_iff_new :
    ∃ files₁ config₁ files₂ config₂,
      Returns (setConfigValues (.replicate _ 0) .ok (fun _ => 500) true emptyCard createDefault)
        (files₁, config₁, true) ∧
      Returns (setConfigValues (.replicate _ 0) .ok (fun _ => 500) true files₁ config₁)
        (files₂, config₂, true) ∧
      files₂ path = files₁ path := by
  obtain ⟨files₁, first, content⟩ := setConfigValues_absent (.replicate _ 0) (fun _ => 500) true createDefault
    emptyCard_path
  obtain ⟨files₂, second, -⟩ := exists_save content (by decide) (by decide)
    (fun hangs => absurd hangs.2 (by decide))
    (.replicate _ 0) true (applied (fun _ => 500) true createDefault true)
  refine ⟨files₁, _, files₂, _, first, second, ?_⟩
  have none (text : List UInt8) (present : emptyCard path = some text) : Fits LINE_MAX text ∧ 0 ∉ text := by
    contradiction
  exact (setConfigValues_idempotent_iff none first second).mpr (by decide : iniSettings (fun _ => 500) ≠ [])

/-- Defaults saved without a file give an empty one, and saved again a newline; and of two sections each save
removes one. -/
theorem not_idempotent :
    (∃ files₁ config₁ files₂ config₂,
      Returns (setConfigValues (.replicate _ 0) .ok sysHeloDefaultConfigValue true emptyCard createDefault)
        (files₁, config₁, true) ∧
      Returns (setConfigValues (.replicate _ 0) .ok sysHeloDefaultConfigValue true files₁ config₁)
        (files₂, config₂, true) ∧
      files₁ path = some [] ∧ files₂ path = some [newline]) ∧
    ∃ files₁ config₁ files₂ config₂,
      Returns (setConfigValues (.replicate _ 0) .ok sysHeloDefaultConfigValue true
        (card "[values]\n[values]\na=1\n") createDefault) (files₁, config₁, true) ∧
      Returns (setConfigValues (.replicate _ 0) .ok sysHeloDefaultConfigValue true files₁ config₁)
        (files₂, config₂, true) ∧
      files₁ path = some (bytes "[values]\na=1\n") ∧ files₂ path = some [] := by
  have nothing : iniSettings sysHeloDefaultConfigValue = [] := by decide
  have ends (text : List UInt8) : ¬ Hangs sysHeloDefaultConfigValue text := fun hangs => hangs.1 nothing
  constructor
  · obtain ⟨files₁, first, content⟩ := setConfigValues_absent (.replicate _ 0) sysHeloDefaultConfigValue true
      createDefault emptyCard_path
    obtain ⟨files₂, second, again⟩ := exists_save content (by decide) (by decide) (ends _)
      (.replicate _ 0) true
      (applied sysHeloDefaultConfigValue true createDefault true)
    refine ⟨files₁, _, files₂, _, first, second, content.trans (congrArg some ?_),
      again.trans (congrArg some ?_)⟩
    · decide
    · decide
  · obtain ⟨files₁, first, content⟩ := exists_save (card_path "[values]\n[values]\na=1\n")
      (by decide) (by decide)
      (ends _) (.replicate _ 0) true createDefault
    have left : files₁ path = some (bytes "[values]\na=1\n") := content.trans (congrArg some (by decide))
    obtain ⟨files₂, second, again⟩ := exists_save left (by decide) (by decide) (ends _) (.replicate _ 0) true
      (applied sysHeloDefaultConfigValue true createDefault true)
    exact ⟨files₁, _, files₂, _, first, second, left, again.trans (congrArg some (by decide))⟩

end Config
end SysHelo
