import SysHelo.ConfigSave
import SysHelo.MinIni.PutsectionDocument

/-! Saving when file operations fail. The call reports success whenever the file to write could
be opened; what is at the path then depends on every operation after that. -/
namespace SysHelo
open CString Stdio Lines Loop MinIni

namespace Config

/-- The complete new content, whatever was in the file: the section alone where there is no file, else the
text with the section in the place of the old one, or behind its last line. -/
def savedText (configValues : SysHeloConfigValueList) : Option (List UInt8) → List UInt8
  | none => sectionText configValSection (iniSettings configValues)
  | some text => rewrittenText configValSection (iniSettings configValues) (readPieces text)

/-- All or nothing: the new content and the new list, or the file and the list as they were. -/
def AllOrNothing (configValues : SysHeloConfigValueList) (files : Files) (config : Config) :
    Files × Config × Bool → Prop
  | (files', config', true) => files' path = some (savedText configValues (files path)) ∧
      config'.configValues = acceptedValues configValues
  | (files', config', false) => files' path = files path ∧ config'.configValues = config.configValues

/-- The strings of the section, and those that a text is copied with around it. -/
def savedLog (configValues : SysHeloConfigValueList) : Option (List UInt8) → List (List UInt8)
  | none => sectionLog configValSection (iniSettings configValues)
  | some text => rewrittenLog configValSection (iniSettings configValues) (readPieces text)

/-- The outcomes that do no harm to a file. It cannot be opened for writing; or all that is written is
stored, no NUL is to be copied, and the new file gets its name; or the two last operations fail on a text
that would not have changed. Where an old file cannot be opened, it must be one that holds nothing else. -/
def Harmless (o : Outcomes) (configValues : SysHeloConfigValueList) (old : Option (List UInt8)) : Prop :=
  o.fopenWrite → match old with
    | none => o.Whole (savedLog configValues none)
    | some text =>
      if o.fopenRead then
        o.rename ∧ 0 ∉ (keptPieces configValSection (readPieces text)).flatten ∧
            o.Whole (savedLog configValues (some text)) ∨
          ¬ o.rename ∧ ¬ o.remove ∧ savedText configValues (some text) = text
      else o.Whole (savedLog configValues none) ∧
        savedText configValues (some text) = savedText configValues none

theorem flatten_savedLog (configValues : SysHeloConfigValueList) (old : Option (List UInt8)) :
    (savedLog configValues old).flatten = savedText configValues old := by
  cases old with
  | none => exact flatten_sectionLog _ _
  | some text => exact flatten_rewrittenLog _ _ _

theorem savedText_split (configValues : SysHeloConfigValueList) (text : List UInt8) :
    ∃ front back, savedText configValues (some text) = front ++ savedText configValues none ++ back ∧
      ∀ c ∈ (keptPieces configValSection (readPieces text)).flatten, c ∈ savedText configValues
        (some text) := by
  unfold savedText rewrittenText keptPieces
  dsimp only
  split
  · refine ⟨_, _, rfl, fun c member => ?_⟩
    rw [List.flatten_append, List.mem_append] at member
    rw [List.mem_append, List.mem_append]
    exact member.elim (fun above => .inl (.inl above)) .inr
  · refine ⟨_, [], (List.append_nil _).symm, fun c member => ?_⟩
    rw [List.mem_append, List.mem_append]
    exact .inl (.inl member)

section Failing
variable {stack : Chars INI_BUFFERSIZE} {o : Outcomes} {configValues : SysHeloConfigValueList}
  {files : Files} {config : Config} {text : List UInt8}

theorem setConfigValues_rewrites (present : Files.fopenRead o files path = some ⟨text, 0⟩)
    (opened : o.fopenWrite) {result : Files × Config × Bool} :
    Returns (setConfigValues stack o configValues true files config) result ↔
      ∃ st, Returns (rewriteSection configValSection ((iniSettings configValues).map Prod.fst)
          ((iniSettings configValues).map Prod.snd) (.start (iniTempname stack path) text)) st ∧
        result = (closeRename o files path st (tempname path), applied configValues true config true,
          true) := by
  have rewriting := iniPutsection_eq stack configValSection ((iniSettings configValues).map Prod.fst)
    ((iniSettings configValues).map Prod.snd) filename_path present opened
  have saved (st : Rewrite) (returns : Returns (rewriteSection configValSection
      ((iniSettings configValues).map Prod.fst) ((iniSettings configValues).map Prod.snd)
      (.start (iniTempname stack path) text)) st) :
      Returns (setConfigValues stack o configValues true files config)
        (closeRename o files path st (tempname path), applied configValues true config true, true) := by
    apply setConfigValues_of_iniPutsection
    rw [rewriting]
    exact Returns.bind returns (Returns.pure _)
  constructor
  · intro returns
    obtain ⟨files', ok, saving, -⟩ := setConfigValues_inv returns
    rw [rewriting] at saving
    obtain ⟨st, rewritten, -⟩ := (rewriteSection_stable _ _ _ _).bind_inv saving
    exact ⟨st, rewritten, returns.unique (saved st rewritten)⟩
  · rintro ⟨st, rewritten, rfl⟩
    exact saved st rewritten

/-- What has been written of a text is its new content, unless a NUL is to be copied: then it is not. -/
theorem stored_rewritten {st : Rewrite} (rewritten : Returns (rewriteSection configValSection
      ((iniSettings configValues).map Prod.fst) ((iniSettings configValues).map Prod.snd)
      (.start (iniTempname stack path) text)) st) :
    o.stored st.wfp = savedText configValues (some text) ↔
      0 ∉ (keptPieces configValSection (readPieces text)).flatten ∧
        o.Whole (savedLog configValues (some text)) := by
  obtain ⟨cut, whole⟩ := readPieces_spec text
  by_cases free : 0 ∉ (keptPieces configValSection (readPieces text)).flatten
  · have readable : Readable (keptPieces configValSection (readPieces text)) := fun line member =>
      ⟨cut_fits cut (keptPieces_mem member), fun zero => free (List.mem_flatten.mpr ⟨line, member, zero⟩)⟩
    rw [← whole] at rewritten
    have log := rewriteSection_returned cut readable named_configValSection (plain_iniSettings configValues)
      rewritten
    rw [log, ← flatten_savedLog, and_iff_right free]
    exact stored_eq o _
  · refine iff_of_false (fun same => ?_) fun both => free both.1
    obtain ⟨front, back, -, copied⟩ := savedText_split configValues text
    have clean := (@rewriteSection_clean (.start (iniTempname stack path) text) List.not_mem_nil _ _
      _).of_returns rewritten
    have zero := copied 0 (not_not.mp free)
    rw [← same] at zero
    exact clean (stored_mem zero)

/-- The section alone is the new content of a text only when it is stored whole and nothing else is in it. -/
theorem stored_section :
    o.stored (savedLog configValues none) = savedText configValues (some text) ↔
      o.Whole (savedLog configValues none) ∧ savedText configValues (some text) =
        savedText configValues none := by
  obtain ⟨front, back, split, -⟩ := savedText_split configValues text
  have short := stored_length_le o (savedLog configValues none)
  rw [← stored_eq, flatten_savedLog]
  rw [flatten_savedLog] at short
  constructor
  · intro same
    have total := congrArg List.length same
    rw [split] at total
    simp only [List.length_append] at total
    have alone : savedText configValues (some text) = savedText configValues none := by
      obtain rfl : front = [] := List.eq_nil_of_length_eq_zero (by omega)
      obtain rfl : back = [] := List.eq_nil_of_length_eq_zero (by omega)
      simpa using split
    exact ⟨same.trans alone, alone⟩
  · rintro ⟨whole, alone⟩
    exact whole.trans alone.symm

theorem applied_values : (applied configValues true config true).configValues =
    acceptedValues configValues := rfl

/-- Every call that returns is all or nothing exactly when the operations end harmlessly. -/
theorem setConfigValues_allOrNothing_iff {result : Files × Config × Bool}
    (returns : Returns (setConfigValues stack o configValues true files config) result) :
    AllOrNothing configValues files config result ↔ Harmless o configValues (files path) := by
  by_cases opened : o.fopenWrite
  · -- the section alone, where no text can be read
    have alone (missing : Files.fopenRead o files path = none) :
        AllOrNothing configValues files config result ↔
          o.stored (savedLog configValues none) = savedText configValues (files path) := by
      obtain rfl := returns.unique (setConfigValues_of_iniPutsection
        (iniPutsection_missing named_configValSection (plain_iniSettings configValues) missing opened))
      simp only [AllOrNothing, Files.fclose, Function.update_self, Option.some.injEq,
        applied_values, and_true,
        savedLog]
    cases present : files path with
    | none =>
      rw [alone (by simp [Files.fopenRead, present]), present, ← flatten_savedLog, stored_eq]
      simp only [Harmless, opened, true_imp_iff]
    | some text =>
      by_cases readable : o.fopenRead
      · have both : Files.fopenRead o files path = some ⟨text, 0⟩ := by
          simp [Files.fopenRead, present, readable]
        obtain ⟨st, rewritten, rfl⟩ := (setConfigValues_rewrites both opened).mp returns
        simp only [AllOrNothing, Harmless, opened, present, closeRename_at filename_path,
          applied_values, and_true,
          true_imp_iff, if_pos readable, ← stored_rewritten rewritten]
        cases o.rename <;> cases o.remove <;> simp [eq_comm (a := text)]
      · rw [alone (by simp [Files.fopenRead, readable]), present, stored_section]
        simp only [Harmless, opened, true_imp_iff, if_neg readable]
  · obtain rfl := returns.unique (setConfigValues_of_iniPutsection (iniPutsection_refused opened))
    exact iff_of_true ⟨rfl, rfl⟩ (fun bad => absurd bad opened)

/-- The old file cannot be removed, but the new one still takes its name. -/
theorem setConfigValues_allOrNothing_unremoved :
    ∃ files' config', Returns (setConfigValues (.replicate _ 0) { Outcomes.ok with remove := false }
      (fun _ => 500)
        true (card "a=1\n[VALUES]\nb=2\n[other]\n") createDefault) (files', config', true) ∧
      files' path = some (bytes "a=1\n[values]\ntick_interval_ms=500\n\n[other]\n") ∧
      config'.configValues = acceptedValues fun _ => 500 := by
  have content := card_path "a=1\n[VALUES]\nb=2\n[other]\n"
  have fits : Fits LINE_MAX (bytes "a=1\n[VALUES]\nb=2\n[other]\n") := by decide
  have present : Files.fopenRead { Outcomes.ok with remove := false }
    (card "a=1\n[VALUES]\nb=2\n[other]\n") path =
      some ⟨bytes "a=1\n[VALUES]\nb=2\n[other]\n", 0⟩ := by simp [Files.fopenRead, content, Outcomes.ok]
  obtain ⟨st, out, rewritten, -⟩ := rewriteSection_spec (readable_of_fits fits (by decide))
    named_configValSection (plain_iniSettings fun _ => 500) (fun hangs => absurd hangs.2 (by decide))
    (iniTempname (.replicate _ 0) path)
  have returns := (@setConfigValues_rewrites _ _ _ _ createDefault _ present rfl _).mpr ⟨st, rewritten, rfl⟩
  have harmless : Harmless { Outcomes.ok with remove := false } (fun _ => 500)
      (card "a=1\n[VALUES]\nb=2\n[other]\n" path) := by
    intro _
    rw [content]
    exact .inl ⟨rfl, by decide, (stored_eq .ok _).mp (stored_ok _)⟩
  obtain ⟨saved, values⟩ := (setConfigValues_allOrNothing_iff returns).mpr harmless
  refine ⟨_, _, returns, saved.trans (congrArg some ?_), values⟩
  rw [content]
  decide

end Failing

/-- Removing the old file succeeds, renaming the new one fails, and the call reports success. -/
theorem setConfigValues_loses_file :
    ∃ result, Returns (setConfigValues (.replicate _ 0) { Outcomes.ok with rename := false }
        (fun _ => 500) true (card "a=1\n") createDefault) result ∧
      ¬ AllOrNothing (fun _ => 500) (card "a=1\n") createDefault result := by
  have fits : Fits LINE_MAX (bytes "a=1\n") := by decide
  have present : Files.fopenRead { Outcomes.ok with rename := false } (card "a=1\n") path =
      some ⟨bytes "a=1\n", 0⟩ := by simp [Files.fopenRead, card_path, Outcomes.ok]
  obtain ⟨st, out, rewritten, -⟩ := rewriteSection_spec (readable_of_fits fits (by decide))
    named_configValSection (plain_iniSettings fun _ => 500) (fun hangs => absurd hangs.2 (by decide))
    (iniTempname (.replicate _ 0) path)
  refine ⟨_, (setConfigValues_rewrites present rfl).mpr ⟨st, rewritten, rfl⟩, ?_⟩
  rintro ⟨complete, -⟩
  rw [closeRename_at filename_path] at complete
  simp [Outcomes.ok] at complete

end Config
end SysHelo
