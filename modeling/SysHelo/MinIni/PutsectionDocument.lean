import SysHelo.MinIni.Requests

/-! `ini_putsection` on the document of the text: the section is put as a whole, and `ini_gets` finds its
settings and those of all other sections. -/
namespace SysHelo.MinIni
open CString Stdio Lines Loop Sections

/-- A setting as it is read after it has been written. -/
def reread (setting : List UInt8 × List UInt8) : List UInt8 × List UInt8 := (setting.1, readBack setting.2)

section Lines
variable {name : List UInt8} {settings : List (List UInt8 × List UInt8)}

/-- The lines of the settings, and the newline behind them. -/
def settingsLines (settings : List (List UInt8 × List UInt8)) : List (List UInt8) :=
  (settings.map asWritten).map keyLine ++ [[newline]]

theorem cut_settingsLines (legible : ∀ setting ∈ settings, LegibleSetting setting.1 setting.2)
    {ps : List (List UInt8)} (cut : Cut newline (INI_BUFFERSIZE - 1) ps) :
    Cut newline (INI_BUFFERSIZE - 1) (settingsLines settings ++ ps) := by
  induction settings with
  | nil =>
    have inside : newline ∉ ([] : List UInt8) := List.not_mem_nil
    exact .line inside (by decide) cut
  | cons setting rest ih =>
    exact cut_setting (legible setting (by simp)) (ih fun s member => legible s (by simp [member]))

theorem document_settingsLines (legible : ∀ setting ∈ settings, LegibleSetting setting.1 setting.2)
    (ls : List (List UInt8)) :
    document (settingsLines settings ++ ls) =
      ⟨settings.map reread ++ (document ls).top, (document ls).sections⟩ := by
  induction settings with
  | nil => exact document_newline ls
  | cons setting rest ih =>
    have key := (legible setting (by simp)).legible
    have later := ih fun s member => legible s (by simp [member])
    have line : settingsLines (setting :: rest) ++ ls =
        keyLine (setting.1, quoted setting.2) :: (settingsLines rest ++ ls) := rfl
    rw [line, document_entry (inner_written key setting.2) (parseLine_written key setting.2), later]
    rfl

theorem sectionLog_given (given : settings ≠ []) : sectionLog name (settings.map asWritten) =
    ('['.toUInt8 :: name ++ [']'.toUInt8, newline]) :: settingsLines settings := by
  simp [sectionLog, given, settingsLines]

theorem cut_section (legible : LegibleName name)
    (settingsLegible : ∀ setting ∈ settings, LegibleSetting setting.1 setting.2) {ps : List (List UInt8)}
    (cut : Cut newline (INI_BUFFERSIZE - 1) ps) :
    Cut newline (INI_BUFFERSIZE - 1) (sectionLog name (settings.map asWritten) ++ ps) := by
  by_cases none : settings = []
  · subst none
    exact cut
  · rw [sectionLog_given none]
    exact cut_header legible (cut_settingsLines settingsLegible cut)

theorem document_section (name : List UInt8) (given : settings ≠ [])
    (legible : ∀ setting ∈ settings, LegibleSetting setting.1 setting.2) (front : List (List UInt8))
    {rest : List (List UInt8)} (starts : dropBody rest = rest) :
    document (front ++ (sectionLog name (settings.map asWritten) ++ rest)) =
      ⟨(document front).top,
        (document front).sections ++ (some name, settings.map reread) :: (document rest).sections⟩ := by
  have top : (document rest).top = [] := by
    have below := document_dropBody rest
    rw [starts] at below
    rw [below]
  rw [sectionLog_given given, List.cons_append, document_split (header_opens parseLine_head),
    headerName_iff.mpr parseLine_head, document_settingsLines legible, top, List.append_nil]

end Lines

section Rewritten
variable {name : List UInt8} {settings : List (List UInt8 × List UInt8)} {text : List UInt8}

theorem readDocument_missing (legible : LegibleName name)
    (settingsLegible : ∀ setting ∈ settings, LegibleSetting setting.1 setting.2)
    (missing : (readDocument text).settings folded (some name) = none) :
    readDocument (rewrittenText name (settings.map asWritten) (readPieces text)) =
      (readDocument text).putSection folded name (settings.map reread) := by
  have cut := (readPieces_spec text).1
  have absent := settings_none.mp missing
  have shape : rewrittenText name (settings.map asWritten) (readPieces text) =
      (readPieces text).flatten ++ separator (lastBlock (readPieces text)) ++
        (sectionLog name (settings.map asWritten)).flatten := by
    rw [rewrittenText, flatten_sectionLog, if_neg]
    rintro ⟨line, member, matched⟩
    exact absent line member matched
  have lines := cut_section legible settingsLegible .nil
  rw [List.append_nil] at lines
  rw [shape, readDocument_last cut (separator_cases _) lines, Document.putSection]
  by_cases none : settings = []
  · subst none
    have others : ∀ s ∈ (readDocument text).sections, ¬ isNamed folded name s := by
      simpa [Document.settings] using missing
    rw [Document.eraseSection, List.eraseP_of_forall_not others]
    simp [sectionLog, readDocument]
  · have put := document_section name none settingsLegible (readPieces text) (dropBody_idem [])
    rw [show dropBody [] = [] from rfl, List.append_nil] at put
    rw [put, missing, if_neg (by simpa using none), if_neg (by simp)]
    rfl

theorem readDocument_found (legible : LegibleName name)
    (settingsLegible : ∀ setting ∈ settings, LegibleSetting setting.1 setting.2)
    {old : Settings (List UInt8) (List UInt8)}
    (there : (readDocument text).settings folded (some name) = some old) :
    readDocument (rewrittenText name (settings.map asWritten) (readPieces text)) =
      (readDocument text).putSection folded name (settings.map reread) := by
  obtain ⟨pre, head, rest, split, others, matched⟩ := exists_head there
  obtain ⟨doc, unnamed, isNamed⟩ := readDocument_head split others matched
  obtain ⟨before, from_head⟩ := linesBefore_append rest others matched
  have found : ∃ l ∈ pre ++ head :: rest, isHead name l := ⟨head, by simp, matched⟩
  have shape : rewrittenText name (settings.map asWritten) (readPieces text) =
      pre.flatten ++ (sectionLog name (settings.map asWritten)).flatten ++ (dropBody rest).flatten := by
    rw [rewrittenText, split, if_pos found, linesAfter, before, from_head, List.tail_cons, flatten_sectionLog]
  rw [shape, readDocument_between split _ (cut_section legible settingsLegible), Document.putSection]
  by_cases none : settings = []
  · subst none
    have erased := document_behind (dropBody_idem rest) pre
    rw [document_dropBody] at erased
    rw [if_pos (by rfl), doc, Document.eraseSection, List.eraseP_append_right _ unnamed,
      List.eraseP_cons_of_pos isNamed]
    exact erased
  · have put := document_section name none settingsLegible pre (dropBody_idem rest)
    rw [document_dropBody] at put
    rw [put, there, if_neg (by simpa using none), if_pos (by rfl), doc]
    have first : (document pre).sections.find? (Sections.isNamed folded name) = Option.none := by
      simpa using unnamed
    rw [modifyFirst_append first isNamed]

theorem readDocument_putSection (legible : LegibleName name)
    (settingsLegible : ∀ setting ∈ settings, LegibleSetting setting.1 setting.2) (text : List UInt8) :
    readDocument (rewrittenText name (settings.map asWritten) (readPieces text)) =
      (readDocument text).putSection folded name (settings.map reread) := by
  cases there : (readDocument text).settings folded (some name) with
  | none => exact readDocument_missing legible settingsLegible there
  | some old => exact readDocument_found legible settingsLegible there

end Rewritten

/-- The section's first header is the last line, and it is indented. -/
def EndsIndented (name : List UInt8) (pieces : List (List UInt8)) : Prop :=
  ∃ head, linesFrom name pieces = [head] ∧ 0 < margin head

/-- What the call leaves in the file. -/
def putsectionContent (name : List UInt8) (settings : List (List UInt8 × List UInt8))
    (content : Option (List UInt8)) : List UInt8 :=
  match content with
  | none => sectionText name (settings.map asWritten)
  | some text => rewrittenText name (settings.map asWritten) (readPieces text)

section Call
variable {name : List UInt8} {settings : List (List UInt8 × List UInt8)} {pieces : List (List UInt8)}
  {content : Option (List UInt8)} {filename : Path} {files : Files}

theorem rewriteSection_pieces (cut : Cut newline (INI_BUFFERSIZE - 1) pieces) (readable : Readable pieces)
    (named : Named name) (writable : ∀ setting ∈ settings, Writable setting.1 setting.2)
    (ends : settings ≠ [] → ¬ EndsIndented name pieces) (buf : Chars INI_BUFFERSIZE) :
    ∃ st, Returns (rewriteSection name (settings.map Prod.fst) (settings.map Prod.snd)
        (.start buf pieces.flatten)) st ∧
      st.wfp.flatten = rewrittenText name (settings.map asWritten) pieces := by
  unfold rewrittenText
  split
  · rename_i found
    obtain ⟨head, rest, from_head, matched, split⟩ := linesFrom_split found
    obtain ⟨st, returns, rewritten, -⟩ := rewriteSection_found cut (readable_kept readable split)
      named writable
      split (fun line member => not_isHead_before member) matched
      (fun ⟨given, last, indented⟩ => ends given ⟨head, by rw [from_head, last], indented⟩) buf
    exact ⟨st, returns, by rw [rewritten.content, linesAfter, from_head, List.tail_cons]⟩
  · rename_i missing
    obtain ⟨st, returns, rewritten, -⟩ := rewriteSection_missing cut readable named writable
      (fun line member matched => missing ⟨line, member, matched⟩) buf
    exact ⟨st, returns, rewritten.content⟩

/-- Whatever the file holds, the call returns, and the file holds the text that it should. -/
theorem iniPutsection_spec (present : files filename = content) (free : ∀ text ∈ content, 0 ∉ text)
    (filenamed : Filename filename) (named : Named name)
    (writable : ∀ setting ∈ settings, Writable setting.1 setting.2)
    (ends : settings ≠ [] → ∀ text ∈ content, ¬ EndsIndented name (readPieces text))
    (stack : Chars INI_BUFFERSIZE) :
    ∃ files', Returns (iniPutsection stack .ok name (settings.map Prod.fst)
      (settings.map Prod.snd) filename files)
        (files', true) ∧
      files' filename = some (putsectionContent name settings content) ∧
      ∀ path, path ≠ filename → path ≠ tempname filename → files' path = files path := by
  cases content with
  | none =>
    have missing : Files.fopenRead .ok files filename = none := by simp [Files.fopenRead, present]
    refine ⟨_, iniPutsection_new named writable missing rfl, ?_,
      fun path apart _ => by simp [Files.fclose, apart]⟩
    rw [Files.fclose, Function.update_self, stored_ok, flatten_sectionLog]
    rfl
  | some text =>
    obtain ⟨cut, whole⟩ := readPieces_spec text
    have readable : Readable (readPieces text) := fun line member =>
      ⟨Nat.lt_of_le_pred (by decide) (cut.length_le member), readPieces_free (free text rfl) line member⟩
    obtain ⟨st, returns, content⟩ := rewriteSection_pieces cut readable named writable
      (fun given => ends given text rfl) (iniTempname stack filename)
    rw [whole] at returns
    refine ⟨closeRename .ok files filename st (tempname filename), ?_, ?_, fun path apart kept =>
      closeRename_other filenamed .ok st apart kept⟩
    · rw [iniPutsection_eq stack name _ _ filenamed (Files.fopenRead_ok present) rfl]
      exact Returns.bind returns (Returns.pure _)
    · rw [closeRename_at filenamed, stored_ok, content]
      rfl

theorem contentDocument_putsection (legible : LegibleName name)
    (settingsLegible : ∀ setting ∈ settings, LegibleSetting setting.1 setting.2)
      (content : Option (List UInt8)) :
    contentDocument (some (putsectionContent name settings content)) =
      (contentDocument content).putSection folded name (settings.map reread) := by
  cases content with
  | none =>
    have lines := cut_section legible settingsLegible .nil
    rw [List.append_nil] at lines
    have read := readDocument_pieces lines
    rw [flatten_sectionLog] at read
    refine read.trans ?_
    by_cases none : settings = []
    · subst none
      rfl
    · have put := document_section name none settingsLegible [] (dropBody_idem [])
      rw [show dropBody [] = [] from rfl, List.append_nil, List.nil_append] at put
      rw [put, Document.putSection, if_neg (by simpa using none)]
      rfl
  | some text => exact readDocument_putSection legible settingsLegible text

theorem sectionText_free (named : Named name)
    (writable : ∀ setting ∈ settings, Writable setting.1 setting.2) :
    0 ∉ sectionText name (settings.map asWritten) := by
  have opening : (0 : UInt8) ≠ '['.toUInt8 := by decide
  have closing : (0 : UInt8) ≠ ']'.toUInt8 := by decide
  have equal : (0 : UInt8) ≠ '='.toUInt8 := by decide
  have terminator : (0 : UInt8) ≠ newline := by decide
  have lines : ∀ key value, (key, value) ∈ settings → 0 ∉ keyLine (asWritten (key, value)) := by
    intro key value member
    obtain ⟨keyFree, valueFree, -⟩ := writable (key, value) member
    simp [keyLine, asWritten, keyFree, quoted_free valueFree, equal, terminator]
  unfold sectionText
  split
  · exact List.not_mem_nil
  · simpa [named.free, opening, closing, terminator] using lines

theorem putsectionContent_free (named : Named name)
    (writable : ∀ setting ∈ settings, Writable setting.1 setting.2) (free : ∀ text ∈ content, 0 ∉ text) :
    0 ∉ putsectionContent name settings content := by
  have new := sectionText_free named writable
  cases content with
  | none => exact new
  | some text =>
    have old := readPieces_free (free text rfl)
    have above := flatten_free old fun l => (List.takeWhile_prefix (fun line => !isHead name line)).mem
      (a := l)
    have below := flatten_free old fun l => (linesAfter_isSuffix name (readPieces text)).mem (a := l)
    have whole := flatten_free old fun l => id
    unfold putsectionContent rewrittenText
    dsimp only
    split
    · rw [List.mem_append, List.mem_append, not_or, not_or]
      exact ⟨⟨above, new⟩, below⟩
    · rw [List.mem_append, List.mem_append, not_or, not_or]
      exact ⟨⟨whole, separator_free _⟩, new⟩

variable {size : Nat} (room : 0 < size) (inside : size ≤ n)
include room inside

/-- A section that has been put is found again by `ini_gets` as it was given, and every other section as it
was: each setting under its key, the first one when a key is given twice. -/
theorem iniPutsection_gets (legible : LegibleName name)
    (settingsLegible : ∀ setting ∈ settings, LegibleSetting setting.1 setting.2) (named : Filename filename)
    (free : ∀ text ∈ files filename, 0 ∉ text)
    (ends : settings ≠ [] → ∀ text ∈ files filename, ¬ EndsIndented name (readPieces text))
    (single : settings = [] → (contentDocument (files filename)).Distinct folded)
      (stack : Chars INI_BUFFERSIZE) :
    ∃ files', Returns (iniPutsection stack .ok name (settings.map Prod.fst)
      (settings.map Prod.snd) filename files)
        (files', true) ∧
      (∀ path, path ≠ filename → path ≠ tempname filename → files' path = files path) ∧
      ∀ (stack : Chars INI_BUFFERSIZE) (sectionName : Option (List UInt8)) (key : List UInt8)
        (defValue : Option (List UInt8)) (buffer : Chars n), key ≠ [] → 0 ∉ defValue.getD [] →
        Gives (iniGets stack sectionName (some key) defValue buffer size
          (Files.fopenRead .ok files' filename))
          (((if SameSection folded (sectionOf sectionName) (some name) then lookup folded key
            (settings.map reread)
            else contentTable (files filename) (sectionOf sectionName) key).getD (defValue.getD [])).take
              (size - 1)) := by
  have writable : ∀ setting ∈ settings, Writable setting.1 setting.2 := fun setting member =>
    (settingsLegible setting member).writable
  obtain ⟨files', returns, content, others⟩ :=
    iniPutsection_spec rfl free named legible.named writable ends stack
  refine ⟨files', returns, others, fun stack sectionName key defValue buffer given defFree => ?_⟩
  have free' : ∀ text ∈ files' filename, 0 ∉ text := by
    intro text same
    rw [content, Option.mem_some_iff] at same
    exact same ▸ putsectionContent_free legible.named writable free
  have read := iniGets_content room inside free' stack sectionName given defFree buffer
  have table : contentTable (files' filename) (sectionOf sectionName) key =
      if SameSection folded (sectionOf sectionName) (some name) then lookup folded key (settings.map reread)
      else contentTable (files filename) (sectionOf sectionName) key := by
    rw [content, contentTable, contentDocument_putsection legible settingsLegible]
    exact Document.get_putSection fun none => single (List.map_eq_nil_iff.mp none)
  rw [table] at read
  exact read

end Call

/-- A value that is kept in quotes takes the place of the old section; the section below stays. -/
theorem iniPutsection_gets_second : ∃ files',
    Returns (iniPutsection (.replicate _ 0) .ok (bytes "S") [bytes "a"] [bytes "x;y"] (bytes "x.ini")
      fun _ => some (bytes "[s]\nold=1\n[T]\nb=2\n")) (files', true) ∧
    Gives (iniGets (.replicate _ 0) (some (bytes "s")) (some (bytes "A")) none (.replicate 8 0) 8
      (Files.fopenRead .ok files' (bytes "x.ini"))) (bytes "x;y") ∧
    Gives (iniGets (.replicate _ 0) (some (bytes "T")) (some (bytes "b")) none (.replicate 8 0) 8
      (Files.fopenRead .ok files' (bytes "x.ini"))) (bytes "2") := by
  have named : Filename (bytes "x.ini") := by decide
  have legible : LegibleName (bytes "S") := by decide
  have settingsLegible : ∀ setting ∈ [(bytes "a", bytes "x;y")], LegibleSetting setting.1 setting.2 := by
    intro setting member
    obtain rfl := List.mem_singleton.mp member
    decide
  have free : ∀ text ∈ some (bytes "[s]\nold=1\n[T]\nb=2\n"), 0 ∉ text := by
    intro text same
    obtain rfl := Option.some.inj same
    decide
  have ends : [(bytes "a", bytes "x;y")] ≠ [] → ∀ text ∈ some (bytes "[s]\nold=1\n[T]\nb=2\n"),
      ¬ EndsIndented (bytes "S") (readPieces text) := by
    rintro - text same ⟨head, last, -⟩
    obtain rfl := Option.some.inj same
    have four : (linesFrom (bytes "S") (readPieces (bytes "[s]\nold=1\n[T]\nb=2\n"))).length = 4 := by decide
    rw [last] at four
    exact absurd four (by simp)
  obtain ⟨files', returns, -, gets⟩ := @iniPutsection_gets 8 _ _ _
    (fun _ => some (bytes "[s]\nold=1\n[T]\nb=2\n"))
    8 (by decide) le_rfl legible settingsLegible named free ends (by simp) (.replicate _ 0)
  exact ⟨files', returns, gets _ _ _ none _ (by decide) (by decide), gets _ _ _ none _
    (by decide) (by decide)⟩

end SysHelo.MinIni
