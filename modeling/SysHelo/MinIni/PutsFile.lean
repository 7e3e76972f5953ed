import SysHelo.MinIni.PutsProofs
import SysHelo.MinIni.Resave

/-! `ini_puts` as a whole: it returns, whatever the text, and whichever of its ways it takes the file
holds the same text afterwards. -/
namespace SysHelo.MinIni
open CString Stdio Lines Loop Sections

/-- The text of a file after a setting has been put or erased. -/
def putText (sectionName key value : Option (List UInt8)) (text : List UInt8) : List UInt8 :=
  let rewritten := settingRewritten (sectionName.getD []) key value (readPieces text)
  match key, value with
  | some key, some value => if setting text sectionName key = some value then text else rewritten
  | _, _ => rewritten

/-- The same of a file that may not be there. -/
def putContent (sectionName key value : Option (List UInt8)) : Option (List UInt8) → Option (List UInt8)
  | some text => some (putText sectionName key value text)
  | none =>
    match key, value with
    | some key, some value => some (headerText (sectionName.getD []) ++ keyLine (key, quoted value))
    | _, _ => none

theorem putText_same {sectionName : Option (List UInt8)} {key value text : List UInt8}
    (same : setting text sectionName key = some value) : putText sectionName (some key)
      (some value) text = text :=
  if_pos same

theorem putText_other {sectionName : Option (List UInt8)} {key value text : List UInt8}
    (other : setting text sectionName key ≠ some value) : putText sectionName (some key) (some value) text =
      settingRewritten (sectionName.getD []) (some key) (some value) (readPieces text) :=
  if_neg other

section Overwriting
variable {sectionName : Option (List UInt8)} {key value line : List UInt8}
  {pieces front rest pre post : List (List UInt8)}

theorem keylike_of_parsed {k : List UInt8} (parsed : parseLine line = .entry k value)
    (same : folded k = folded key) : Keylike key := by
  obtain ⟨raw, delimiter, back, cuts, rfl, -, semicolon, hash⟩ := parseLine_entry parsed
  have first {c : UInt8} (small : c < 'A'.toUInt8) (starts : key.head? = some c) :
      (ltrim line).head? = some c := by
    have head := head_folded same.symm small starts
    obtain ⟨blanks, whole⟩ := rtrim_isPrefix raw
    rw [cuts.text, ← whole, List.append_assoc]
    cases stripped : rtrim raw with
    | nil =>
      rw [stripped] at head
      contradiction
    | cons e t =>
      rw [stripped] at head
      simpa using head
  constructor
  · intro starts
    exact semicolon (first (by decide) starts)
  · intro starts
    exact hash (first (by decide) starts)

theorem takeWhile_stops {α : Type} {p : α → Bool} {front : List α} {a : α} (back : List α)
    (passed : ∀ b ∈ front, p b)
    (stops : ¬ p a) :
    (front ++ a :: back).takeWhile p = front ∧ (front ++ a :: back).dropWhile p = a :: back := by
  induction front with
  | nil => simp [stops]
  | cons b front ih =>
    obtain ⟨taken, dropped⟩ := ih fun c member => passed c (by simp [member])
    simp [passed b (by simp), taken, dropped]

theorem settingRewritten_below (below : Below (sectionOf sectionName) pieces front rest) (key : List UInt8)
    (value : Option (List UInt8)) :
    settingRewritten (sectionName.getD []) (some key) value pieces = front.flatten ++ entryText key
      value rest := by
  unfold settingRewritten
  cases shape : sectionOf sectionName with
  | none =>
    obtain rfl := below.top shape
    rw [if_pos (sectionOf_none.mp shape), if_neg (by simp), below.split]
    rfl
  | some name =>
    obtain ⟨rfl, nonempty⟩ := sectionOf_some.mp shape
    obtain ⟨pre, head, rfl, absent, matched⟩ := below.header name shape
    have split := below.split
    rw [List.append_assoc, List.singleton_append] at split
    obtain ⟨before, from_head⟩ := linesBefore_append rest absent matched
    rw [← split] at before from_head
    have found : ∃ l ∈ pieces, isHead name l := ⟨head, by simp [split], matched⟩
    rw [Option.getD_some, if_neg nonempty, if_pos found, before, from_head]
    simp [sectionRewritten]

/-- The rewriting replaces the line that sets the key. -/
theorem settingRewritten_located {old : List UInt8} (named : key ≠ [])
    (below : Below (sectionOf sectionName) pieces front rest) (located : Located key old rest pre line post) :
    settingRewritten (sectionName.getD []) (some key) (some value) pieces =
      (front ++ pre).flatten ++ keyLine (key, quoted value) ++ post.flatten := by
  obtain ⟨k, parsed, same⟩ := located.parsed
  have keylike := keylike_of_parsed parsed same
  have ends (l : List UInt8) : endsSearch (some key) l ↔ opensSection l ∨ isKey key l :=
    endsSearch_iff_isKey keylike named
  have stops : endsSearch (some key) line := (ends line).mpr (.inr (isKey_iff.mpr ⟨k, _, parsed, same⟩))
  obtain ⟨taken, dropped⟩ := takeWhile_stops (p := fun l => !endsSearch (some key) l) post
    (fun l member => by
      obtain ⟨opens, sets⟩ := located.passed l member
      simpa using mt (ends l).mp (not_or.mpr ⟨opens, sets⟩))
    (show ¬ (!endsSearch (some key) line) = true by simpa using stops)
  have entry : entryText key (some value) rest = pre.flatten ++ keyLine (key, quoted value) ++
      post.flatten := by
    simp only [entryText, located.split, taken, dropped, settingText, if_neg located.inner]
  rw [settingRewritten_below below, entry, List.flatten_append]
  simp only [List.append_assoc]

theorem clean_length_le (s : List UInt8) : (clean s).length ≤ s.length := by
  have trimmed := (rtrim_isPrefix (uncomment false s)).length_le
  have taken : (uncomment false s).length ≤ s.length := by
    rw [uncomment_eq_take]
    exact List.length_take_le' ..
  unfold clean
  dsimp only
  split
  · have dequoted := dequote_length_le (rtrim (uncomment false s)).tail.dropLast
    rw [List.length_dropLast, List.length_tail] at dequoted
    omega
  · omega

theorem filled_whole {k : List UInt8} (parsed : parseLine line = .entry k value) (free : 0 ∉ line)
    (short : line.length ≤ INI_BUFFERSIZE - 1) (buffer : Chars INI_BUFFERSIZE) :
    str (filled buffer INI_BUFFERSIZE value) 0 = value := by
  have less : value.length ≤ line.length := by
    obtain ⟨raw, delimiter, back, cuts, -, rfl, -, -⟩ := parseLine_entry parsed
    have whole := margin_add line
    have cleaned := clean_length_le (ltrim back)
    have trimmed := ltrim_length_le back
    rw [cuts.text, List.length_append, List.length_cons] at whole
    omega
  rw [str_filled buffer (by decide) le_rfl (entry_free free parsed).2, List.take_of_length_le (by omega)]

end Overwriting

section Call
variable {sectionName key value : Option (List UInt8)} {text : List UInt8} {filename : Path} {files : Files}

/-- The short-cuts lead to the same text. -/
theorem putsPlan_spec (sectionName : Option (List UInt8)) (free : 0 ∉ text) {k v : List UInt8}
    (writable : Writable k v) (stack inner : Chars INI_BUFFERSIZE) :
    (putsPlan stack inner ⟨text, 0⟩ sectionName (some k) (some v) = .keep ∧
      setting text sectionName k = some v) ∨
    (∃ head line, putsPlan stack inner ⟨text, 0⟩ sectionName (some k) (some v) = .overwrite head line ∧
      setting text sectionName k ≠ some v ∧
      text.take head ++ line ++ text.drop (head + line.length) =
        settingRewritten (sectionName.getD []) (some k) (some v) (readPieces text)) ∨
    (∃ buf, putsPlan stack inner ⟨text, 0⟩ sectionName (some k) (some v) = .rewrite buf ∧
      setting text sectionName k ≠ some v) := by
  cases there : setting text sectionName k with
  | none =>
    have plan := getkeystring_none free there inner stack INI_BUFFERSIZE
    refine .inr (.inr ⟨stack, ?_, by simp⟩)
    simp only [putsPlan, plan]
  | some old =>
    obtain ⟨front, rest, pre, line, post, below, located, plan⟩ :=
      getkeystring_found free there inner stack INI_BUFFERSIZE
    have named : k ≠ [] := by
      intro empty
      simp [setting, empty] at there
    obtain ⟨key, parsed, same⟩ := located.parsed
    obtain ⟨cut, whole⟩ := readPieces_spec text
    have pieces : readPieces text = front ++ pre ++ line :: post := by
      rw [below.split, located.split, List.append_assoc]
    have member : line ∈ readPieces text := by simp [pieces]
    have read := filled_whole parsed (readPieces_free free line member) (cut.length_le member) stack
    by_cases equal : old = v
    · refine .inl ⟨?_, by rw [equal]⟩
      simp only [putsPlan, plan, read, if_pos equal]
    · have other : some old ≠ some v := by simpa using equal
      have text_eq : text = (front ++ pre).flatten ++ line ++ post.flatten := by
        rw [← whole, pieces]
        simp
      obtain ⟨-, made⟩ := writekey_quoted ⟨filled stack INI_BUFFERSIZE old, []⟩ writable
      by_cases size : (keyLine (k, quoted v)).length = line.length
      · refine .inr (.inl ⟨(front ++ pre).flatten.length, keyLine (k, quoted v), ?_, other, ?_⟩)
        · have span : (fileAt text (front ++ pre ++ [line])).pos - (front ++ pre).flatten.length =
            line.length := by
            simp [fileAt]
            omega
          simp only [putsPlan, plan, read, if_neg equal, strlen, made, span, if_pos size]
        · rw [settingRewritten_located named below located, size, ← List.length_append]
          conv_lhs => rw [text_eq]
          rw [List.drop_left, List.append_assoc, List.append_assoc, List.take_left]
          simp
      · refine .inr (.inr ⟨(writekey ⟨filled stack INI_BUFFERSIZE old, []⟩ k v).buf, ?_, other⟩)
        have span : (fileAt text (front ++ pre ++ [line])).pos - (front ++ pre).flatten.length =
            line.length := by
          simp [fileAt]
          omega
        simp only [putsPlan, plan, read, if_neg equal, strlen, made, span, if_neg size]

theorem closeRename_other (named : Filename filename) (o : Outcomes) (st : Rewrite) {path : Path}
    (apart : path ≠ filename) (kept : path ≠ tempname filename) :
    closeRename o files filename st (tempname filename) path = files path := by
  have other := tempname_ne named
  rw [closeRename, iniTempname_spec named]
  cases rename : o.rename <;> cases remove : o.remove <;>
    simp [Files.rename, Files.remove, Files.fclose, Function.update, other, apart, kept, rename, remove]

theorem readPieces_readable (free : 0 ∉ text) : Readable (readPieces text) := by
  intro line member
  have short := (readPieces_spec text).1.length_le member
  have room : 0 < INI_BUFFERSIZE := by decide
  exact ⟨by omega, readPieces_free free line member⟩

/-- A rewriting through the temporary file, however the operations on the files end. -/
theorem rewriting_returns (files : Files) (free : 0 ∉ text) (named : Filename filename)
    (putting : Putting (sectionName.getD []) key value) (o : Outcomes) (buf : Chars INI_BUFFERSIZE) :
    ∃ st, Returns (do
        let st ← rewriteSetting (sectionName.getD []) key value
          ⟨⟨iniTempname buf filename, []⟩, 0, ⟨text, 0⟩, 0, []⟩
        pure (closeRename o files filename st (str (iniTempname buf filename) 0), true))
          (closeRename o files filename st (tempname filename), true) ∧
      st.wfp.flatten = settingRewritten (sectionName.getD []) key value (readPieces text) := by
  obtain ⟨cut, whole⟩ := readPieces_spec text
  obtain ⟨st, returns, rewritten⟩ :=
    rewriteSetting_spec cut (readPieces_readable free) putting (iniTempname buf filename)
  rw [whole] at returns
  refine ⟨st, ?_, rewritten.content⟩
  rw [iniTempname_spec named]
  exact Returns.bind returns (Returns.pure _)

theorem rewriting_spec (files : Files) (free : 0 ∉ text) (named : Filename filename)
    (putting : Putting (sectionName.getD []) key value) (buf : Chars INI_BUFFERSIZE) :
    ∃ files', Returns (do
        let st ← rewriteSetting (sectionName.getD []) key value
          ⟨⟨iniTempname buf filename, []⟩, 0, ⟨text, 0⟩, 0, []⟩
        pure (closeRename .ok files filename st (str (iniTempname buf filename) 0), true)) (files', true) ∧
      files' filename = some (settingRewritten (sectionName.getD []) key value (readPieces text)) ∧
      ∀ path, path ≠ filename → path ≠ tempname filename → files' path = files path := by
  obtain ⟨st, returns, content⟩ := rewriting_returns files free named putting .ok buf
  refine ⟨_, returns, ?_, fun path apart kept => closeRename_other named .ok st apart kept⟩
  rw [closeRename_at named, stored_ok, content]
  rfl

/-- Whatever the file holds, the call returns, and the file holds the text that it should. -/
theorem iniPuts_spec {content : Option (List UInt8)} (present : files filename = content)
    (free : ∀ text ∈ content, 0 ∉ text) (named : Filename filename)
    (putting : Putting (sectionName.getD []) key value) (stack inner : Chars INI_BUFFERSIZE) :
    ∃ files', Returns (iniPuts stack inner .ok true sectionName key value filename files) (files', true) ∧
      files' filename = putContent sectionName key value content ∧
      ∀ path, path ≠ filename → path ≠ tempname filename → files' path = files path := by
  cases content with
  | none =>
    have missing : Files.fopenRead .ok files filename = none := by simp [Files.fopenRead, present]
    unfold iniPuts
    rw [missing]
    cases key with
    | none => exact ⟨files, Returns.pure _, by simp [putContent, present], fun _ _ _ => rfl⟩
    | some k =>
      cases value with
      | none => exact ⟨files, Returns.pure _, by simp [putContent, present], fun _ _ _ => rfl⟩
      | some v =>
        refine ⟨_, Returns.pure _, ?_, fun path apart _ => by simp [Files.fclose, apart]⟩
        obtain ⟨line, -⟩ := writekey_quoted (writesection ⟨stack, []⟩ (sectionName.getD []))
          (putting.writable k v rfl rfl)
        simp only [Files.fclose, Function.update_self, stored_ok, putContent, line, List.flatten_append,
          writesection_text putting.named, List.flatten_nil, List.nil_append, List.flatten_singleton]
  | some text =>
    have textFree := free text rfl
    obtain ⟨files', returns, content, others⟩ := rewriting_spec files textFree named putting stack
    unfold iniPuts
    rw [Files.fopenRead_ok present]
    cases key with
    | none => exact ⟨files', returns, content, others⟩
    | some k =>
      cases value with
      | none => exact ⟨files', returns, content, others⟩
      | some v =>
        rcases putsPlan_spec sectionName textFree (putting.writable k v rfl rfl) stack inner with
          ⟨plan, same⟩ | ⟨head, line, plan, other, result⟩ | ⟨buf, plan, other⟩
        · exact ⟨files, by simp only [plan]; exact Returns.pure _, by simp [putContent, putText,
            same, present],
            fun _ _ _ => rfl⟩
        · have written : Returns (pure (overwrite .ok files filename head [line], true)) _ := .pure _
          refine ⟨overwrite .ok files filename head
            [line], by simpa only [plan, if_true] using written, ?_, ?_⟩
          · simp [overwrite, present, putContent, putText, other, result]
          · intro path apart kept
            simp [overwrite, present, apart]
        · obtain ⟨files', returns, content, others⟩ := rewriting_spec files textFree named putting buf
          refine ⟨files', by simp only [plan]; exact returns, ?_, others⟩
          simp only [content, putContent, putText, if_neg other]

/-- Giving a setting that is there another value only changes its line, in place or not: a line of the text
below the header of the section and above the next one. -/
theorem iniPuts_changes (present : files filename = some text) (free : 0 ∉ text) (named : Filename filename)
    {k v old : List UInt8} (putting : Putting (sectionName.getD []) (some k) (some v))
    (there : setting text sectionName k = some old) (other : old ≠ v) (stack inner : Chars INI_BUFFERSIZE) :
    ∃ files' front pre line post spelled,
      Returns (iniPuts stack inner .ok true sectionName (some k) (some v) filename files) (files', true) ∧
      Below (sectionOf sectionName) (readPieces text) front (pre ++ line :: post) ∧
      (∀ l ∈ pre, ¬ opensSection l ∧ ¬ isKey k l) ∧ ¬ opensSection line ∧
      parseLine line = .entry spelled old ∧ folded spelled = folded k ∧
      text = (front ++ pre).flatten ++ line ++ post.flatten ∧
      files' filename = some ((front ++ pre).flatten ++ keyLine (k, quoted v) ++ post.flatten) := by
  obtain ⟨files', returns, content, -⟩ :=
    iniPuts_spec present (fun t same => Option.some.inj same ▸ free) named putting stack inner
  obtain ⟨front, rest, pre, line, post, below, located, -⟩ := getkeystring_found free there inner stack
    INI_BUFFERSIZE
  obtain ⟨spelled, parsed, same⟩ := located.parsed
  have given : k ≠ [] := by
    intro empty
    simp [setting, empty] at there
  have different : setting text sectionName k ≠ some v := by
    rw [there]
    simpa using other
  refine ⟨files', front, pre, line, post, spelled, returns, located.split ▸ below, located.passed,
    located.inner, parsed, same, ?_, ?_⟩
  · rw [← (readPieces_spec text).2, below.split, located.split]
    simp
  · rw [content, putContent, putText_other different, settingRewritten_located given below located]

/-- The key is in two sections. -/
theorem iniPuts_changes_second : ∃ files' front pre line post spelled,
    Returns (iniPuts (.replicate _ 0) (.replicate _ 0) .ok true (some (bytes "S")) (some (bytes "a"))
      (some (bytes "2")) (bytes "x.ini") (fun _ => some (bytes "[T]\na=1\n[S]\nA = 1\n"))) (files', true) ∧
    Below (some (bytes "S")) (readPieces (bytes "[T]\na=1\n[S]\nA = 1\n")) front (pre ++ line :: post) ∧
    (∀ l ∈ pre, ¬ opensSection l ∧ ¬ isKey (bytes "a") l) ∧ ¬ opensSection line ∧
    parseLine line = .entry spelled (bytes "1") ∧ folded spelled = folded (bytes "a") ∧
    bytes "[T]\na=1\n[S]\nA = 1\n" = (front ++ pre).flatten ++ line ++ post.flatten ∧
    files' (bytes "x.ini") =
      some ((front ++ pre).flatten ++ keyLine (bytes "a", quoted (bytes "2")) ++ post.flatten) := by
  have named : Filename (bytes "x.ini") := by decide
  have putting : Putting ((some (bytes "S")).getD []) (some (bytes "a")) (some (bytes "2")) := by
    refine ⟨fun k v key value => ?_, fun _ => by decide⟩
    obtain rfl := Option.some.inj key
    obtain rfl := Option.some.inj value
    decide
  have there : setting (bytes "[T]\na=1\n[S]\nA = 1\n") (some (bytes "S")) (bytes "a") =
      some (bytes "1") := by decide
  exact @iniPuts_changes _ _ _ (fun _ => some (bytes "[T]\na=1\n[S]\nA = 1\n")) rfl (by decide) named _ _ _
    putting there (by decide) _ _

end Call

end SysHelo.MinIni
