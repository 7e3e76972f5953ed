import SysHelo.MinIni.PutsFile

/-! `ini_puts` on the document of the text: it puts a setting, erases one or erases a section, and
leaves the rest as it is. -/
namespace SysHelo.MinIni
open CString Stdio Lines Loop Sections

theorem uncomment_append_newline (isstring : Bool) (s : List UInt8) :
    uncomment isstring (s ++ [newline]) = uncomment isstring s ++ [newline] ∨
      uncomment isstring (s ++ [newline]) = uncomment isstring s := by
  have plain (isstring : Bool) : uncomment isstring [newline] = [newline] := by cases isstring <;> decide
  have unescaped (c : UInt8) : escapes c newline = false := by
    unfold escapes
    rw [Bool.and_eq_false_imp]
    intro _
    decide
  induction isstring, s using uncomment.induct with
  | case1 isstring => exact .inl (plain isstring)
  | case2 isstring c comment =>
    right
    rw [List.singleton_append, uncomment, uncomment, if_pos comment, if_pos comment]
  | case3 isstring c solid =>
    left
    rw [List.singleton_append, uncomment, uncomment, if_neg solid, if_neg solid, unescaped, plain]
    rfl
  | case4 isstring c d s comment =>
    right
    rw [List.cons_append, List.cons_append, uncomment, uncomment, if_pos comment, if_pos comment]
  | case5 isstring c d s solid escaped ih =>
    simp only [List.cons_append, uncomment, if_neg solid, escaped, if_true]
    rcases ih with more | same
    · exact .inl (by rw [more])
    · exact .inr (by rw [same])
  | case6 isstring c d s solid escaped ih =>
    simp only [List.cons_append, uncomment, if_neg solid, if_neg escaped] at ih ⊢
    rcases ih with more | same
    · exact .inl (by rw [more])
    · exact .inr (by rw [same])

theorem clean_append_newline (s : List UInt8) : clean (s ++ [newline]) = clean s := by
  have trimmed : rtrim (uncomment false (s ++ [newline])) = rtrim (uncomment false s) := by
    rcases uncomment_append_newline false s with more | same
    · rw [more]
      exact rtrim_append fun c member => by rw [List.mem_singleton.mp member]; decide
    · rw [same]
  unfold clean
  rw [trimmed]

theorem parseEntry_append_newline (s : List UInt8) : parseEntry (s ++ [newline]) = parseEntry s := by
  have value (v : List UInt8) : clean (ltrim (v ++ [newline])) = clean (ltrim v) := by
    rcases ltrim_append_newline v with more | ⟨none, none'⟩
    · rw [more, clean_append_newline]
    · rw [none, none']
  have split {c : UInt8} (other : c ≠ newline) : splitFirst c (s ++ [newline]) =
      (splitFirst c s).map fun pair => (pair.1, pair.2 ++ [newline]) := by
    cases found : splitFirst c s with
    | none =>
      have absent := splitFirst_none.mp found
      rw [Option.map_none, splitFirst_none]
      simp [absent, other]
    | some pair =>
      obtain ⟨front, back⟩ := pair
      obtain ⟨rfl, free⟩ := splitFirst_some found
      rw [List.append_assoc, List.cons_append, splitFirst_append free, Option.map_some]
  unfold parseEntry
  rw [split (by decide), split (by decide)]
  cases splitFirst '='.toUInt8 s with
  | some pair => simp [value]
  | none =>
    cases splitFirst ':'.toUInt8 s with
    | some pair => simp [value]
    | none => rfl

theorem parseLine_append_newline (line : List UInt8) : parseLine (line ++ [newline]) = parseLine line := by
  unfold parseLine
  rcases ltrim_append_newline line with more | ⟨none, none'⟩
  · rw [more]
    cases ltrim line with
    | nil => decide
    | cons c s =>
      have split : splitLast ']'.toUInt8 (s ++ [newline]) =
          (splitLast ']'.toUInt8 s).map fun pair => (pair.1, pair.2 ++ [newline]) := by
        cases found : splitLast ']'.toUInt8 s with
        | none =>
          have absent := splitLast_none.mp found
          have other : ']'.toUInt8 ≠ newline := by decide
          rw [Option.map_none, splitLast_none]
          simp [absent, other]
        | some pair =>
          obtain ⟨front, back⟩ := pair
          obtain ⟨rfl, free⟩ := splitLast_some found
          have behind : ']'.toUInt8 ∉ back ++ [newline] := by
            have other : ']'.toUInt8 ≠ newline := by decide
            simp [free, other]
          rw [List.append_assoc, List.cons_append, splitLast_append behind, Option.map_some]
      have entry := parseEntry_append_newline (c :: s)
      simp only [List.cons_append, split] at entry ⊢
      rw [entry]
      cases splitLast ']'.toUInt8 s <;> rfl
  · rw [none, none']

theorem opensSection_append_newline (line : List UInt8) : opensSection
    (line ++ [newline]) = opensSection line := by
  unfold opensSection
  rcases ltrim_append_newline line with more | ⟨none, none'⟩
  · rw [more]
    cases ltrim line with
    | nil => decide
    | cons c s => rfl
  · rw [none, none']

theorem document_congr {left right : List (List UInt8)} (same : document left = document right)
    (front : List (List UInt8)) : document (front ++ left) = document (front ++ right) := by
  induction front with
  | nil => exact same
  | cons line front ih => simp only [List.cons_append, document, ih]

theorem document_newline (rest : List (List UInt8)) : document ([newline] :: rest) = document rest :=
  document_skip (by decide) fun key value => by rw [parseLine_newline]; exact Line.noConfusion

theorem document_terminated (line : List UInt8) (rest : List (List UInt8)) :
    document ((line ++ [newline]) :: rest) = document (line :: rest) := by
  simp only [document, opensSection_append_newline, headerName, parseLine_append_newline]

theorem exists_ended {pieces : List (List UInt8)} {s : List UInt8}
    (cut : Cut newline (INI_BUFFERSIZE - 1) pieces)
    (shape : s = [newline] ∨ s = [] ∧ pieces.flatten.getLast? = some newline) :
    ∃ ps, Cut newline (INI_BUFFERSIZE - 1) ps ∧ ps.flatten = pieces.flatten ++ s ∧
      (∀ last, ps.getLast? = some last → Ended newline (INI_BUFFERSIZE - 1) last) ∧
      ∀ tail, document (ps ++ tail) = document (pieces ++ tail) := by
  have single : ∀ last, [[newline]].getLast? = some last → Ended newline (INI_BUFFERSIZE - 1) last := by
    intro last same
    obtain rfl := Option.some.inj same
    exact .inl rfl
  rcases List.eq_nil_or_concat pieces with rfl | ⟨before, last, rfl⟩
  · rcases shape with rfl | ⟨-, ended⟩
    · exact ⟨[[newline]], cut_newline, rfl, single, document_newline⟩
    · contradiction
  rw [List.concat_eq_append] at cut shape ⊢
  have nonempty := cut.ne_nil (show last ∈ before ++ [last] by simp)
  by_cases ended : Ended newline (INI_BUFFERSIZE - 1) last
  · have all : ∀ l, (before ++ [last]).getLast? = some l → Ended newline (INI_BUFFERSIZE - 1) l := by
      intro l same
      rw [List.getLast?_concat, Option.some.injEq] at same
      exact same ▸ ended
    rcases shape with rfl | ⟨rfl, -⟩
    · refine ⟨before ++ [last] ++ [[newline]], cut.append cut_newline all, by simp, ?_, fun tail => ?_⟩
      · intro l same
        rw [List.getLast?_concat] at same
        exact single l same
      · rw [List.append_assoc (before ++ [last])]
        exact document_congr (document_newline tail) _
    · exact ⟨before ++ [last], cut, by simp, all, fun tail => rfl⟩
  · have open_end : last.getLast? ≠ some newline := fun same => ended (.inl same)
    have free := cut.free (by simp) open_end
    have short : last.length < INI_BUFFERSIZE - 1 :=
      lt_of_le_of_ne (cut.length_le (show last ∈ before ++ [last] by simp)) fun full => ended (.inr full)
    rcases shape with rfl | ⟨-, closed⟩
    · refine ⟨before ++ [last ++ [newline]], ?_, by simp, ?_, fun tail => ?_⟩
      · exact cut.left.append (Cut.line free short .nil) fun l same => cut.ended (by simp) same
      · intro l same
        rw [List.getLast?_concat, Option.some.injEq] at same
        exact same ▸ .inl (by simp)
      · rw [List.append_assoc, List.append_assoc]
        exact document_congr (document_terminated last tail) _
    · rw [List.flatten_append, List.flatten_singleton, List.getLast?_append_of_ne_nil _ nonempty] at closed
      exact absurd closed open_end

/-- A key that is read again as it was written. -/
structure LegibleKey (key : List UInt8) : Prop where
  named : key ≠ []
  trimmed : ltrim key = key ∧ rtrim key = key
  equal : '='.toUInt8 ∉ key
  plain : newline ∉ key
  semicolon : key.head? ≠ some ';'.toUInt8
  hash : key.head? ≠ some '#'.toUInt8
  bracket : key.head? ≠ some '['.toUInt8

instance (key : List UInt8) : Decidable (LegibleKey key) :=
  decidable_of_iff (key ≠ [] ∧ (ltrim key = key ∧ rtrim key = key) ∧ '='.toUInt8 ∉ key ∧ newline ∉ key ∧
      key.head? ≠ some ';'.toUInt8 ∧ key.head? ≠ some '#'.toUInt8 ∧ key.head? ≠ some '['.toUInt8)
    ⟨fun all => ⟨all.1, all.2.1, all.2.2.1, all.2.2.2.1, all.2.2.2.2.1, all.2.2.2.2.2.1, all.2.2.2.2.2.2⟩,
      fun key => ⟨key.named, key.trimmed, key.equal, key.plain, key.semicolon, key.hash, key.bracket⟩⟩

section Written
variable {key value : List UInt8}

theorem ltrim_written (legible : LegibleKey key) (back : List UInt8) : ltrim (key ++ back) = key ++ back := by
  obtain ⟨c, rest, rfl⟩ := List.exists_cons_of_ne_nil legible.named
  have solid : ¬ blank c := by
    intro leading
    have shorter : (rest.dropWhile blank).length ≤ rest.length := List.length_dropWhile_le ..
    have same := congrArg List.length legible.trimmed.1
    rw [ltrim, List.dropWhile_cons_of_pos leading, List.length_cons] at same
    omega
  rw [ltrim, List.cons_append, List.dropWhile_cons_of_neg solid]

theorem parseLine_written (legible : LegibleKey key) (value : List UInt8) :
    parseLine (keyLine (key, quoted value)) = .entry key (readBack value) := by
  have trimmed := ltrim_written legible ('='.toUInt8 :: (quoted value ++ [newline]))
  have split := splitFirst_append legible.equal (quoted value ++ [newline])
  obtain ⟨c, rest, rfl⟩ := List.exists_cons_of_ne_nil legible.named
  have semicolon : c ≠ ';'.toUInt8 := by simpa using legible.semicolon
  have hash : c ≠ '#'.toUInt8 := by simpa using legible.hash
  have bracket : c ≠ '['.toUInt8 := by simpa using legible.bracket
  rw [List.cons_append] at trimmed split
  simp only [keyLine, List.append_assoc, List.cons_append, parseLine, trimmed, semicolon, hash,
    bracket, or_self,
    if_false, parseEntry, split, Option.some_or, legible.trimmed.2, clean_quoted]

theorem inner_written (legible : LegibleKey key) (value : List UInt8) :
    ¬ opensSection (keyLine (key, quoted value)) := by
  have trimmed := ltrim_written legible ('='.toUInt8 :: (quoted value ++ [newline]))
  obtain ⟨c, rest, rfl⟩ := List.exists_cons_of_ne_nil legible.named
  have bracket : c ≠ '['.toUInt8 := by simpa using legible.bracket
  rw [List.cons_append] at trimmed
  simp [keyLine, opensSection, trimmed, bracket]

theorem quoted_plain (plain : newline ∉ value) : newline ∉ quoted value := by
  have escaped (s : List UInt8) (plain : newline ∉ s) : newline ∉ escapeQuotes s := by
    induction s with
    | nil => simp [escapeQuotes]
    | cons c s ih =>
      rw [List.mem_cons, not_or] at plain
      have backslash : newline ≠ '\\'.toUInt8 := by decide
      unfold escapeQuotes
      split <;> simp [plain.1, ih plain.2, backslash]
  have quote : newline ≠ '"'.toUInt8 := by decide
  unfold quoted
  split
  · simp [quote, escaped value plain]
  · exact plain

/-- A setting that is read again, in the end, from the line that was written. -/
structure LegibleSetting (key value : List UInt8) : Prop where
  legible : LegibleKey key
  plain : newline ∉ value
  writable : Writable key value

instance (key value : List UInt8) : Decidable (LegibleSetting key value) :=
  decidable_of_iff (LegibleKey key ∧ newline ∉ value ∧ Writable key value)
    ⟨fun all => ⟨all.1, all.2.1, all.2.2⟩, fun setting => ⟨setting.legible, setting.plain, setting.writable⟩⟩

theorem cut_setting (setting : LegibleSetting key value) {ps : List (List UInt8)}
    (cut : Cut newline (INI_BUFFERSIZE - 1) ps) :
    Cut newline (INI_BUFFERSIZE - 1) (keyLine (key, quoted value) :: ps) := by
  have fits := setting.writable.fits
  refine Cut.line ?_ ?_ cut
  · have equal : newline ≠ '='.toUInt8 := by decide
    simp [setting.legible.plain, quoted_plain setting.plain, equal]
  · simp
    omega

end Written

/-- What is done about a key: a value is given to it, or it is erased. -/
def edit (key : List UInt8) (value : Option (List UInt8)) :
    Settings (List UInt8) (List UInt8) → Settings (List UInt8) (List UInt8) :=
  match value with
  | some value => insert folded key (readBack value)
  | none => erase folded key

/-- The line of the setting, if it has a value. -/
def settingLines (key : List UInt8) (value : Option (List UInt8)) : List (List UInt8) :=
  match value with
  | some value => [keyLine (key, quoted value)]
  | none => []

section Edit
variable {sectionName : Option (List UInt8)} {key : List UInt8} {value : Option (List UInt8)}
  {pieces front pre old new : List (List UInt8)}

theorem edit_append {left right : Settings (List UInt8) (List UInt8)}
    (absent : lookup folded key left = none) :
    edit key value (left ++ right) = left ++ edit key value right := by
  cases value with
  | some v => exact insert_append absent
  | none => exact erase_append absent

theorem document_edit (below : Below sectionName pieces front (pre ++ old))
    (passed : ∀ l ∈ pre, ¬ opensSection l ∧ ¬ isKey key l)
    (sections : (document new).sections = (document old).sections)
    (top : (document new).top = edit key value (document old).top) :
    document (front ++ (pre ++ new)) = (document pieces).modify folded sectionName (edit key value) := by
  have inner : ∀ l ∈ pre, ¬ opensSection l := fun l member => (passed l member).1
  have absent := lookup_passed inner fun l member => (passed l member).2
  obtain ⟨oldSections, oldTop⟩ := document_body inner old
  obtain ⟨newSections, newTop⟩ := document_body inner new
  have edited : (document (pre ++ new)).top = edit key value (document (pre ++ old)).top := by
    rw [newTop, oldTop, top, edit_append absent]
  have same : (document (pre ++ new)).sections = (document (pre ++ old)).sections := by
    rw [newSections, oldSections, sections]
  rw [below.split]
  cases sectionName with
  | none =>
    obtain rfl := below.top rfl
    simp only [List.nil_append, Document.modify, Document.ext_iff]
    exact ⟨edited, same⟩
  | some name =>
    obtain ⟨before, head, rfl, others, matched⟩ := below.header name rfl
    obtain ⟨n, parsed, -⟩ := isHead_iff.mp matched
    have opens := header_opens parsed
    have unnamed : (document before).sections.find? (isNamed folded name) = none := by
      simpa [Document.settings] using settings_absent others
    rw [isHead_eq name head (document (pre ++ old)).top] at matched
    rw [List.append_assoc, List.append_assoc, List.singleton_append, List.singleton_append,
      document_split opens,
      document_split opens, Document.modify, modifyFirst_append unnamed matched, edited, same]
    rfl

theorem document_setting (legible : ∀ v, value = some v → LegibleSetting key v) (rest : List (List UInt8)) :
    (document (settingLines key value ++ rest)).sections = (document rest).sections ∧
      ((document rest).top = [] → (document (settingLines key value ++ rest)).top = edit key value []) ∧
      ∀ k other, folded k = folded key →
        (document (settingLines key value ++ rest)).top = edit key value
          ((k, other) :: (document rest).top) := by
  cases value with
  | none =>
    refine ⟨rfl, fun empty => empty, fun k other same => ?_⟩
    rw [edit, erase_cons, if_pos same]
    rfl
  | some v =>
    obtain ⟨written, -, -⟩ := legible v rfl
    rw [settingLines, List.singleton_append, document_entry (inner_written written v)
      (parseLine_written written v)]
    refine ⟨rfl, fun empty => ?_, fun k other same => ?_⟩
    · rw [empty]
      rfl
    · rw [edit, Sections.insert, if_pos same]

theorem readDocument_pieces {ps : List (List UInt8)} (cut : Cut newline (INI_BUFFERSIZE - 1) ps) :
    readDocument ps.flatten = document ps := by
  rw [readDocument, readPieces, cut.eq_chop (by decide)]

theorem cut_settingLines (legible : ∀ v, value = some v → LegibleSetting key v) {ps : List (List UInt8)}
    (cut : Cut newline (INI_BUFFERSIZE - 1) ps) :
    Cut newline (INI_BUFFERSIZE - 1) (settingLines key value ++ ps) := by
  cases value with
  | none => exact cut
  | some v => exact cut_setting (legible v rfl) cut

theorem flatten_settingLines (key : List UInt8) (value : Option (List UInt8)) :
    (settingLines key value).flatten = settingText (some key) value := by
  cases value <;> simp [settingLines, settingText]

theorem readDocument_last {pieces ls : List (List UInt8)} {s : List UInt8}
    (cut : Cut newline (INI_BUFFERSIZE - 1) pieces)
    (shape : s = [newline] ∨ s = [] ∧ pieces.flatten.getLast? = some newline)
    (added : Cut newline (INI_BUFFERSIZE - 1) ls) :
    readDocument (pieces.flatten ++ s ++ ls.flatten) = document (pieces ++ ls) := by
  obtain ⟨ps, cut', whole, ended, same⟩ := exists_ended cut shape
  rw [← whole, ← same ls, ← List.flatten_append]
  exact readDocument_pieces (cut'.append added ended)

theorem readDocument_middle {ps : List (List UInt8)} {line : List UInt8} {post : List (List UInt8)}
    (cut : Cut newline (INI_BUFFERSIZE - 1) (ps ++ line :: post))
    (legible : ∀ v, value = some v → LegibleSetting key v) {rest : List (List UInt8)}
    (suffix : rest <:+ line :: post) :
    readDocument (ps.flatten ++ settingText (some key) value ++ rest.flatten) =
      document (ps ++ (settingLines key value ++ rest)) := by
  obtain ⟨skipped, split⟩ := suffix
  have right : Cut newline (INI_BUFFERSIZE - 1) rest := (split ▸ cut.right).right
  have whole := cut.left.append (cut_settingLines legible right) fun _ member => cut.ended (by simp) member
  rw [← readDocument_pieces whole, List.flatten_append, List.flatten_append, flatten_settingLines,
    List.append_assoc]

theorem lastText_setting (cached : List (List UInt8)) (sectionName key value : List UInt8) :
    lastText cached sectionName (some key) (some value) =
      separator cached ++ headerText sectionName ++ keyLine (key, quoted value) := rfl

theorem lastText_none (cached : List (List UInt8)) (sectionName : List UInt8) (key : Option (List UInt8)) :
    lastText cached sectionName key none = [] := by
  cases key <;> rfl

/-- The lines below the header, with the key set or erased, are those of the edited settings. -/
theorem readDocument_entryText {text : List UInt8} {rest : List (List UInt8)}
    (below : Below sectionName (readPieces text) front rest) (written : LegibleKey key)
    (legible : ∀ v, value = some v → LegibleSetting key v) :
    readDocument (front.flatten ++ entryText key value rest) =
      (readDocument text).modify folded sectionName (edit key value) := by
  obtain ⟨cut, -⟩ := readPieces_spec text
  have keylike : Keylike key := ⟨written.semicolon, written.hash⟩
  have ends (l : List UInt8) : endsSearch (some key) l ↔ opensSection l ∨ isKey key l :=
    endsSearch_iff_isKey keylike written.named
  have passes {pre : List (List UInt8)} (passed : ∀ l ∈ pre, ¬ opensSection l ∧ ¬ isKey key l) :
      ∀ l ∈ pre, (!endsSearch (some key) l) = true := by
    intro l member
    obtain ⟨opens, sets⟩ := passed l member
    simpa using mt (ends l).mp (not_or.mpr ⟨opens, sets⟩)
  have stops {line : List UInt8} (stop : opensSection line ∨ isKey key line) :
      ¬ (!endsSearch (some key) line) = true := by
    simpa using (ends line).mpr stop
  rcases search_split key rest with ⟨passed, -⟩ | ⟨pre, line, post, rfl, passed, stop⟩
  · -- the section ends with the file
    have taken := List.takeWhile_eq_self_iff.mpr (passes passed)
    have dropped := List.dropWhile_eq_nil_iff.mpr (passes passed)
    have text_eq : front.flatten ++ entryText key value rest =
        (readPieces text).flatten ++ lastText (lastBlock rest) [] (some key) value := by
      rw [entryText, taken, dropped, below.split, List.flatten_append, List.append_assoc]
    obtain ⟨sections, fresh, -⟩ := document_setting legible []
    have edited : document (front ++ (rest ++ (settingLines key value ++ []))) =
        (document (readPieces text)).modify folded sectionName (edit key value) :=
      document_edit (by rw [List.append_nil]; exact below) passed sections (fresh rfl)
    rw [text_eq]
    refine Eq.trans ?_ edited
    rw [← List.append_assoc, ← below.split, List.append_nil]
    cases value with
    | none =>
      rw [lastText_none, List.append_nil, settingLines, List.append_nil]
      exact readDocument_pieces cut
    | some v =>
      have shape : separator (lastBlock rest) = [newline] ∨
          separator (lastBlock rest) = [] ∧ (readPieces text).flatten.getLast? = some newline := by
        rcases separator_cases rest with new | ⟨none, closed⟩
        · exact .inl new
        · refine .inr ⟨none, ?_⟩
          rw [below.split, List.flatten_append, List.getLast?_append, closed]
          rfl
      have read := readDocument_last cut shape (cut_setting (legible v rfl) .nil)
      rw [lastText_setting, headerText, if_pos rfl, List.append_nil]
      simpa [settingLines] using read
  · have split : readPieces text = front ++ pre ++ line :: post := by rw [below.split, List.append_assoc]
    have middle : Cut newline (INI_BUFFERSIZE - 1) (front ++ pre ++ line :: post) := split ▸ cut
    have stopped : opensSection line ∨ isKey key line := by
      rcases stop with ⟨opens, -⟩ | ⟨-, k, v, parsed, same, -⟩
      · exact .inl opens
      · exact .inr (isKey_iff.mpr ⟨k, v, parsed, same⟩)
    obtain ⟨taken, dropped⟩ := takeWhile_stops post (passes passed) (stops stopped)
    rcases stop with ⟨opens, -⟩ | ⟨inner, k, v, parsed, same, -⟩
    · have text_eq : front.flatten ++ entryText key value (pre ++ line :: post) =
          (front ++ pre).flatten ++ settingText (some key) value ++ (line :: post).flatten := by
        simp only [entryText, taken, dropped, if_pos opens, List.flatten_append, List.append_assoc]
      rw [text_eq, readDocument_middle middle legible List.suffix_rfl, List.append_assoc, readDocument]
      have top : (document (line :: post)).top = [] := by rw [document_opens opens]
      obtain ⟨sections, fresh, -⟩ := document_setting legible (line :: post)
      exact document_edit below passed sections (by rw [fresh top, top])
    · have text_eq : front.flatten ++ entryText key value (pre ++ line :: post) =
          (front ++ pre).flatten ++ settingText (some key) value ++ post.flatten := by
        simp only [entryText, taken, dropped, if_neg inner, List.flatten_append, List.append_assoc]
      rw [text_eq, readDocument_middle middle legible (List.suffix_cons line post), List.append_assoc,
        readDocument]
      obtain ⟨sections, -, found⟩ := document_setting legible post
      refine document_edit below passed ?_ ?_
      · rw [sections, document_entry inner parsed]
      · rw [document_entry inner parsed, found k v same]

end Edit

section Rewritten
variable {sectionName : Option (List UInt8)} {text : List UInt8}

theorem settings_none {name : List UInt8} : (readDocument text).settings folded (some name) = none ↔
    ∀ line ∈ readPieces text, ¬ isHead name line := by
  constructor
  · intro missing line member matched
    obtain ⟨head, rest, -, heads, split⟩ := linesFrom_split ⟨line, member, matched⟩
    have before : ∀ l ∈ linesBefore name (readPieces text), ¬ isHead name l := fun l inside =>
      not_isHead_before inside
    have there := settings_found before heads rest
    rw [← split] at there
    exact absurd (missing.symm.trans there) (by simp)
  · exact settings_absent

/-- A section's name that can be written and is read again. -/
structure LegibleName (name : List UInt8) : Prop where
  named : Named name
  plain : newline ∉ name

instance (name : List UInt8) : Decidable (LegibleName name) :=
  decidable_of_iff (Named name ∧ newline ∉ name)
    ⟨fun both => ⟨both.1, both.2⟩, fun legible => ⟨legible.named, legible.plain⟩⟩

theorem settingRewritten_missing {name : List UInt8} (named : name ≠ [])
    (missing : (readDocument text).settings folded (some name) = none) (key value : Option (List UInt8)) :
    settingRewritten name key value (readPieces text) =
      (readPieces text).flatten ++ lastText (lastBlock (readPieces text)) name key value := by
  have absent := settings_none.mp missing
  rw [settingRewritten, if_neg named, if_neg]
  rintro ⟨line, member, matched⟩
  exact absent line member matched

theorem cut_header {name : List UInt8} (legible : LegibleName name) {ps : List (List UInt8)}
    (cut : Cut newline (INI_BUFFERSIZE - 1) ps) :
    Cut newline (INI_BUFFERSIZE - 1) (('['.toUInt8 :: name ++ [']'.toUInt8, newline]) :: ps) := by
  have fits := legible.named.fits
  have opening : newline ≠ '['.toUInt8 := by decide
  have closing : newline ≠ ']'.toUInt8 := by decide
  have body : newline ∉ '['.toUInt8 :: name ++ [']'.toUInt8] := by simp [legible.plain, opening, closing]
  have short : ('['.toUInt8 :: name ++ [']'.toUInt8]).length < INI_BUFFERSIZE - 1 := by
    simp
    omega
  have line := Cut.line body short cut
  rwa [List.append_assoc, List.singleton_append] at line

theorem readDocument_newSection {name key value : List UInt8} (legible : LegibleName name)
    (setting : LegibleSetting key value) :
    readDocument ((readPieces text).flatten ++ lastText (lastBlock (readPieces text)) name (some key)
      (some value)) =
      ⟨(readDocument text).top, (readDocument text).sections ++ [(some name, [(key, readBack value)])]⟩ := by
  have read := readDocument_last (readPieces_spec text).1 (separator_cases _)
    (cut_header legible (cut_setting setting .nil))
  rw [document_split (header_opens parseLine_head), headerName_iff.mpr parseLine_head,
    document_entry (inner_written setting.legible value) (parseLine_written setting.legible value)] at read
  rw [lastText_setting, headerText, if_neg legible.named.nonempty]
  simpa [document, readDocument] using read

theorem readDocument_put (text : List UInt8) {key value : List UInt8} (setting : LegibleSetting key value)
    (legible : ∀ name, sectionOf sectionName = some name → LegibleName name) :
    readDocument (settingRewritten (sectionName.getD []) (some key) (some value) (readPieces text)) =
      (readDocument text).put folded (sectionOf sectionName) key (readBack value) := by
  unfold Document.put
  cases there : (readDocument text).settings folded (sectionOf sectionName) with
  | some settings =>
    obtain ⟨front, rest, below⟩ := exists_below there
    rw [settingRewritten_below below, Option.isSome_some, if_pos rfl]
    exact readDocument_entryText below setting.legible fun v same => Option.some.inj same ▸ setting
  | none =>
    rw [Option.isSome_none, if_neg Bool.false_ne_true]
    cases shape : sectionOf sectionName with
    | none =>
      rw [shape] at there
      contradiction
    | some name =>
      obtain ⟨rfl, nonempty⟩ := sectionOf_some.mp shape
      rw [shape] at there
      rw [Option.getD_some, settingRewritten_missing nonempty there,
        readDocument_newSection (legible name shape) setting]

theorem readDocument_eraseKey (text : List UInt8) (sectionName : Option (List UInt8)) {key : List UInt8}
    (written : LegibleKey key) :
    readDocument (settingRewritten (sectionName.getD []) (some key) none (readPieces text)) =
      (readDocument text).eraseKey folded (sectionOf sectionName) key := by
  unfold Document.eraseKey
  cases there : (readDocument text).settings folded (sectionOf sectionName) with
  | some settings =>
    obtain ⟨front, rest, below⟩ := exists_below there
    rw [settingRewritten_below below]
    exact readDocument_entryText below written (by simp)
  | none =>
    rw [Document.modify_absent there]
    cases shape : sectionOf sectionName with
    | none =>
      rw [shape] at there
      contradiction
    | some name =>
      obtain ⟨rfl, nonempty⟩ := sectionOf_some.mp shape
      rw [shape] at there
      rw [Option.getD_some, settingRewritten_missing nonempty there, lastText_none, List.append_nil,
        (readPieces_spec text).2]

theorem document_behind {ls : List (List UInt8)} (starts : dropBody ls = ls) (front : List (List UInt8)) :
    document (front ++ ls) =
      ⟨(document front).top, (document front).sections ++ (document ls).sections⟩ := by
  cases ls with
  | nil => simp [document]
  | cons line rest =>
    have opens := dropBody_opens starts
    rw [document_split opens, document_opens opens]

theorem document_dropBody (ls : List (List UInt8)) :
    document (dropBody ls) = ⟨[], (document ls).sections⟩ := by
  have split := List.takeWhile_append_dropWhile (p := fun line => !opensSection line) (l := ls)
  have inner : ∀ l ∈ ls.takeWhile fun line => !opensSection line, ¬ opensSection l := by
    intro l member
    simpa using List.mem_takeWhile_imp member
  have body := (document_body inner (dropBody ls)).1
  rw [dropBody, split] at body
  rw [body]
  cases below : ls.dropWhile fun line => !opensSection line with
  | nil => rw [dropBody, below]; rfl
  | cons line rest =>
    have opens : opensSection line := dropBody_opens (show dropBody ls = line :: rest from below)
    rw [dropBody, below, document_opens opens]

theorem dropBody_idem (ls : List (List UInt8)) : dropBody (dropBody ls) = dropBody ls := by
  rw [dropBody, dropBody, List.dropWhile_idempotent]

section Head
variable {name head : List UInt8} {pre rest : List (List UInt8)}

theorem exists_head {old : Settings (List UInt8) (List UInt8)}
    (there : (readDocument text).settings folded (some name) = some old) :
    ∃ pre head rest, readPieces text = pre ++ head :: rest ∧ (∀ l ∈ pre, ¬ isHead name l) ∧
      isHead name head := by
  have found : ∃ line ∈ readPieces text, isHead name line := by
    by_contra absent
    rw [settings_none.mpr fun line member matched => absent ⟨line, member, matched⟩] at there
    contradiction
  obtain ⟨head, rest, -, matched, split⟩ := linesFrom_split found
  exact ⟨_, head, rest, split, fun l member => not_isHead_before member, matched⟩

variable (split : readPieces text = pre ++ head :: rest)
include split

theorem readDocument_between (ls : List (List UInt8))
    (cut : ∀ {ps}, Cut newline (INI_BUFFERSIZE - 1) ps → Cut newline (INI_BUFFERSIZE - 1) (ls ++ ps)) :
    readDocument (pre.flatten ++ ls.flatten ++ (dropBody rest).flatten) = document
      (pre ++ (ls ++ dropBody rest)) := by
  have whole := (readPieces_spec text).1
  rw [split] at whole
  have right : Cut newline (INI_BUFFERSIZE - 1) (dropBody rest) := by
    obtain ⟨skipped, same⟩ := List.dropWhile_suffix (fun line => !opensSection line) (l := rest)
    have below := whole.right
    rw [← List.singleton_append] at below
    exact (same ▸ below.right).right
  have all := whole.left.append (cut right) fun _ member => whole.ended (by simp) member
  rw [← readDocument_pieces all, List.flatten_append, List.flatten_append, List.append_assoc]

variable (others : ∀ l ∈ pre, ¬ isHead name l) (matched : isHead name head)
include others matched

theorem readDocument_head :
    readDocument text = ⟨(document pre).top,
        (document pre).sections ++ (headerName head, (document rest).top) :: (document rest).sections⟩ ∧
      (∀ s ∈ (document pre).sections, ¬ isNamed folded name s) ∧
      isNamed folded name (headerName head, (document rest).top) := by
  obtain ⟨n, parsed, -⟩ := isHead_iff.mp matched
  refine ⟨?_, ?_, ?_⟩
  · rw [readDocument, split, document_split (header_opens parsed)]
  · simpa [Document.settings] using settings_absent others
  · rwa [← isHead_eq name head (document rest).top]

end Head

theorem readDocument_eraseSection (text : List UInt8) {name : List UInt8} (named : name ≠ [])
    (value : Option (List UInt8)) :
    readDocument (settingRewritten name none value (readPieces text)) =
      (readDocument text).eraseSection folded name := by
  cases there : (readDocument text).settings folded (some name) with
  | none =>
    have absent : ∀ s ∈ (readDocument text).sections, ¬ isNamed folded name s := by
      simpa [Document.settings] using there
    have nothing : lastText (lastBlock (readPieces text)) name none value = [] := by cases value <;> rfl
    rw [settingRewritten_missing named there, nothing, List.append_nil, (readPieces_spec text).2,
      Document.eraseSection, List.eraseP_of_forall_not absent]
  | some settings =>
    obtain ⟨pre, head, rest, split, others, matched⟩ := exists_head there
    obtain ⟨doc, unnamed, isNamed⟩ := readDocument_head split others matched
    obtain ⟨before, from_head⟩ := linesBefore_append rest others matched
    have found : ∃ l ∈ pre ++ head :: rest, isHead name l := ⟨head, by simp, matched⟩
    have shape : settingRewritten name none value (readPieces text) =
        pre.flatten ++ ([] : List (List UInt8)).flatten ++ (dropBody rest).flatten := by
      rw [settingRewritten, if_neg named, split, if_pos found, before, from_head, sectionRewritten,
        List.tail_cons,
        List.flatten_nil, List.append_nil]
    rw [shape, readDocument_between split [] id, List.nil_append, document_behind (dropBody_idem rest),
      document_dropBody, doc, Document.eraseSection, List.eraseP_append_right _ unnamed,
      List.eraseP_cons_of_pos isNamed]

/-- Without a section and a key, the settings at the top are erased, or if there are none because
the first line starts a section, that section. -/
theorem readDocument_eraseTop (text : List UInt8) (value : Option (List UInt8)) :
    readDocument (settingRewritten [] none value (readPieces text)) =
      ⟨[], if (readPieces text).head?.any opensSection then (readDocument text).sections.tail
        else (readDocument text).sections⟩ := by
  obtain ⟨cut, -⟩ := readPieces_spec text
  have shape : settingRewritten [] none value (readPieces text) = (dropBody (readPieces text).tail).flatten :=
      rfl
  have right : Cut newline (INI_BUFFERSIZE - 1) (dropBody (readPieces text).tail) := by
    obtain ⟨skipped, whole⟩ := (List.dropWhile_suffix (fun line => !opensSection line)).trans
      (List.tail_suffix (readPieces text))
    exact (whole ▸ cut).right
  rw [shape, readDocument_pieces right, document_dropBody, readDocument]
  cases readPieces text with
  | nil => rfl
  | cons line rest =>
    by_cases opens : opensSection line
    · rw [document_opens opens]
      simp [opens]
    · rw [(document_inner opens rest).1]
      simp [opens]

end Rewritten

/-- Asked to erase what is above the first section, the call erases that section instead when the
text begins with its header. -/
theorem iniPuts_eraseTop {sectionName : Option (List UInt8)} (unnamed : sectionOf sectionName = none)
    {text : List UInt8} {filename : Path} {files : Files} (present : files filename = some text)
      (free : 0 ∉ text)
    (named : Filename filename) (value : Option (List UInt8)) (stack inner : Chars INI_BUFFERSIZE) :
    ∃ files' out, Returns (iniPuts stack inner .ok true sectionName none value filename files)
      (files', true) ∧
      files' filename = some out ∧
      readDocument out =
        ⟨[], if (readPieces text).head?.any opensSection then (readDocument text).sections.tail
        else (readDocument text).sections⟩ := by
  have empty := sectionOf_none.mp unnamed
  have putting : Putting (sectionName.getD []) none value := ⟨by simp, fun some => absurd empty some⟩
  obtain ⟨files', returns, content, -⟩ :=
    iniPuts_spec present (fun t same => Option.some.inj same ▸ free) named putting stack inner
  refine ⟨files', settingRewritten [] none value (readPieces text), returns, ?_,
    readDocument_eraseTop text value⟩
  have shape : putText sectionName none value text =
      settingRewritten (sectionName.getD []) none value (readPieces text) := by cases value <;> rfl
  rw [content, putContent, shape, empty]

theorem iniPuts_eraseTop_header : ∃ files' out,
    Returns (iniPuts (.replicate _ 0) (.replicate _ 0) .ok true none none none (bytes "x.ini")
      (fun _ => some (bytes "[S]\na=1\n[T]\n"))) (files', true) ∧
    files' (bytes "x.ini") = some out ∧ readDocument out = ⟨[], [(some (bytes "T"), [])]⟩ := by
  have named : Filename (bytes "x.ini") := by decide
  have erased := @iniPuts_eraseTop none rfl _ _ (fun _ => some (bytes "[S]\na=1\n[T]\n")) rfl
    (by decide) named none
    (.replicate _ 0) (.replicate _ 0)
  have sections : (⟨[], if (readPieces (bytes "[S]\na=1\n[T]\n")).head?.any opensSection then
      (readDocument (bytes "[S]\na=1\n[T]\n")).sections.tail
        else (readDocument (bytes "[S]\na=1\n[T]\n")).sections⟩ : Doc) =
          ⟨[], [(some (bytes "T"), [])]⟩ := by decide
  rw [sections] at erased
  exact erased

end SysHelo.MinIni
