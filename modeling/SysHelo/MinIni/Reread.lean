import SysHelo.MinIni.Replace

/-! Reading a text again after a section of it has been replaced. -/
namespace SysHelo.MinIni
open CString Stdio Lines

/-- A key and a value that are read as they are written. -/
structure Legible (setting : List UInt8 × List UInt8) : Prop where
  key : ∀ c ∈ setting.1, ¬ blank c ∧ c ≠ '='.toUInt8 ∧ c ≠ ';'.toUInt8 ∧ c ≠ '#'.toUInt8 ∧ c ≠ '['.toUInt8
  named : setting.1 ≠ []
  value : ∀ c ∈ setting.2, ¬ blank c ∧ c ≠ '"'.toUInt8 ∧ c ≠ ';'.toUInt8 ∧ c ≠ '#'.toUInt8
  given : setting.2 ≠ []

theorem ltrim_self {s : List UInt8} (solid : ∀ c ∈ s, ¬ blank c) (back : List UInt8) (nonempty : s ≠ []) :
    ltrim (s ++ back) = s ++ back := by
  obtain ⟨c, s, rfl⟩ := List.exists_cons_of_ne_nil nonempty
  exact List.dropWhile_cons_of_neg (solid c (by simp))

theorem rtrim_self {s : List UInt8} (solid : ∀ c ∈ s, ¬ blank c) (back : List UInt8)
    (blanks : ∀ c ∈ back, blank c) : rtrim (s ++ back) = s := by
  induction back using List.reverseRecOn with
  | nil =>
    rw [List.append_nil, rtrim, List.rdropWhile_eq_self_iff]
    intro nonempty
    exact solid _ (List.getLast_mem nonempty)
  | append_singleton back c ih =>
    rw [← List.append_assoc, rtrim, List.rdropWhile_concat_pos _ _ _ (blanks c (by simp))]
    exact ih (fun d member => blanks d (by simp [member]))

theorem uncomment_self {s : List UInt8} (plain : ∀ c ∈ s, c ≠ ';'.toUInt8 ∧ c ≠ '#'.toUInt8)
    (isstring : Bool) : uncomment isstring s = s := by
  fun_induction uncomment isstring s with
  | case1 => rfl
  | case2 isstring c start =>
    have := plain c (by simp)
    tauto
  | case3 => rfl
  | case4 isstring c d s start =>
    have := plain c (by simp)
    tauto
  | case5 isstring c d s start escaped ih => rw [ih (fun e member => plain e (by simp [member]))]
  | case6 isstring c d s start escaped ih => rw [ih (fun e member => plain e (by simp [member]))]

/-- A line that `writekey` writes is read as its key and value. -/
theorem parseLine_keyLine {setting : List UInt8 × List UInt8} (legible : Legible setting) :
    parseLine (keyLine setting) = .entry setting.1 setting.2 := by
  obtain ⟨key, value⟩ := setting
  obtain ⟨keySolid, named, valueSolid, given⟩ := legible
  dsimp only at keySolid named valueSolid given ⊢
  have line : keyLine (key, value) = key ++ '='.toUInt8 :: (value ++ [newline]) := by
    simp [keyLine]
  have trimmed : ltrim (keyLine (key, value)) = keyLine (key, value) := by
    rw [line]
    exact ltrim_self (fun c member => (keySolid c member).1) _ named
  have cut : splitFirst '='.toUInt8 (keyLine (key, value)) = some (key, value ++ [newline]) := by
    rw [line]
    exact splitFirst_append (fun member => (keySolid _ member).2.1 rfl) _
  have strippedKey : rtrim key = key := by
    simpa using rtrim_self (fun c member => (keySolid c member).1) [] (by simp)
  have cleaned : clean (ltrim (value ++ [newline])) = value := by
    have stripped : rtrim (value ++ [newline]) = value :=
      rtrim_self (fun c member => (valueSolid c member).1) [newline] (by simp; decide)
    have unquoted : value.head? ≠ some '"'.toUInt8 := by
      intro quote
      exact (valueSolid _ (List.mem_of_head? quote)).2.1 rfl
    have whole : uncomment false (value ++ [newline]) = value ++ [newline] := by
      refine uncomment_self (fun c member => ?_) false
      rcases List.mem_append.mp member with inside | last
      · exact (valueSolid c inside).2.2
      · rw [List.mem_singleton.mp last]
        decide
    rw [ltrim_self (fun c member => (valueSolid c member).1) _ given, clean, whole, stripped,
      if_neg (fun quoted => unquoted quoted.1)]
  obtain ⟨c, s, shape⟩ := List.exists_cons_of_ne_nil named
  obtain ⟨-, -, semicolon, hash, bracket⟩ := keySolid c (by rw [shape]; simp)
  have first : keyLine (key, value) = c :: (s ++ '='.toUInt8 :: (value ++ [newline])) := by
    rw [line, shape, List.cons_append]
  have parsed : parseLine (keyLine (key, value)) = parseEntry (keyLine (key, value)) := by
    rw [parseLine, trimmed, first]
    simp only [semicolon, hash, bracket, or_self, if_false]
  rw [parsed, parseEntry, cut, Option.some_or]
  simp only [strippedKey, cleaned]

theorem parseLine_head {sectionName : List UInt8} :
    parseLine ('['.toUInt8 :: sectionName ++ [']'.toUInt8, newline]) = .header sectionName :=
  parseLine_header.mpr ⟨[newline], by simp [ltrim, show ¬ blank '['.toUInt8 by decide], by decide⟩

theorem parseLine_newline : parseLine [newline] = .skip := by decide

section Reading
variable {sectionName : List UInt8} {settings : List (List UInt8 × List UInt8)}

/-- The entries that the settings are read as. -/
def settingEntries (sectionName : List UInt8) (settings : List (List UInt8 × List UInt8)) : List Entry :=
  settings.map fun (key, value) => ⟨sectionName, key, value⟩

/-- The section in force after a section has been written. -/
def sectionBelow (current sectionName : List UInt8) (settings : List (List UInt8 × List UInt8)) :
    List UInt8 :=
  if settings = [] then current else sectionName

theorem entries_keyLines (legible : ∀ setting ∈ settings, Legible setting) (back : List (List UInt8)) :
    entries sectionName (settings.map keyLine ++ back) =
      settingEntries sectionName settings ++ entries sectionName back := by
  induction settings with
  | nil => rfl
  | cons setting settings ih =>
    rw [List.map_cons, List.cons_append, entries, parseLine_keyLine (legible setting (by simp)),
      ih (fun s member => legible s (by simp [member]))]
    rfl

theorem entries_sectionLog (legible : ∀ setting ∈ settings, Legible setting) (current : List UInt8)
    (back : List (List UInt8)) :
    entries current (sectionLog sectionName settings ++ back) =
      settingEntries sectionName settings ++ entries (sectionBelow current sectionName settings) back := by
  by_cases empty : settings = []
  · simp [sectionLog, settingEntries, sectionBelow, empty]
  · rw [sectionLog, if_neg empty, List.append_assoc, List.cons_append, entries, parseLine_head]
    dsimp only
    rw [entries_keyLines legible, List.singleton_append, entries, parseLine_newline, sectionBelow,
      if_neg empty]

/-- Without a header of the section there is no entry in it, and it is not in force after. -/
theorem entries_outside {current : List UInt8} {ls : List (List UInt8)} (outside : current ≠ sectionName)
    (absent : ∀ line ∈ ls, ¬ isHead sectionName line) :
    (∀ e ∈ entries current ls, e.sectionName ≠ sectionName) ∧ sectionAfter current ls ≠ sectionName := by
  induction ls generalizing current with
  | nil => exact ⟨fun _ member => by simp [entries] at member, outside⟩
  | cons line ls ih =>
    have later (l) (member : l ∈ ls) := absent l (List.mem_cons_of_mem _ member)
    rw [entries, sectionAfter]
    cases parsed : parseLine line with
    | skip => exact ih outside later
    | header name =>
      refine ih (fun same => absent line (by simp) (isHead_iff.mpr ⟨name, parsed, ?_⟩)) later
      rw [same]
    | entry key value =>
      obtain ⟨inside, stays⟩ := ih outside later
      exact ⟨List.forall_mem_cons.mpr ⟨outside, inside⟩, stays⟩

theorem isHead_newline {line : List UInt8} (matched : isHead sectionName (line ++ [newline])) :
    isHead sectionName line := by
  obtain ⟨name, parsed, same⟩ := isHead_iff.mp matched
  refine isHead_iff.mpr ⟨name, ?_, same⟩
  obtain ⟨back, content, free⟩ := parseLine_header.mp parsed
  have trimmed : ltrim (line ++ [newline]) = ltrim line ++ [newline] ∨ ltrim (line ++ [newline]) = [] := by
    simp only [ltrim, List.dropWhile_append]
    split
    · exact .inr (by decide)
    · exact .inl rfl
  rcases trimmed with kept | none
  · obtain rfl | ⟨front, c, rfl⟩ := back.eq_nil_or_concat'
    · rw [content] at kept
      have last := congrArg List.getLast? kept
      rw [List.getLast?_concat, List.getLast?_concat] at last
      exact absurd last (by decide)
    · have init := congrArg List.dropLast (content.symm.trans kept)
      rw [List.dropLast_concat, ← List.cons_append, ← List.append_assoc, List.dropLast_concat] at init
      exact parseLine_header.mpr ⟨front, init.symm, fun member => free (by simp [member])⟩
  · rw [content] at none
    simp at none

theorem hasSection_newline {text : List UInt8} (found : HasSection sectionName (text ++ [newline])) :
    HasSection sectionName text := by
  obtain ⟨line, member, matched⟩ := found
  rcases lines_append_sep newline member with old | rfl | ⟨last, old, -, rfl⟩
  · exact ⟨line, old, matched⟩
  · obtain ⟨name, parsed, -⟩ := isHead_iff.mp matched
    rw [parseLine_newline] at parsed
    contradiction
  · exact ⟨last, old, isHead_newline matched⟩

theorem sectionLog_whole (free : newline ∉ sectionName) (legible : ∀ setting ∈ settings, Legible setting) :
    ∀ line ∈ sectionLog sectionName settings, ∃ body, newline ∉ body ∧ line = body ++ [newline] := by
  intro line member
  unfold sectionLog at member
  split at member
  · simp at member
  · simp only [List.mem_append, List.mem_cons, List.mem_map, List.not_mem_nil, or_false] at member
    rcases member with (rfl | ⟨setting, inside, rfl⟩) | rfl
    · refine ⟨'['.toUInt8 :: sectionName ++ [']'.toUInt8], ?_, by simp⟩
      simp only [List.mem_append, List.mem_cons, List.not_mem_nil, or_false, not_or]
      exact ⟨⟨by decide, free⟩, by decide⟩
    · obtain ⟨key, -, value, -⟩ := legible setting inside
      refine ⟨setting.1 ++ '='.toUInt8 :: setting.2, ?_, by simp [keyLine]⟩
      simp only [List.mem_append, List.mem_cons, not_or]
      exact ⟨fun bad => (key _ bad).1 (by decide), by decide, fun bad => (value _ bad).1 (by decide)⟩
    · exact ⟨[], by simp, rfl⟩

theorem isHead_keyLine {setting : List UInt8 × List UInt8} (legible : Legible setting) :
    ¬ isHead sectionName (keyLine setting) := by
  intro matched
  obtain ⟨name, parsed, -⟩ := isHead_iff.mp matched
  rw [parseLine_keyLine legible] at parsed
  contradiction

theorem countP_sectionLog (legible : ∀ setting ∈ settings, Legible setting) :
    (sectionLog sectionName settings).countP (isHead sectionName) ≤ 1 := by
  unfold sectionLog
  split
  · simp
  · have keys : (settings.map keyLine).countP (isHead sectionName) = 0 := by
      apply List.countP_eq_zero.mpr
      intro line member
      obtain ⟨setting, inside, rfl⟩ := List.mem_map.mp member
      exact isHead_keyLine (legible setting inside)
    have blankLine : isHead sectionName [newline] = false := by
      rw [isHead, parseLine_newline]
    rw [List.countP_append, List.countP_cons, keys, List.countP_singleton, blankLine]
    split <;> simp

theorem not_isHead_after {text : List UInt8}
    (single : (lines newline text).countP (isHead sectionName) ≤ 1) (found : HasSection sectionName text) :
    ∀ line ∈ linesAfter sectionName (lines newline text), ¬ isHead sectionName line := by
  obtain ⟨head, rest, split, matched, whole⟩ := linesFrom_cons found
  rw [whole, List.countP_append, List.countP_cons_of_pos matched] at single
  have none : rest.countP (isHead sectionName) = 0 := by omega
  intro line member
  rw [linesAfter, split, List.tail_cons] at member
  exact List.countP_eq_zero.mp none line ((List.dropWhile_suffix _).mem member)

theorem not_isHead_missing {text n : List UInt8}
    (shape : n = [newline] ∨ n = [] ∧ text.getLast? = some newline)
      (missing : ¬ HasSection sectionName text) :
    ∀ line ∈ lines newline (text ++ n), ¬ isHead sectionName line := by
  intro line member matched
  rcases shape with rfl | ⟨rfl, -⟩
  · exact missing (hasSection_newline ⟨line, member, matched⟩)
  · exact missing ⟨line, by simpa using member, matched⟩

/-- The entries below the section, read in the section that is then in force. -/
def entriesBelow (sectionName : List UInt8) (settings : List (List UInt8 × List UInt8))
    (text : List UInt8) : List Entry :=
  if HasSection sectionName text then
    entries (sectionBelow (sectionAfter [] (linesBefore sectionName (lines newline text))) sectionName
      settings) (linesAfter sectionName (lines newline text))
  else []

/-- When the section has a single header and every line that opens a section is a header, the
reader takes no entry below it for one of the section. -/
theorem entriesBelow_outside {text : List UInt8}
    (single : (lines newline text).countP (isHead sectionName) ≤ 1)
    (closed : ∀ line ∈ lines newline text, opensSection line → ∃ name, parseLine line = .header name) :
    ∀ e ∈ entriesBelow sectionName settings text, e.sectionName ≠ sectionName := by
  unfold entriesBelow
  split
  · rename_i found
    have absent := not_isHead_after single found
    have within := linesAfter_isSuffix sectionName (lines newline text)
    cases below : linesAfter sectionName (lines newline text) with
    | nil => simp [entries]
    | cons line rest =>
      rw [below] at absent within
      obtain ⟨name, parsed⟩ := closed line (within.mem (by simp)) (dropBody_opens below)
      have other : name ≠ sectionName := by
        intro same
        exact absent line (by simp) (isHead_iff.mpr ⟨name, parsed, by rw [same]⟩)
      rw [entries, parsed]
      exact (entries_outside other fun line member => absent line (List.mem_cons_of_mem _ member)).1
  · simp

theorem linesBefore_outside (named : sectionName ≠ []) (text : List UInt8) :
    (∀ e ∈ entries [] (linesBefore sectionName (lines newline text)), e.sectionName ≠ sectionName) ∧
      sectionAfter [] (linesBefore sectionName (lines newline text)) ≠ sectionName :=
  entries_outside named.symm fun _ member => not_isHead_before member

theorem lines_before_append (found : HasSection sectionName text) (back : List UInt8) :
    lines newline (before sectionName text ++ back) =
      linesBefore sectionName (lines newline text) ++ lines newline back := by
  obtain ⟨head, rest, -, -, split⟩ := linesFrom_cons found
  obtain ⟨front, -, closed⟩ := lines_cut newline split
  rw [before, lines_append newline (closed (by simp)), front]

theorem lines_after (sectionName text : List UInt8) :
    lines newline (after sectionName text) = linesAfter sectionName (lines newline text) := by
  obtain ⟨front, split⟩ := linesAfter_isSuffix sectionName (lines newline text)
  exact (lines_cut newline split.symm).2.1

section Lines
variable {text out : List UInt8} (free : newline ∉ sectionName)
  (legible : ∀ setting ∈ settings, Legible setting)
include free legible

theorem Replaced.lines_found (replaced : Replaced sectionName settings text out)
    (found : HasSection sectionName text) :
    lines newline out = linesBefore sectionName (lines newline text) ++
      (sectionLog sectionName settings ++ linesAfter sectionName (lines newline text)) := by
  rw [replaced.found found, List.append_assoc, lines_before_append found, ← flatten_sectionLog,
    lines_flatten newline (sectionLog_whole free legible), lines_after]

theorem Replaced.lines_missing (replaced : Replaced sectionName settings text out)
    (missing : ¬ HasSection sectionName text) :
    ∃ n, lines newline out = lines newline (text ++ n) ++ sectionLog sectionName settings ∧
      (n = [newline] ∨ n = [] ∧ text.getLast? = some newline) := by
  obtain ⟨n, rfl, shape⟩ := replaced.missing missing
  have closed : Closed newline (text ++ n) := by
    rcases shape with rfl | ⟨rfl, last⟩
    · exact .inr (by simp)
    · exact .inr (by simpa using last)
  have section_lines := lines_flatten newline (sectionLog_whole free legible) []
  rw [List.append_nil, flatten_sectionLog, lines_nil, List.append_nil] at section_lines
  exact ⟨n, by rw [lines_append newline closed, section_lines], shape⟩

/-- Every line of the new text is an old one, one of the section, or ended by the newline put
before a section at the end. -/
theorem Replaced.mem_lines (replaced : Replaced sectionName settings text out) {line : List UInt8}
    (member : line ∈ lines newline out) :
    line ∈ lines newline text ∨ line ∈ sectionLog sectionName settings ∨ line = [newline] ∨
      ∃ last ∈ lines newline text, newline ∉ last ∧ line = last ++ [newline] := by
  by_cases found : HasSection sectionName text
  · rw [replaced.lines_found free legible found, List.mem_append, List.mem_append] at member
    rcases member with above | new | below
    · exact .inl ((List.takeWhile_prefix _).mem above)
    · exact .inr (.inl new)
    · exact .inl ((linesAfter_isSuffix _ _).mem below)
  · obtain ⟨n, split, shape⟩ := replaced.lines_missing free legible found
    rw [split, List.mem_append] at member
    rcases member with old | new
    · rcases shape with rfl | ⟨rfl, -⟩
      · rcases lines_append_sep newline old with same | rest
        · exact .inl same
        · exact .inr (.inr rest)
      · exact .inl (by simpa using old)
    · exact .inr (.inl new)

theorem Replaced.single_head (replaced : Replaced sectionName settings text out)
    (single : (lines newline text).countP (isHead sectionName) ≤ 1) :
    (lines newline out).countP (isHead sectionName) ≤ 1 := by
  have log := @countP_sectionLog sectionName settings legible
  by_cases found : HasSection sectionName text
  · have above : (linesBefore sectionName (lines newline text)).countP (isHead sectionName) = 0 :=
      List.countP_eq_zero.mpr fun line member => not_isHead_before member
    have below := List.countP_eq_zero.mpr (not_isHead_after single found)
    rw [replaced.lines_found free legible found, List.countP_append, List.countP_append]
    omega
  · obtain ⟨n, split, shape⟩ := replaced.lines_missing free legible found
    have old := List.countP_eq_zero.mpr (not_isHead_missing shape found)
    rw [split, List.countP_append]
    omega

/-- After a section has been replaced, its entries are the settings and those below it. -/
theorem Replaced.readEntries (named : sectionName ≠ []) (replaced : Replaced sectionName settings text out) :
    ∃ front, (∀ e ∈ front, e.sectionName ≠ sectionName) ∧
      readEntries out = front ++ (settingEntries sectionName settings ++
        entriesBelow sectionName settings text) := by
  by_cases found : HasSection sectionName text
  · refine ⟨_, (linesBefore_outside named text).1, ?_⟩
    rw [MinIni.readEntries, replaced.lines_found free legible found, entries_append,
      entries_sectionLog legible, entriesBelow, if_pos found]
  · obtain ⟨n, split, shape⟩ := replaced.lines_missing free legible found
    refine ⟨_, (entries_outside named.symm (not_isHead_missing shape found)).1, ?_⟩
    have log := @entries_sectionLog sectionName settings legible
      (sectionAfter [] (lines newline (text ++ n))) []
    rw [List.append_nil] at log
    rw [MinIni.readEntries, split, entries_append, log, entriesBelow, if_neg found]
    simp [entries]

end Lines

end Reading

end SysHelo.MinIni
