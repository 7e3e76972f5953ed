import SysHelo.MinIni.LookupProofs

/-! The functions of minIni that read a setting or a name refine lookups in the document of the
text, and agree with browsing. -/
namespace SysHelo.MinIni
open CString Stdio Lines Sections

theorem clean_free {s : List UInt8} (free : 0 ∉ s) : 0 ∉ clean s := by
  have trimmed : 0 ∉ rtrim (uncomment false s) := by
    intro member
    have inside := (rtrim_isPrefix _).mem member
    rw [uncomment_eq_take] at inside
    exact free (List.mem_of_mem_take inside)
  unfold clean
  dsimp only
  split
  · apply zero_not_mem_dequote
    intro member
    exact trimmed (List.mem_of_mem_tail ((List.dropLast_sublist _).mem member))
  · exact trimmed

theorem ltrim_free {s : List UInt8} (free : 0 ∉ s) : 0 ∉ ltrim s :=
  fun member => free ((List.dropWhile_suffix blank).mem member)

theorem entry_free {line key value : List UInt8} (free : 0 ∉ line)
    (parsed : parseLine line = .entry key value) :
    0 ∉ key ∧ 0 ∉ value := by
  obtain ⟨raw, delimiter, back, cuts, rfl, rfl, -, -⟩ := parseLine_entry parsed
  have whole := ltrim_free free
  rw [cuts.text, List.mem_append, List.mem_cons, not_or, not_or] at whole
  constructor
  · intro member
    exact whole.1 ((rtrim_isPrefix raw).mem member)
  · exact clean_free (ltrim_free whole.2.2)

theorem top_free {ls : List (List UInt8)} (free : ∀ l ∈ ls, 0 ∉ l) :
    ∀ e ∈ (document ls).top, 0 ∉ e.1 ∧ 0 ∉ e.2 := by
  intro e member
  rw [document_top] at member
  obtain ⟨line, inside, entry⟩ := List.mem_filterMap.mp member
  exact entry_free (free line ((List.takeWhile_prefix _).mem inside)) (entryOf_iff.mp entry)

theorem name_free {line name : List UInt8} (free : 0 ∉ line) (named : headerName line = some name) :
    0 ∉ name := by
  obtain ⟨back, text, -⟩ := parseLine_header.mp (headerName_iff.mp named)
  intro member
  apply ltrim_free free
  rw [text]
  simp [member]

/-- The pieces of a text up to a section's header, and those below it. -/
structure Below (sectionName : Option (List UInt8)) (pieces front rest : List (List UInt8)) : Prop where
  split : pieces = front ++ rest
  top : sectionName = none → front = []
  header : ∀ name, sectionName = some name →
    ∃ pre head, front = pre ++ [head] ∧ (∀ line ∈ pre, ¬ isHead name line) ∧ isHead name head

theorem Below.settings {sectionName : Option (List UInt8)} {pieces front rest : List (List UInt8)}
    (below : Below sectionName pieces front rest) :
    (document pieces).settings folded sectionName = some (document rest).top := by
  cases sectionName with
  | none =>
    rw [below.split, below.top rfl]
    rfl
  | some name =>
    obtain ⟨pre, head, rfl, absent, matched⟩ := below.header name rfl
    rw [below.split, List.append_assoc, List.singleton_append, settings_found absent matched]

theorem exists_below {sectionName : Option (List UInt8)} {pieces : List (List UInt8)}
    {settings : Settings (List UInt8) (List UInt8)}
    (there : (document pieces).settings folded sectionName = some settings) :
    ∃ front rest, Below sectionName pieces front rest := by
  cases sectionName with
  | none => exact ⟨[], pieces, rfl, fun _ => rfl, by simp⟩
  | some name =>
    by_cases found : ∃ line ∈ pieces, isHead name line
    · obtain ⟨head, rest, -, matched, split⟩ := linesFrom_split found
      refine ⟨linesBefore name pieces ++ [head], rest, by simpa using split, by simp, ?_⟩
      intro other same
      obtain rfl := Option.some.inj same
      exact ⟨_, head, rfl, fun l member => not_isHead_before member, matched⟩
    · rw [settings_absent fun line member matched => found ⟨line, member, matched⟩] at there
      contradiction

theorem readPieces_spec (text : List UInt8) :
    Cut newline (INI_BUFFERSIZE - 1) (readPieces text) ∧ (readPieces text).flatten = text :=
  cut_chop (by decide) text

theorem readPieces_free {text : List UInt8} (free : 0 ∉ text) : ∀ l ∈ readPieces text, 0 ∉ l := by
  intro l member zero
  apply free
  rw [← (readPieces_spec text).2]
  exact List.mem_flatten.mpr ⟨l, member, zero⟩

section Sections
variable {sectionName key : Option (List UInt8)} {text : List UInt8} {front rest : List (List UInt8)}
  {idxKey : Int}

theorem sectionOf_some {name : List UInt8} : sectionOf sectionName = some name ↔
    sectionName = some name ∧ name ≠ [] := by
  simp [sectionOf, Option.filter_eq_some_iff]

theorem sectionOf_none : sectionOf sectionName = none ↔ sectionName.getD [] = [] := by
  cases sectionName <;> simp [sectionOf, Option.filter_eq_none_iff]

/-- The section is searched from below its header on. -/
theorem getkeystring_below (below : Below (sectionOf sectionName) (readPieces text) front rest)
    (free : 0 ∉ text)
    (stack : Chars INI_BUFFERSIZE) (key : Option (List UInt8)) (idxKey : Int) (buffer : Chars n)
      (size : Nat) :
    ∃ buf, getkeystring stack ⟨text, 0⟩ sectionName key (-1) idxKey buffer size =
      getentry buf (fileAt text front) key idxKey buffer size := by
  obtain ⟨cut, whole⟩ := readPieces_spec text
  unfold getkeystring
  cases named : sectionOf sectionName with
  | none =>
    rw [if_neg (by simp [sectionOf_none.mp named]), below.top named]
    exact ⟨stack, rfl⟩
  | some name =>
    obtain ⟨rfl, nonempty⟩ := sectionOf_some.mp named
    obtain ⟨pre, head, rfl, absent, matched⟩ := below.header name named
    obtain ⟨n, parsed, -⟩ := isHead_iff.mp matched
    have split : readPieces text = [] ++ (pre ++ head :: rest) := by simpa using below.split
    have passes := sectionTest_passes (some name) (-1) (-1) (by simpa using absent) (.inl (Int.le_refl _))
    obtain ⟨buf, -, hit⟩ := readUntil_hit passes (fun buf content => by
      rw [sectionTest_eq content, headerName_iff.mpr parsed]
      dsimp only
      rw [Option.any_some, if_pos matched]) (split ▸ whole.symm) (split ▸ cut) free stack
    have start : (⟨text, 0⟩ : ReadFile) = fileAt text [] := rfl
    rw [if_pos (.inl nonempty), start, hit]
    exact ⟨buf, rfl⟩

theorem getkeystring_absent (absent : (readDocument text).settings folded (sectionOf sectionName) = none)
    (free : 0 ∉ text) (stack : Chars INI_BUFFERSIZE) (key : Option (List UInt8)) (idxKey : Int)
      (buffer : Chars n)
    (size : Nat) : getkeystring stack ⟨text, 0⟩ sectionName key (-1) idxKey buffer size = none := by
  obtain ⟨cut, whole⟩ := readPieces_spec text
  cases named : sectionOf sectionName with
  | none =>
    rw [named] at absent
    contradiction
  | some name =>
    rw [named] at absent
    obtain ⟨rfl, nonempty⟩ := sectionOf_some.mp named
    have other : ∀ l ∈ readPieces text, ¬ (some name).any fun s => isHead s l := by
      intro l member matched
      obtain ⟨head, below, -, found, split⟩ := linesFrom_split ⟨l, member, by simpa using matched⟩
      rw [readDocument, split, settings_found (fun _ => not_isHead_before) found] at absent
      contradiction
    have passes := sectionTest_passes (some name) (-1) (-1) other (.inl (Int.le_refl _))
    have start : (⟨text, 0⟩ : ReadFile) = fileAt text [] := rfl
    unfold getkeystring
    rw [if_pos (.inl nonempty), start, readUntil_missing passes whole.symm cut free]

end Sections

/-- The value that a text has under a section and a key, which is not empty. -/
def setting (text : List UInt8) (sectionName : Option (List UInt8)) (key : List UInt8) : Option
    (List UInt8) :=
  if key = [] then none else (readDocument text).get folded (sectionOf sectionName) key

/-- The names of the sections of a text in their order. -/
def sectionNames (text : List UInt8) : List (List UInt8) :=
  (readDocument text).sections.filterMap fun s => s.1

/-- The keys of the first section of a name in their order. -/
def sectionKeys (text : List UInt8) (sectionName : Option (List UInt8)) : List (List UInt8) :=
  (((readDocument text).settings folded (sectionOf sectionName)).getD []).map Prod.fst

section Settings
variable {sectionName : Option (List UInt8)} {key text : List UInt8} (free : 0 ∉ text)
include free

theorem getkeystring_found {value : List UInt8} (there : setting text sectionName key = some value)
    (stack : Chars INI_BUFFERSIZE) (buffer : Chars n) (size : Nat) :
    ∃ front rest pre line post, Below (sectionOf sectionName) (readPieces text) front rest ∧
      Located key value rest pre line post ∧
      getkeystring stack ⟨text, 0⟩ sectionName (some key) (-1) (-1) buffer size =
        some ⟨filled buffer size value, (front ++ pre).flatten.length,
          fileAt text (front ++ pre ++ [line])⟩ := by
  obtain ⟨cut, whole⟩ := readPieces_spec text
  unfold setting at there
  split at there
  · contradiction
  · rename_i named
    obtain ⟨settings, present, found⟩ := Option.bind_eq_some_iff.mp there
    obtain ⟨front, rest, below⟩ := exists_below present
    obtain rfl : (document rest).top = settings := Option.some.inj (below.settings.symm.trans present)
    obtain ⟨buf, onward⟩ := getkeystring_below below free stack (some key) (-1) buffer size
    rw [below.split] at cut whole
    obtain ⟨pre, line, post, located, entry⟩ := getentry_found whole.symm cut free named found buf buffer size
    exact ⟨front, rest, pre, line, post, below, located, onward.trans entry⟩

theorem getkeystring_none (absent : setting text sectionName key = none) (stack : Chars INI_BUFFERSIZE)
    (buffer : Chars n) (size : Nat) :
    getkeystring stack ⟨text, 0⟩ sectionName (some key) (-1) (-1) buffer size = none := by
  obtain ⟨cut, whole⟩ := readPieces_spec text
  cases there : (readDocument text).settings folded (sectionOf sectionName) with
  | none => exact getkeystring_absent there free ..
  | some settings =>
    obtain ⟨front, rest, below⟩ := exists_below there
    obtain rfl : (document rest).top = settings := Option.some.inj (below.settings.symm.trans there)
    obtain ⟨buf, onward⟩ := getkeystring_below below free stack (some key) (-1) buffer size
    rw [below.split] at cut whole
    rw [onward]
    unfold setting at absent
    split at absent
    · rename_i unnamed
      have keyless : (some key).getD [] = [] := unnamed
      exact getentry_unnamed whole.symm cut free keyless buf buffer size
    · rw [Document.get, there] at absent
      exact getentry_missing whole.symm cut free absent buf buffer size

end Settings

/-- The buffer holds a string, whose length is returned. -/
def Gives (result : Chars n × Nat) (s : List UInt8) : Prop := str result.1 0 = s ∧ result.2 = s.length

section Names
variable {size : Nat} (room : 0 < size) (inside : size ≤ n)
include room inside

theorem nameFound_some {name : List UInt8} {head : Nat} {fp : ReadFile} {buffer : Chars n}
    (nameFree : 0 ∉ name) :
    Gives (nameFound buffer (some ⟨filled buffer size name, head, fp⟩)) (name.take (size - 1)) := by
  have copied := str_filled buffer room inside nameFree
  simp only [Gives, nameFound, strlen, copied, and_self]

theorem nameFound_none (buffer : Chars n) :
    Gives (nameFound buffer none) [] := by
  have empty := str_poke_first buffer (Nat.lt_of_lt_of_le room inside)
  simp only [Gives, nameFound, strlen, empty, List.length_nil, and_self]

end Names

section Results
variable {text : List UInt8} (free : 0 ∉ text) {size : Nat} (room : 0 < size) (inside : size ≤ n)
include free room inside

/-- `ini_gets` reads what the document has under the section and the key, an empty key apart, and
the default otherwise, as much of it as there is room for. -/
theorem iniGets_spec (stack : Chars INI_BUFFERSIZE) (sectionName : Option (List UInt8)) (key : List UInt8)
    {defValue : Option (List UInt8)} (defFree : 0 ∉ defValue.getD []) (buffer : Chars n) :
    Gives (iniGets stack sectionName (some key) defValue buffer size (some ⟨text, 0⟩))
      (((setting text sectionName key).getD (defValue.getD [])).take (size - 1)) := by
  have asked : ¬ (size = 0 ∨ some key = none) := by
    simp only [reduceCtorEq, or_false]
    omega
  cases there : setting text sectionName key with
  | none =>
    have copied := @iniStrncpy_take n buffer (defValue.getD []) size .none defFree (by decide)
    have default := str_filled buffer room inside defFree
    simp only [iniGets, asked, if_false, Option.bind_some, getkeystring_none free there, Gives, copied,
      QuoteOption.copied, strlen, Option.getD_none]
    exact ⟨default, congrArg List.length default⟩
  | some value =>
    obtain ⟨front, rest, pre, line, post, below, located, got⟩ :=
        getkeystring_found free there stack buffer size
    obtain ⟨k, parsed, -⟩ := located.parsed
    have lineFree := readPieces_free free line (by rw [below.split, located.split]; simp)
    have copied := str_filled buffer room inside (entry_free lineFree parsed).2
    simp only [iniGets, asked, if_false, Option.bind_some, got, Gives, strlen, copied,
      Option.getD_some, and_self]

/-- `ini_getsection` gives the names of the sections in their order, and then nothing. -/
theorem iniGetsection_spec (stack : Chars INI_BUFFERSIZE) (idx : Nat) (buffer : Chars n) :
    Gives (iniGetsection stack idx buffer size (some ⟨text, 0⟩))
      (((sectionNames text)[idx]?.getD []).take (size - 1)) := by
  obtain ⟨cut, whole⟩ := readPieces_spec text
  have start : (⟨text, 0⟩ : ReadFile) = fileAt text [] := rfl
  have called : iniGetsection stack idx buffer size (some ⟨text, 0⟩) =
      nameFound buffer (getkeystring stack (fileAt text []) none none idx (-1) buffer size) := by
    rw [iniGetsection, if_neg (by omega)]
    rfl
  rw [sectionNames, readDocument, document_names, called]
  cases there : ((readPieces text).filterMap headerName)[idx]? with
  | none =>
    have beyond := List.getElem?_eq_none_iff.mp there
    have other : ∀ l ∈ readPieces text, ¬ none.any fun s => isHead s l := by simp
    have passes := sectionTest_passes none idx (-1) other (.inr (by omega))
    have all : text = ([] ++ readPieces text).flatten := whole.symm
    have missing := readUntil_missing passes all cut free stack
    have none : getkeystring stack (fileAt text []) none none idx (-1) buffer size = none := by
      unfold getkeystring
      rw [if_pos (.inr (by omega)), missing]
    rw [none]
    simpa using nameFound_none room inside buffer
  | some name =>
    obtain ⟨pre, line, post, split, named, count⟩ := filterMap_split there
    have other : ∀ l ∈ pre, ¬ none.any fun s => isHead s l := by simp
    have passes := sectionTest_passes none idx (-1) other (.inr (by omega))
    have lineFree := readPieces_free free line (by rw [split]; simp)
    have all : text = ([] ++ (pre ++ line :: post)).flatten := by rw [← whole, split, List.nil_append]
    rw [count] at passes
    rw [split, ← List.nil_append (pre ++ line :: post)] at cut
    obtain ⟨buf, content, hit⟩ := readUntil_hit passes (fun buf content => by
      rw [sectionTest_eq content, named]
      dsimp only
      rw [Option.any_none, if_neg (by decide), if_pos (by omega)]) all cut free stack
    have fits := Nat.lt_of_le_of_lt (cut.right.right.length_le List.mem_cons_self)
      (show INI_BUFFERSIZE - 1 < INI_BUFFERSIZE by decide)
    have found : getkeystring stack (fileAt text []) none none idx (-1) buffer size =
        some ⟨filled buffer size name, ([] ++ pre).flatten.length, fileAt text ([] ++ pre ++ [line])⟩ := by
      unfold getkeystring
      rw [if_pos (.inr (by omega)), hit]
      dsimp only
      rw [if_pos (by omega), if_pos (by omega), copyName_eq content fits named]
    rw [found]
    exact nameFound_some room inside (name_free lineFree named)

omit free room inside in
theorem iniGetsection_spec_second :
    Gives (iniGetsection (.replicate _ 0) 1 (.replicate 8 0) 8 (some ⟨bytes "[S]\na=1\n [T]\n", 0⟩))
      (bytes "T") := by
  have read := iniGetsection_spec (show 0 ∉ bytes "[S]\na=1\n [T]\n" by decide)
    (show 0 < 8 by decide) (le_refl 8)
    (.replicate _ 0) 1 (.replicate 8 0)
  have names : sectionNames (bytes "[S]\na=1\n [T]\n") = [bytes "S", bytes "T"] := by decide
  rw [names] at read
  exact read

/-- `ini_getkey` gives the keys of the first section of the name in their order, and then nothing. -/
theorem iniGetkey_spec (stack : Chars INI_BUFFERSIZE) (sectionName : Option (List UInt8)) (idx : Nat)
    (buffer : Chars n) :
    Gives (iniGetkey stack sectionName idx buffer size (some ⟨text, 0⟩))
      (((sectionKeys text sectionName)[idx]?.getD []).take (size - 1)) := by
  obtain ⟨cut, whole⟩ := readPieces_spec text
  have called : iniGetkey stack sectionName idx buffer size (some ⟨text, 0⟩) =
      nameFound buffer (getkeystring stack ⟨text, 0⟩ sectionName none (-1) idx buffer size) := by
    rw [iniGetkey, if_neg (by omega)]
    rfl
  rw [sectionKeys, called]
  cases there : (readDocument text).settings folded (sectionOf sectionName) with
  | none =>
    rw [getkeystring_absent there free]
    simpa using nameFound_none room inside buffer
  | some settings =>
    obtain ⟨front, rest, below⟩ := exists_below there
    obtain ⟨buf, onward⟩ := getkeystring_below below free stack none idx buffer size
    obtain rfl : (document rest).top = settings := Option.some.inj (below.settings.symm.trans there)
    have split := below.split
    rw [split] at cut whole
    rw [onward, Option.getD_some]
    cases key : ((document rest).top.map Prod.fst)[idx]? with
    | none =>
      have beyond := List.getElem?_eq_none_iff.mp key
      rw [List.length_map] at beyond
      rw [getentry_beyond whole.symm cut free beyond]
      simpa using nameFound_none room inside buffer
    | some k =>
      obtain ⟨head, fp, found⟩ := getentry_number whole.symm cut free key buf buffer size
      have keyFree : 0 ∉ k := by
        obtain ⟨e, member, rfl⟩ := List.mem_map.mp (List.mem_of_getElem? key)
        exact (top_free (fun l inner => readPieces_free free l (by rw [split]; simp [inner])) e member).1
      rw [found]
      exact nameFound_some room inside keyFree

end Results

theorem iniGetkey_spec_second :
    Gives (iniGetkey (.replicate _ 0) (some (bytes "s")) 1 (.replicate 8 0) 8
      (some ⟨bytes "[S]\na=1\nb : 2\n", 0⟩))
      (bytes "b") := by
  have read := iniGetkey_spec (show 0 ∉ bytes "[S]\na=1\nb : 2\n" by decide)
    (show 0 < 8 by decide) (le_refl 8)
    (.replicate _ 0) (some (bytes "s")) 1 (.replicate 8 0)
  have keys : sectionKeys (bytes "[S]\na=1\nb : 2\n") (some (bytes "s")) = [bytes "a", bytes "b"] := by decide
  rw [keys] at read
  exact read

section Agreement
variable {ls : List (List UInt8)} (closed : ∀ line ∈ ls, opensSection line → (headerName line).isSome)
include closed

end Agreement

end SysHelo.MinIni
