import SysHelo.MinIni.Browse
import SysHelo.MinIni.Document
import SysHelo.MinIni.Lookup
import SysHelo.MinIni.RewriteProofs

/-! Looking up a setting or a name in a file gives what the document of its text has, for lines
of any length. -/
namespace SysHelo.MinIni
open CString Stdio Lines Sections

theorem copyNone_take (b : Chars n) (dest left : Nat) (s : List UInt8) (d : Nat) (free : 0 ∉ s) :
    copyNone b dest (.text s) left d = store b (dest + d) ((s.drop d).take left ++ [0]) := by
  induction left generalizing b d with
  | zero => rfl
  | succ left ih =>
    by_cases inside : d < s.length
    · have nonzero : s[d] ≠ 0 := fun zero => free (zero ▸ List.getElem_mem inside)
      rw [copyNone, Source.get, List.getD_eq_getElem _ _ inside, if_neg nonzero, ih,
        List.drop_eq_getElem_cons inside]
      rfl
    · have empty : s.drop d = [] := List.drop_eq_nil_of_le (by omega)
      rw [copyNone, Source.get, List.getD_eq_default _ _ (by omega), if_pos rfl, empty]
      rfl

theorem copyDequote_take (b : Chars n) (dest left : Nat) (s : List UInt8) (d i : Nat) (free : 0 ∉ s) :
    copyDequote b dest (.text s) left d i = store b (dest + d) ((dequote (s.drop i)).take left ++ [0]) := by
  induction left generalizing b d i with
  | zero => rfl
  | succ left ih =>
    by_cases inside : i < s.length
    · have nonzero : s[i] ≠ 0 := fun zero => free (zero ▸ List.getElem_mem inside)
      have second : (s.drop (i + 1)).headD 0 = s.getD (i + 1) 0 := by
        rw [List.headD_eq_head?_getD, List.head?_drop, List.getD_eq_getElem?_getD]
      rw [copyDequote, Source.get, List.getD_eq_getElem _ _ inside, if_neg nonzero,
        List.drop_eq_getElem_cons inside, dequote_cons, second]
      cases escape : escapes s[i] (s.getD (i + 1) 0) with
      | true =>
        have quote := escapes_quote escape
        have more : (s.drop (i + 1)).tail = s.drop (i + 2) := by rw [List.tail_drop]
        simp only [Source.get, escape, if_true, ih, more]
        rw [quote]
        rfl
      | false =>
        simp only [Source.get, escape, Bool.false_eq_true, if_false, ih, List.getD_eq_getElem _ _ inside]
        rfl
    · have empty : s.drop i = [] := List.drop_eq_nil_of_le (by omega)
      rw [copyDequote, Source.get, List.getD_eq_default _ _ (by omega), if_pos rfl, empty]
      rfl

theorem iniStrncpy_take (b : Chars n) (s : List UInt8) (maxlen : Nat) {option : QuoteOption} (free : 0 ∉ s)
    (copies : option ≠ .enquote) :
    iniStrncpy b 0 (.text s) maxlen option = store b 0 ((option.copied s).take (maxlen - 1) ++ [0]) := by
  cases option with
  | none => simpa [iniStrncpy, QuoteOption.copied] using copyNone_take b 0 (maxlen - 1) s 0 free
  | dequote => simpa [iniStrncpy, QuoteOption.copied] using copyDequote_take b 0 (maxlen - 1) s 0 0 free
  | enquote => contradiction

/-- A file read up to some of its pieces. -/
def fileAt (text : List UInt8) (front : List (List UInt8)) : ReadFile := ⟨text, front.flatten.length⟩

/-- What a test makes of a line, whatever else is in the buffer. -/
def Judges (test : Chars INI_BUFFERSIZE → Int → Verdict) (line : List UInt8) (idx : Int) (verdict : Verdict) :
    Prop :=
  ∀ buf, str buf 0 = line → test buf idx = verdict

/-- Lines that the search passes over, from one number to another. -/
inductive Passes (test : Chars INI_BUFFERSIZE → Int → Verdict) : Int → List (List UInt8) → Int → Prop where
  | nil : Passes test idx [] idx
  | cons : Judges test line idx (.pass next) → Passes test next front last →
      Passes test idx (line :: front) last

section Search
variable {test : Chars INI_BUFFERSIZE → Int → Verdict} {front pre rest : List (List UInt8)}
  {line text : List UInt8} {idx next : Int}

theorem readUntil_line (whole : text = (front ++ line :: rest).flatten)
    (cut : Cut newline (INI_BUFFERSIZE - 1) (front ++ line :: rest)) (buf : Chars INI_BUFFERSIZE)
      (idx : Int) :
    readUntil test buf idx (fileAt text front) =
      match test (store buf 0 (line ++ [0])) idx with
      | .pass idx => readUntil test (store buf 0 (line ++ [0])) idx (fileAt text (front ++ [line]))
      | .hit sp ep idx =>
        some ⟨store buf 0 (line ++ [0]), sp, ep, idx, front.flatten.length, fileAt text (front ++ [line])⟩
      | .stop => none := by
  have short := cut.right.length_le List.mem_cons_self
  have ahead : (fileAt text front).remaining = line ++ rest.flatten := by
    have left := remaining_pieces (rfl : front ++ line :: rest = front ++ line :: rest)
    rwa [← whole, List.flatten_cons] at left
  have fits : line.length < INI_BUFFERSIZE := Nat.lt_of_le_of_lt short (by decide)
  have read := fgets_cut ahead cut.right fits (by decide) buf 0
  have behind : ({ fileAt text front with pos := (fileAt text front).pos + line.length } : ReadFile) =
      fileAt text (front ++ [line]) := by simp [fileAt]
  rw [behind] at read
  rw [readUntil]
  split
  · rename_i none
    rw [read] at none
    contradiction
  · rename_i buf' next' some
    rw [read, Option.some.injEq, Prod.mk.injEq] at some
    obtain ⟨rfl, rfl⟩ := some
    rfl

theorem readUntil_end (whole : text = front.flatten) (buf : Chars INI_BUFFERSIZE) (idx : Int) :
    readUntil test buf idx (fileAt text front) = none := by
  have ended : (fileAt text front).remaining = [] := by simp [fileAt, ReadFile.remaining, whole]
  rw [readUntil]
  split
  · rfl
  · rename_i read
    rw [fgets_none ended] at read
    contradiction

theorem readUntil_over (passes : Passes test idx pre next) (whole : text = (front ++ (pre ++ rest)).flatten)
    (cut : Cut newline (INI_BUFFERSIZE - 1) (front ++ (pre ++ rest))) (free : 0 ∉ text)
    (buf : Chars INI_BUFFERSIZE) : ∃ buf', readUntil test buf idx (fileAt text front) =
      readUntil test buf' next (fileAt text (front ++ pre)) := by
  induction passes generalizing front buf with
  | nil => exact ⟨buf, by rw [List.append_nil]⟩
  | @cons line idx next pre last judged passes ih =>
    have again : front ++ (line :: pre ++ rest) = (front ++ [line]) ++ (pre ++ rest) := by simp
    have short := cut.right.length_le List.mem_cons_self
    have lineFree : 0 ∉ line := by
      rw [whole] at free
      intro zero
      exact free (List.mem_flatten.mpr ⟨line, by simp, zero⟩)
    have content := str_line buf lineFree (Nat.lt_of_le_of_lt short (by decide))
    obtain ⟨buf', onward⟩ := @ih (front ++ [line]) (by rw [whole, again]) (again ▸ cut)
      (store buf 0 (line ++ [0]))
    refine ⟨buf', ?_⟩
    rw [readUntil_line whole cut, judged _ content]
    dsimp only
    rw [onward, List.append_assoc, List.singleton_append]

theorem readUntil_hit {sp ep : Nat} {found : Int} (passes : Passes test idx pre next)
    (judged : Judges test line next (.hit sp ep found))
      (whole : text = (front ++ (pre ++ line :: rest)).flatten)
    (cut : Cut newline (INI_BUFFERSIZE - 1) (front ++ (pre ++ line :: rest))) (free : 0 ∉ text)
    (buf : Chars INI_BUFFERSIZE) :
    ∃ buf', str buf' 0 = line ∧ readUntil test buf idx (fileAt text front) =
      some ⟨buf', sp, ep, found, (front ++ pre).flatten.length, fileAt text (front ++ pre ++ [line])⟩ := by
  obtain ⟨buf', onward⟩ := readUntil_over passes whole cut free buf
  rw [← List.append_assoc] at whole cut
  have short := cut.right.length_le List.mem_cons_self
  have lineFree : 0 ∉ line := by
    rw [whole] at free
    intro zero
    exact free (List.mem_flatten.mpr ⟨line, by simp, zero⟩)
  have content := str_line buf' lineFree (Nat.lt_of_le_of_lt short (by decide))
  refine ⟨store buf' 0 (line ++ [0]), content, ?_⟩
  rw [onward, readUntil_line whole cut, judged _ content]

theorem readUntil_stop (passes : Passes test idx pre next) (judged : Judges test line next .stop)
    (whole : text = (front ++ (pre ++ line :: rest)).flatten)
    (cut : Cut newline (INI_BUFFERSIZE - 1) (front ++ (pre ++ line :: rest))) (free : 0 ∉ text)
    (buf : Chars INI_BUFFERSIZE) : readUntil test buf idx (fileAt text front) = none := by
  obtain ⟨buf', onward⟩ := readUntil_over passes whole cut free buf
  rw [← List.append_assoc] at whole cut
  have short := cut.right.length_le List.mem_cons_self
  have lineFree : 0 ∉ line := by
    rw [whole] at free
    intro zero
    exact free (List.mem_flatten.mpr ⟨line, by simp, zero⟩)
  rw [onward, readUntil_line whole cut,
    judged _ (str_line buf' lineFree (Nat.lt_of_le_of_lt short (by decide)))]

theorem readUntil_missing (passes : Passes test idx pre next) (whole : text = (front ++ pre).flatten)
    (cut : Cut newline (INI_BUFFERSIZE - 1) (front ++ pre)) (free : 0 ∉ text) (buf : Chars INI_BUFFERSIZE) :
    readUntil test buf idx (fileAt text front) = none := by
  rw [← List.append_nil pre] at whole cut
  obtain ⟨buf', onward⟩ := readUntil_over passes whole cut free buf
  rw [onward, readUntil_end (by simpa using whole)]

end Search

section Tests
variable {buf : Chars INI_BUFFERSIZE} {line : List UInt8}

theorem str_margin (content : str buf 0 = line) : str buf (margin line) = ltrim line := by
  have trimmed := str_skipleading buf 0
  rwa [skipleading_eq content, content] at trimmed

theorem headerEnd_eq (content : str buf 0 = line) :
    headerEnd buf (margin line) = (headerName line).map fun name => margin line + 1 + name.length := by
  have text := str_margin content
  have first := atSection_eq content
  unfold headerEnd
  by_cases opens : opensSection line
  · rw [if_pos (first.mpr opens)]
    obtain ⟨s, opened⟩ : ∃ s, ltrim line = '['.toUInt8 :: s := by
      rw [opensSection, decide_eq_true_eq] at opens
      cases shape : ltrim line with
      | nil => simp [shape] at opens
      | cons c s =>
        rw [shape, List.head?_cons, Option.some.injEq] at opens
        exact ⟨s, by rw [opens]⟩
    cases close : splitLast ']'.toUInt8 s with
    | none =>
      have absent := splitLast_none.mp close
      rw [strrchr_none (by decide) (by
        rw [text, opened, List.mem_cons, not_or]
        exact ⟨by decide, absent⟩)]
      cases named : headerName line with
      | none => rfl
      | some name =>
        obtain ⟨back, same, -⟩ := parseLine_header.mp (headerName_iff.mp named)
        rw [opened, List.cons_append, List.cons.injEq] at same
        exact absurd (by rw [same.2]; simp) absent
    | some pair =>
      obtain ⟨name, back⟩ := pair
      obtain ⟨rfl, free⟩ := splitLast_some close
      have parsed : parseLine line = .header name := parseLine_header.mpr ⟨back, opened, free⟩
      have whole : str buf (margin line) = ('['.toUInt8 :: name) ++ ']'.toUInt8 :: back := text.trans opened
      rw [strrchr_some whole (by decide) free, headerName_iff.mpr parsed, Option.map_some, List.length_cons,
        Nat.add_assoc, Nat.add_comm 1]
  · rw [if_neg (fun same => opens (first.mp same))]
    cases named : headerName line with
    | none => rfl
    | some name => exact absurd (headerName_opens named) opens

theorem sectionTest_eq (content : str buf 0 = line) (sectionName : Option (List UInt8)) (target idx : Int) :
    sectionTest sectionName target buf idx = match headerName line with
      | none => .pass idx
      | some name =>
        if sectionName.any fun s => isHead s line then .hit (margin line) (margin line + 1 + name.length) idx
        else if idx + 1 = target then .hit (margin line) (margin line + 1 + name.length) (idx + 1)
        else .pass (idx + 1) := by
  have matched : sectionName.any (headerMatch buf (margin line)) = sectionName.any fun s =>
      isHead s line := by
    congr 1
    funext s
    have same := headerMatch_eq content s
    rwa [skipleading_eq content] at same
  simp only [sectionTest, skipleading_eq content, headerEnd_eq content, matched]
  cases headerName line <;> rfl

theorem keyTest_opens (content : str buf 0 = line) (opens : opensSection line) (key : Option (List UInt8))
    (target idx : Int) : keyTest key target buf idx = .stop := by
  simp only [keyTest, skipleading_eq content, if_pos ((atSection_eq content).mpr opens)]

/-- The text of a key and its value, and the delimiter between them. -/
structure Cuts (line raw : List UInt8) (delimiter : UInt8) (back : List UInt8) : Prop where
  text : ltrim line = raw ++ delimiter :: back
  free : delimiter ∉ raw
  first : delimiter = '='.toUInt8 ∨ delimiter = ':'.toUInt8 ∧ '='.toUInt8 ∉ ltrim line

theorem keyEnd_cuts (content : str buf 0 = line) {raw back : List UInt8} {delimiter : UInt8}
    (cuts : Cuts line raw delimiter back) : keyEnd buf (margin line) = some (margin line + raw.length) := by
  have text := (str_margin content).trans cuts.text
  rw [keyEnd]
  rcases cuts.first with rfl | ⟨rfl, absent⟩
  · rw [strchr_some text cuts.free, Option.some_or]
  · rw [← str_margin content] at absent
    rw [strchr_none (by decide) absent, Option.none_or, strchr_some text cuts.free]

theorem keyEnd_none (content : str buf 0 = line) (equal : '='.toUInt8 ∉ ltrim line)
    (colon : ':'.toUInt8 ∉ ltrim line) : keyEnd buf (margin line) = none := by
  rw [← str_margin content] at equal colon
  rw [keyEnd, strchr_none (by decide) equal, strchr_none (by decide) colon]
  rfl

theorem keyMatch_eq (content : str buf 0 = line) {raw back : List UInt8} {delimiter : UInt8}
    (cuts : Cuts line raw delimiter back) (key : List UInt8) :
    keyMatch buf (margin line) (margin line + raw.length) key =
      decide (key ≠ [] ∧ folded (rtrim raw) = folded key) := by
  have text := (str_margin content).trans cuts.text
  have inside : ∀ i (h : i < raw.length), peek buf (margin line + i) = raw[i] := by
    intro i h
    rw [peek_str buf _ i (by rw [text]; simp; omega)]
    simp only [text, List.getElem_append_left h]
  obtain ⟨blanks, split⟩ := rtrim_isPrefix raw
  have whole : raw ++ delimiter :: back = rtrim raw ++ (blanks ++ delimiter :: back) := by
    rw [← List.append_assoc, split]
  rw [keyMatch, skiptrailing_eq buf _ raw inside, Nat.add_sub_cancel_left, text, whole]
  by_cases size : (rtrim raw).length = key.length
  · have equal : strnicmpEq (rtrim raw ++ (blanks ++ delimiter :: back)) key key.length ↔
        (rtrim raw).map upcase = key.map upcase := strnicmpEq_iff size
    rw [Bool.eq_iff_iff]
    simp only [size, decide_true, Bool.and_true, Bool.and_eq_true, decide_eq_true_eq, equal, folded]
    exact decide_eq_true_iff.symm
  · have other : folded (rtrim raw) ≠ folded key := by
      intro same
      exact size (by simpa [folded] using congrArg List.length same)
    simp [size, other]

end Tests

theorem parseLine_entry {line key value : List UInt8} (parsed : parseLine line = .entry key value) :
    ∃ raw delimiter back, Cuts line raw delimiter back ∧ key = rtrim raw ∧ value = clean (ltrim back) ∧
      (ltrim line).head? ≠ some ';'.toUInt8 ∧ (ltrim line).head? ≠ some '#'.toUInt8 := by
  have entry {s : List UInt8} (same : ltrim line = s) (cut : parseEntry s = .entry key value) :
      ∃ raw delimiter back, Cuts line raw delimiter back ∧ key = rtrim raw ∧ value = clean (ltrim back) := by
    unfold parseEntry at cut
    cases equal : splitFirst '='.toUInt8 s with
    | some pair =>
      obtain ⟨raw, back⟩ := pair
      obtain ⟨split, free⟩ := splitFirst_some equal
      simp only [equal, Option.some_or, Line.entry.injEq] at cut
      exact ⟨raw, _, back, ⟨same.trans split, free, .inl rfl⟩, cut.1.symm, cut.2.symm⟩
    | none =>
      have absent := splitFirst_none.mp equal
      cases colon : splitFirst ':'.toUInt8 s with
      | some pair =>
        obtain ⟨raw, back⟩ := pair
        obtain ⟨split, free⟩ := splitFirst_some colon
        simp only [equal, colon, Option.none_or, Line.entry.injEq] at cut
        exact ⟨raw, _, back, ⟨same.trans split, free, .inr ⟨rfl, same ▸ absent⟩⟩, cut.1.symm, cut.2.symm⟩
      | none => simp [equal, colon] at cut
  unfold parseLine at parsed
  cases shape : ltrim line with
  | nil => simp [shape] at parsed
  | cons c s =>
    simp only [shape] at parsed
    split at parsed
    · contradiction
    · rename_i plain
      rw [not_or] at plain
      have first : (c :: s).head? ≠ some ';'.toUInt8 ∧ (c :: s).head? ≠ some '#'.toUInt8 := by
        simpa using plain
      have cut : parseEntry (c :: s) = .entry key value := by
        split at parsed
        · split at parsed
          · contradiction
          · exact parsed
        · exact parsed
      obtain ⟨raw, delimiter, back, cuts, k, v⟩ := entry shape cut
      exact ⟨raw, delimiter, back, cuts, k, v, first.1, first.2⟩

/-- A line that sets no key and opens no section has no delimiter, or is a comment. -/
theorem parseLine_skip {line : List UInt8} (inner : ¬ opensSection line)
    (parsed : ∀ key value, parseLine line ≠ .entry key value) :
    (ltrim line).head? = some ';'.toUInt8 ∨ (ltrim line).head? = some '#'.toUInt8 ∨
      '='.toUInt8 ∉ ltrim line ∧ ':'.toUInt8 ∉ ltrim line := by
  unfold parseLine at parsed
  rw [opensSection, decide_eq_true_eq] at inner
  cases shape : ltrim line with
  | nil => simp
  | cons c s =>
    simp only [shape] at parsed
    by_cases comment : c = ';'.toUInt8 ∨ c = '#'.toUInt8
    · rcases comment with rfl | rfl
      · exact .inl rfl
      · exact .inr (.inl rfl)
    · have bracket : c ≠ '['.toUInt8 := by
        rintro rfl
        exact inner (by rw [shape]; rfl)
      rw [if_neg comment, if_neg bracket] at parsed
      refine .inr (.inr ?_)
      unfold parseEntry at parsed
      cases equal : splitFirst '='.toUInt8 (c :: s) with
      | some pair => simp [equal] at parsed
      | none =>
        cases colon : splitFirst ':'.toUInt8 (c :: s) with
        | some pair => simp [equal, colon] at parsed
        | none => exact ⟨splitFirst_none.mp equal, splitFirst_none.mp colon⟩

section Passing
variable {buf : Chars INI_BUFFERSIZE} {line : List UInt8} {pre : List (List UInt8)}

theorem keyTest_skip (content : str buf 0 = line) (inner : ¬ opensSection line)
    (parsed : ∀ key value, parseLine line ≠ .entry key value) (key : Option (List UInt8)) (target idx : Int) :
    keyTest key target buf idx = .pass idx := by
  have first {c : UInt8} (nonzero : c ≠ 0) : (ltrim line).head? = some c ↔ peek buf (margin line) = c := by
    rw [← str_margin content]
    exact head_str_iff buf _ nonzero
  simp only [keyTest, skipleading_eq content, if_neg (fun same => inner ((atSection_eq content).mp same))]
  rcases parseLine_skip inner parsed with semicolon | hash | ⟨equal, colon⟩
  · rw [first (by decide)] at semicolon
    cases keyEnd buf (margin line) with
    | none => rfl
    | some ep => simp only [semicolon, true_or, if_true]
  · rw [first (by decide)] at hash
    cases keyEnd buf (margin line) with
    | none => rfl
    | some ep => simp only [hash, or_true, if_true]
  · rw [keyEnd_none content equal colon]

theorem keyTest_entry (content : str buf 0 = line) (inner : ¬ opensSection line) {raw back : List UInt8}
    {delimiter : UInt8} (cuts : Cuts line raw delimiter back)
      (semicolon : (ltrim line).head? ≠ some ';'.toUInt8)
    (hash : (ltrim line).head? ≠ some '#'.toUInt8) (key : Option (List UInt8)) (target idx : Int) :
    keyTest key target buf idx =
      if key.any fun k => decide (k ≠ [] ∧ folded (rtrim raw) = folded k) then
        .hit (margin line) (margin line + raw.length) idx
      else if idx + 1 = target then .hit (margin line) (margin line + raw.length) (idx + 1)
      else .pass (idx + 1) := by
  have plain : ¬ (peek buf (margin line) = ';'.toUInt8 ∨ peek buf (margin line) = '#'.toUInt8) := by
    rw [← str_margin content, Ne, head_str_iff buf _ (by decide)] at semicolon hash
    exact not_or.mpr ⟨semicolon, hash⟩
  have matched : key.any (keyMatch buf (margin line) (margin line + raw.length)) =
      key.any fun k => decide (k ≠ [] ∧ folded (rtrim raw) = folded k) := by
    congr 1
    funext k
    exact keyMatch_eq content cuts k
  simp only [keyTest, skipleading_eq content, if_neg (fun same => inner ((atSection_eq content).mp same)),
    keyEnd_cuts content cuts, if_neg plain, matched]

/-- The line sets the key that is looked for, if one is. -/
def wanted (key : Option (List UInt8)) (line : List UInt8) : Bool := key.any fun k => k ≠ [] && isKey k line

theorem wanted_entry {key : Option (List UInt8)} {k value : List UInt8}
    (parsed : parseLine line = .entry k value) :
    (key.any fun s => decide (s ≠ [] ∧ folded k = folded s)) = wanted key line := by
  unfold wanted
  congr 1
  funext s
  simp [isKey, parsed]

theorem keyTest_passes (key : Option (List UInt8)) (target idx : Int) (inner : ∀ l ∈ pre, ¬ opensSection l)
    (other : ∀ l ∈ pre, ¬ wanted key l)
    (away : target ≤ idx ∨ idx + (pre.filterMap entryOf).length < target) :
    Passes (keyTest key target) idx pre (idx + (pre.filterMap entryOf).length) := by
  induction pre generalizing idx with
  | nil => simpa using Passes.nil
  | cons line pre ih =>
    have first := inner line (by simp)
    have rest (next : Int) (away : target ≤ next ∨ next + (pre.filterMap entryOf).length < target) :=
      ih next (fun l member => inner l (by simp [member])) (fun l member => other l (by simp [member])) away
    by_cases sets : ∃ key value, parseLine line = .entry key value
    · obtain ⟨k, value, parsed⟩ := sets
      obtain ⟨raw, delimiter, back, cuts, rfl, -, semicolon, hash⟩ := parseLine_entry parsed
      rw [List.filterMap_cons_some (entryOf_iff.mpr parsed), List.length_cons] at away ⊢
      have onward := rest (idx + 1) (by omega)
      rw [show idx + 1 + ((pre.filterMap entryOf).length : Int) =
        idx + ((pre.filterMap entryOf).length + 1 : Nat) by omega] at onward
      refine .cons (fun buf content => ?_) onward
      rw [keyTest_entry content first cuts semicolon hash, wanted_entry parsed, if_neg (other line (by simp)),
        if_neg (by omega)]
    · have parsed : ∀ key value, parseLine line ≠ .entry key value := fun k v same => sets ⟨k, v, same⟩
      have none : entryOf line = none := by
        cases entry : entryOf line with
        | none => rfl
        | some pair => exact absurd (entryOf_iff.mp entry) (parsed pair.1 pair.2)
      rw [List.filterMap_cons_none none] at away ⊢
      exact .cons (fun buf content => keyTest_skip content first parsed key target idx) (rest idx away)

theorem sectionTest_passes (sectionName : Option (List UInt8)) (target idx : Int)
    (other : ∀ l ∈ pre, ¬ sectionName.any fun s => isHead s l)
    (away : target ≤ idx ∨ idx + (pre.filterMap headerName).length < target) :
    Passes (sectionTest sectionName target) idx pre (idx + (pre.filterMap headerName).length) := by
  induction pre generalizing idx with
  | nil => simpa using Passes.nil
  | cons line pre ih =>
    have rest (next : Int) (away : target ≤ next ∨ next + (pre.filterMap headerName).length < target) :=
      ih next (fun l member => other l (by simp [member])) away
    cases named : headerName line with
    | none =>
      rw [List.filterMap_cons_none named] at away ⊢
      refine .cons (fun buf content => ?_) (rest idx away)
      rw [sectionTest_eq content, named]
    | some name =>
      rw [List.filterMap_cons_some named, List.length_cons] at away ⊢
      have onward := rest (idx + 1) (by omega)
      rw [show idx + 1 + ((pre.filterMap headerName).length : Int) =
        idx + ((pre.filterMap headerName).length + 1 : Nat) by omega] at onward
      refine .cons (fun buf content => ?_) onward
      rw [sectionTest_eq content, named]
      dsimp only
      rw [if_neg (other line (by simp)), if_neg (by omega)]

end Passing

/-- A buffer with as much of a string as `size` has room for. -/
def filled (buffer : Chars n) (size : Nat) (s : List UInt8) : Chars n := store buffer 0
    (s.take (size - 1) ++ [0])

theorem str_filled (buffer : Chars n) {size : Nat} {s : List UInt8} (room : 0 < size) (inside : size ≤ n)
    (free : 0 ∉ s) : str (filled buffer size s) 0 = s.take (size - 1) := by
  apply str_store buffer (fun zero => free (List.mem_of_mem_take zero))
  rw [List.length_take]
  omega

section Copies
variable {buf : Chars INI_BUFFERSIZE} {line raw back : List UInt8} {delimiter : UInt8}

theorem margin_add (line : List UInt8) : margin line + (ltrim line).length = line.length := by
  have whole := congrArg List.length (List.takeWhile_append_dropWhile (p := blank) (l := line))
  rwa [List.length_append] at whole

theorem copyValue_eq (content : str buf 0 = line) (fits : line.length < INI_BUFFERSIZE)
    (cuts : Cuts line raw delimiter back) (buffer : Chars n) (size : Nat) :
    iniStrncpy buffer 0 (.text (str (cleanstring buf (skipleading buf (margin line + raw.length + 1))).1
        (cleanstring buf (skipleading buf (margin line + raw.length + 1))).2.1)) size
        (cleanstring buf (skipleading buf (margin line + raw.length + 1))).2.2 =
      filled buffer size (clean (ltrim back)) := by
  have text := (str_margin content).trans cuts.text
  have total := margin_add line
  rw [cuts.text, List.length_append, List.length_cons] at total
  have behind : str buf (margin line + raw.length + 1) = back := by
    rw [Nat.add_assoc, str_drop _ _ _ (by rw [text]; simp), text]
    simp
  have extent := skipleading_add buf (margin line + raw.length + 1)
  have trimmed := str_skipleading buf (margin line + raw.length + 1)
  rw [behind] at extent trimmed
  have cleaned := cleanstring_spec buf (skipleading buf (margin line + raw.length + 1)) (by omega)
  have value := cleaned.value
  rw [trimmed] at value
  rw [iniStrncpy_take buffer _ size (zero_not_mem_str _ _) cleaned.copies, value, filled]

theorem copyKey_eq (content : str buf 0 = line) (fits : line.length < INI_BUFFERSIZE)
    (cuts : Cuts line raw delimiter back) (buffer : Chars n) (size : Nat) :
    iniStrncpy buffer 0 (.text (str (striptrailing (poke buf (margin line + raw.length) 0) (margin line))
      (margin line))) size .none = filled buffer size (rtrim raw) := by
  have text := (str_margin content).trans cuts.text
  have total := margin_add line
  rw [cuts.text, List.length_append, List.length_cons] at total
  have cut := str_poke_nul buf (margin line) raw.length (by rw [text]; simp) (by omega)
  rw [text, List.take_left] at cut
  have stripped := str_striptrailing (poke buf (margin line + raw.length) 0) (p := margin line)
    (by rw [cut]; omega)
  rw [stripped, cut, iniStrncpy_take buffer _ size (by
    rw [← cut, ← stripped]
    exact zero_not_mem_str _ _) (by simp)]
  rfl

theorem copyName_eq {name : List UInt8} (content : str buf 0 = line) (fits : line.length < INI_BUFFERSIZE)
    (named : headerName line = some name) (buffer : Chars n) (size : Nat) :
    iniStrncpy buffer 0 (.text (str (poke buf (margin line + 1 + name.length) 0) (margin line + 1))) size
      .none =
      filled buffer size name := by
  obtain ⟨back, opened, -⟩ := parseLine_header.mp (headerName_iff.mp named)
  have text := (str_margin content).trans opened
  have total := margin_add line
  rw [opened, List.cons_append, List.length_cons, List.length_append, List.length_cons] at total
  have inner : str buf (margin line + 1) = name ++ ']'.toUInt8 :: back := by
    rw [str_drop _ _ _ (by rw [text]; simp), text]
    rfl
  have cut := str_poke_nul buf (margin line + 1) name.length (by rw [inner]; simp) (by omega)
  rw [inner, List.take_left] at cut
  rw [cut, iniStrncpy_take buffer _ size (cut ▸ zero_not_mem_str _ _) (by simp)]
  rfl

end Copies

section Entries
variable {front rest : List (List UInt8)} {text : List UInt8}

/-- The line that sets a key, in the part of the text that is searched, and what is copied of it. -/
structure Located (key value : List UInt8) (rest pre : List (List UInt8)) (line : List UInt8)
    (post : List (List UInt8)) : Prop where
  split : rest = pre ++ line :: post
  passed : ∀ l ∈ pre, ¬ opensSection l ∧ ¬ isKey key l
  inner : ¬ opensSection line
  parsed : ∃ k, parseLine line = .entry k value ∧ folded k = folded key

theorem not_wanted_none (l : List UInt8) : ¬ wanted none l := by simp [wanted]

theorem not_wanted_empty (l : List UInt8) : ¬ wanted (some []) l := by simp [wanted]

theorem not_wanted {key l : List UInt8} (absent : ¬ isKey key l) : ¬ wanted (some key) l := by
  simp [wanted, absent]

theorem wanted_some {key l : List UInt8} (named : key ≠ []) (present : isKey key l) : wanted
    (some key) l := by
  simp [wanted, named, present]

variable (whole : text = (front ++ rest).flatten) (cut : Cut newline (INI_BUFFERSIZE - 1) (front ++ rest))
  (free : 0 ∉ text)
include whole cut free

theorem getentry_missing {key : List UInt8} (absent : lookup folded key (document rest).top = none)
    (buf : Chars INI_BUFFERSIZE) (buffer : Chars n) (size : Nat) :
    getentry buf (fileAt text front) (some key) (-1) buffer size = none := by
  unfold getentry
  rcases search_split key rest with
    ⟨passed, -⟩ | ⟨pre, line, post, rfl, passed, ⟨opens, -⟩ | ⟨-, k, value, -, -, there⟩⟩
  · rw [readUntil_missing (keyTest_passes (some key) (-1) (-1) (fun l member => (passed l member).1)
      (fun l member => not_wanted (passed l member).2) (.inl (Int.le_refl _))) whole cut free]
  · rw [readUntil_stop (keyTest_passes (some key) (-1) (-1) (fun l member => (passed l member).1)
      (fun l member => not_wanted (passed l member).2) (.inl (Int.le_refl _)))
      (fun buf content => keyTest_opens content opens _ _ _) whole cut free]
  · rw [absent] at there
    contradiction

theorem getentry_found {key value : List UInt8} (named : key ≠ [])
    (there : lookup folded key (document rest).top = some value) (buf : Chars INI_BUFFERSIZE)
      (buffer : Chars n)
    (size : Nat) :
    ∃ pre line post, Located key value rest pre line post ∧
      getentry buf (fileAt text front) (some key) (-1) buffer size =
        some ⟨filled buffer size value, (front ++ pre).flatten.length,
          fileAt text (front ++ pre ++ [line])⟩ := by
  rcases search_split key rest with ⟨-, absent⟩ | ⟨pre, line, post, rfl, passed, ⟨-, absent⟩ |
    ⟨inner, k, value', parsed, same, there'⟩⟩
  · rw [absent] at there
    contradiction
  · rw [absent] at there
    contradiction
  · obtain rfl : value' = value := Option.some.inj (there'.symm.trans there)
    refine ⟨pre, line, post, ⟨rfl, passed, inner, k, parsed, same⟩, ?_⟩
    obtain ⟨raw, delimiter, back, cuts, rfl, rfl, semicolon, hash⟩ := parseLine_entry parsed
    have passes := keyTest_passes (some key) (-1) (-1) (fun l member => (passed l member).1)
      (fun l member => not_wanted (passed l member).2) (.inl (Int.le_refl _))
    have wants := wanted_some named (isKey_iff.mpr ⟨_, _, parsed, same⟩)
    obtain ⟨buf', content, hit⟩ := readUntil_hit passes (fun buf content => by
      rw [keyTest_entry content inner cuts semicolon hash, wanted_entry parsed, if_pos wants])
        whole cut free buf
    have fits := Nat.lt_of_le_of_lt (cut.right.right.length_le List.mem_cons_self)
      (show INI_BUFFERSIZE - 1 < INI_BUFFERSIZE by decide)
    have copied := copyValue_eq content fits cuts buffer size
    unfold getentry
    rw [hit]
    dsimp only
    rw [if_neg (by decide), ← copied]

/-- An empty key, or none, is not found. -/
theorem getentry_unnamed {key : Option (List UInt8)} (unnamed : key.getD [] = []) (buf : Chars INI_BUFFERSIZE)
    (buffer : Chars n) (size : Nat) : getentry buf (fileAt text front) key (-1) buffer size = none := by
  have other (l : List UInt8) : ¬ wanted key l := by
    cases key with
    | none => exact not_wanted_none l
    | some key =>
      obtain rfl : key = [] := unnamed
      exact not_wanted_empty l
  have split := List.takeWhile_append_dropWhile (p := fun line => !opensSection line) (l := rest)
  have inner : ∀ l ∈ rest.takeWhile fun line => !opensSection line, ¬ opensSection l := by
    intro l member
    have := List.mem_takeWhile_imp member
    simpa using this
  have passes := keyTest_passes key (-1) (-1) inner (fun l _ => other l) (.inl (Int.le_refl _))
  unfold getentry
  cases below : rest.dropWhile fun line => !opensSection line with
  | nil =>
    rw [below, List.append_nil] at split
    rw [readUntil_missing passes (by rw [whole, split]) (by rw [split]; exact cut) free]
  | cons line post =>
    rw [below] at split
    rw [readUntil_stop passes (fun buf content => keyTest_opens content (dropBody_opens below) key _ _)
      (by rw [whole, split]) (by rw [split]; exact cut) free]

theorem getentry_number {idx : Nat} {key : List UInt8}
    (there : ((document rest).top.map Prod.fst)[idx]? = some key)
    (buf : Chars INI_BUFFERSIZE) (buffer : Chars n) (size : Nat) :
    ∃ head fp, getentry buf (fileAt text front) none idx buffer size = some ⟨filled buffer size key,
      head, fp⟩ := by
  rw [document_top, List.getElem?_map, Option.map_eq_some_iff] at there
  obtain ⟨⟨k, value⟩, there, rfl⟩ := there
  obtain ⟨pre, line, post, split, entry, count⟩ := filterMap_split there
  have parsed := entryOf_iff.mp entry
  have body : ∀ l ∈ rest.takeWhile fun line => !opensSection line, ¬ opensSection l := by
    intro l member
    have := List.mem_takeWhile_imp member
    simpa using this
  have inner : ¬ opensSection line := body line (by rw [split]; simp)
  have parts : rest = pre ++ line :: (post ++ rest.dropWhile fun line => !opensSection line) := by
    have := List.takeWhile_append_dropWhile (p := fun line => !opensSection line) (l := rest)
    rw [split] at this
    simpa using this.symm
  obtain ⟨raw, delimiter, back, cuts, rfl, rfl, semicolon, hash⟩ := parseLine_entry parsed
  have before : ∀ l ∈ pre, ¬ opensSection l := fun l member => body l (by rw [split]; simp [member])
  have passes := keyTest_passes none idx (-1) before (fun l _ => not_wanted_none l) (.inr (by omega))
  rw [count] at passes
  rw [parts] at whole cut
  obtain ⟨buf', content, hit⟩ := readUntil_hit passes (fun buf content => by
    rw [keyTest_entry content inner cuts semicolon hash, if_neg (by simp), if_pos (by omega)])
      whole cut free buf
  have fits := Nat.lt_of_le_of_lt (cut.right.right.length_le List.mem_cons_self)
    (show INI_BUFFERSIZE - 1 < INI_BUFFERSIZE by decide)
  refine ⟨(front ++ pre).flatten.length, fileAt text (front ++ pre ++ [line]), ?_⟩
  unfold getentry
  rw [hit]
  dsimp only
  rw [if_pos (by omega), if_pos (by omega), copyKey_eq content fits cuts]

theorem getentry_beyond {idx : Nat} (beyond : (document rest).top.length ≤ idx) (buf : Chars INI_BUFFERSIZE)
    (buffer : Chars n) (size : Nat) : getentry buf (fileAt text front) none idx buffer size = none := by
  rw [document_top] at beyond
  have split := List.takeWhile_append_dropWhile (p := fun line => !opensSection line) (l := rest)
  have inner : ∀ l ∈ rest.takeWhile fun line => !opensSection line, ¬ opensSection l := by
    intro l member
    have := List.mem_takeWhile_imp member
    simpa using this
  have passes := keyTest_passes none idx (-1) inner
    (fun l _ => not_wanted_none l) (.inr (by omega))
  unfold getentry
  cases below : rest.dropWhile fun line => !opensSection line with
  | nil =>
    rw [below, List.append_nil] at split
    rw [readUntil_missing passes (by rw [whole, split]) (by rw [split]; exact cut) free]
  | cons line post =>
    rw [below] at split
    rw [readUntil_stop passes (fun buf content => keyTest_opens content (dropBody_opens below) none _ _)
      (by rw [whole, split]) (by rw [split]; exact cut) free]

end Entries

end SysHelo.MinIni
