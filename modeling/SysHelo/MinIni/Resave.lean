import Mathlib.Data.List.Infix
import SysHelo.MinIni.PutsectionProofs
import SysHelo.MinIni.Reread

/-! Replacing the section of a text that replacing it has written. -/
namespace SysHelo.MinIni
open CString Stdio Lines Loop

/-- The text that rewriting makes, from the pieces in which the old one is read. -/
def rewrittenText (sectionName : List UInt8) (settings : List (List UInt8 × List UInt8))
    (pieces : List (List UInt8)) : List UInt8 :=
  if ∃ line ∈ pieces, isHead sectionName line then
    (linesBefore sectionName pieces).flatten ++ sectionText sectionName settings ++
      (linesAfter sectionName pieces).flatten
  else pieces.flatten ++ separator (lastBlock pieces) ++ sectionText sectionName settings

/-- The strings that it is written with. -/
def rewrittenLog (sectionName : List UInt8) (settings : List (List UInt8 × List UInt8))
    (pieces : List (List UInt8)) : List (List UInt8) :=
  if ∃ line ∈ pieces, isHead sectionName line then
    blocks (linesBefore sectionName pieces) ++ sectionLog sectionName settings ++
      blocks (linesAfter sectionName pieces)
  else blocks pieces ++ (if flushFlag (lastBlock pieces).flatten then [] else [INI_LINETERM]) ++
    sectionLog sectionName settings

/-- The pieces that are copied. -/
def keptPieces (sectionName : List UInt8) (pieces : List (List UInt8)) : List (List UInt8) :=
  if ∃ line ∈ pieces, isHead sectionName line then linesBefore sectionName pieces ++
    linesAfter sectionName pieces
  else pieces

theorem flatten_rewrittenLog (sectionName : List UInt8) (settings : List (List UInt8 × List UInt8))
    (pieces : List (List UInt8)) :
    (rewrittenLog sectionName settings pieces).flatten = rewrittenText sectionName settings pieces := by
  unfold rewrittenLog rewrittenText separator
  split
  · simp only [List.flatten_append, flatten_blocks, flatten_sectionLog]
  · simp only [List.flatten_append, flatten_blocks, flatten_sectionLog]
    split <;> rfl

section Rewriting
variable {sectionName : List UInt8} {settings : List (List UInt8 × List UInt8)} {pieces : List (List UInt8)}

theorem keptPieces_mem {line : List UInt8} (member : line ∈ keptPieces sectionName pieces) :
    line ∈ pieces := by
  unfold keptPieces at member
  split at member
  · rcases List.mem_append.mp member with above | below
    · exact (List.takeWhile_prefix _).mem above
    · exact (linesAfter_isSuffix sectionName pieces).mem below
  · exact member

/-- Whenever the rewriting ends, it has written these strings. -/
theorem rewriteSection_returned (cut : Cut newline (INI_BUFFERSIZE - 1) pieces)
    (readable : Readable (keptPieces sectionName pieces))
    (named : Named sectionName) (plain : ∀ setting ∈ settings, Plain setting) {buf : Chars INI_BUFFERSIZE}
    {st : Rewrite}
      (returns : Returns (rewriteSection sectionName (settings.map Prod.fst) (settings.map Prod.snd)
      (.start buf pieces.flatten)) st) :
    st.wfp = rewrittenLog sectionName settings pieces := by
  have writable := fun setting member => (plain setting member).writable
  unfold rewrittenLog
  unfold keptPieces at readable
  split
  · rename_i found
    rw [if_pos found] at readable
    obtain ⟨head, rest, from_head, matched, split⟩ := linesFrom_split found
    have absent : ∀ line ∈ linesBefore sectionName pieces, ¬ isHead sectionName line := fun line member =>
      not_isHead_before member
    have above : Readable (linesBefore sectionName pieces) := fun line member =>
      readable line (List.mem_append_left _ member)
    have below : Readable (dropBody rest) := fun line member => by
      refine readable line (List.mem_append_right _ ?_)
      rwa [linesAfter, from_head, List.tail_cons]
    by_cases endless : settings ≠ [] ∧ rest = [] ∧ 0 < margin head
    · obtain ⟨nonempty, rfl, indented⟩ := endless
      exact absurd returns ((rewriteSection_endless cut above named writable nonempty split absent
        matched indented buf).not_returns st)
    · obtain ⟨st', again, -, log⟩ := rewriteSection_found cut ⟨above, below⟩ named writable split
        absent matched
        endless buf
      rw [returns.unique again, log, linesAfter, from_head, List.tail_cons, map_asWritten plain]
  · rename_i missing
    rw [if_neg missing] at readable
    obtain ⟨st', again, -, log⟩ := rewriteSection_missing cut readable named writable
      (fun line member matched => missing ⟨line, member, matched⟩) buf
    rw [returns.unique again, log, map_asWritten plain]

end Rewriting

section Cache
variable (cached : List (List UInt8)) {line : List UInt8}

theorem length_cacheLine (line : List UInt8) : line.length ≤ (cacheLine cached line).flatten.length := by
  unfold cacheLine
  split <;> simp

theorem cacheLine_getLast? (nonempty : line ≠ []) : (cacheLine cached line).flatten.getLast? =
    line.getLast? := by
  obtain ⟨c, line, rfl⟩ := List.exists_cons_of_ne_nil nonempty
  unfold cacheLine
  split
  · rw [List.flatten_singleton]
  · rw [List.flatten_append, List.flatten_singleton, List.getLast?_append, List.getLast?_cons, Option.some_or]

theorem flushFlag_long (long : 1 < line.length) (last : line.getLast? = some newline) :
    flushFlag (cacheLine cached line).flatten := by
  have size := length_cacheLine cached line
  have nonempty : line ≠ [] := List.ne_nil_of_length_pos (by omega)
  rw [flushFlag, cacheLine_getLast? cached nonempty, last, decide_eq_true (long.trans_le size),
    decide_eq_true rfl]
  rfl

/-- A newline alone only counts with something before it in the same block. -/
theorem flushFlag_newline : flushFlag (cacheLine cached [newline]).flatten ↔
    0 < cached.flatten.length ∧ cached.flatten.length + 1 < INI_BUFFERSIZE := by
  rw [flushFlag, cacheLine_getLast? cached (by decide), Bool.and_eq_true, decide_eq_true_eq,
    decide_eq_true_eq]
  have last : [newline].getLast? = some newline := rfl
  simp only [last, and_true]
  unfold cacheLine
  split
  · rename_i full
    rw [List.flatten_singleton]
    rw [List.length_singleton] at full ⊢
    omega
  · rename_i room
    rw [List.flatten_append, List.flatten_singleton, List.length_append]
    rw [List.length_singleton] at room ⊢
    omega

end Cache

/-- The last line has no end, and is as long as what is read at a time. -/
def FullLast (text : List UInt8) : Prop :=
  ∃ last ∈ (lines newline text).getLast?, newline ∉ last ∧ last.length = INI_BUFFERSIZE - 1

instance (text : List UInt8) : Decidable (FullLast text) := inferInstanceAs (Decidable (∃ last ∈ _, _))

/-- A text, as it is read, behind which a section starts on a line of its own. -/
structure Separated (text : List UInt8) (pieces : List (List UInt8)) : Prop where
  cut : Cut newline (INI_BUFFERSIZE - 1) pieces
  content : pieces.flatten = text ++ separator (lastBlock (lines newline text))
  ended : ∀ last, pieces.getLast? = some last → last.getLast? = some newline
  origin : ∀ line ∈ pieces, line ∈ lines newline text ∨ line = [newline] ∨
    ∃ last ∈ lines newline text, newline ∉ last ∧ line = last ++ [newline]
  flag : flushFlag (lastBlock pieces).flatten ↔ text ≠ [] ∧ ¬ FullLast text

theorem fullLast_iff {text last : List UInt8} {before : List (List UInt8)}
    (split : lines newline text = before ++ [last]) :
    FullLast text ↔ newline ∉ last ∧ last.length = INI_BUFFERSIZE - 1 := by
  simp [FullLast, split]

theorem cut_newline : Cut newline (INI_BUFFERSIZE - 1) [[newline]] := .cons (by decide) (by decide) .nil

/-- A newline put behind pieces that have ended is a piece of its own. -/
theorem Separated.alone {text last : List UInt8} {before : List (List UInt8)}
    (readable : Readable (lines newline text)) (split : lines newline text = before ++ [last])
    (ended : Ended newline (INI_BUFFERSIZE - 1) last)
    (unflagged : flushFlag (lastBlock (lines newline text)).flatten = false)
    (flag : flushFlag (lastBlock (lines newline text ++ [[newline]])).flatten ↔ text ≠ [] ∧ ¬ FullLast text) :
    Separated text (lines newline text ++ [[newline]]) where
  cut := by
    refine (cut_lines readable).append cut_newline fun last' same => ?_
    rw [split, List.getLast?_concat, Option.some.injEq] at same
    exact same ▸ ended
  content := by
    rw [List.flatten_append, flatten_lines, separator, unflagged]
    rfl
  ended := by
    intro last' same
    rw [List.getLast?_concat, Option.some.injEq] at same
    rw [← same]
    rfl
  origin := by
    intro line member
    rcases List.mem_append.mp member with old | new
    · exact .inl old
    · exact .inr (.inl (List.mem_singleton.mp new))
  flag := flag

/-- A newline put behind a shorter last line ends it. -/
theorem Separated.joined {text last : List UInt8} {before : List (List UInt8)}
    (readable : Readable (lines newline text)) (split : lines newline text = before ++ [last])
    (free : newline ∉ last) (short : last.length < INI_BUFFERSIZE - 1)
    (unflagged : flushFlag (lastBlock (lines newline text)).flatten = false) :
    Separated text (before ++ [last ++ [newline]]) := by
  have member : last ∈ lines newline text := by rw [split]; simp
  have positive := List.length_pos_iff.mpr (line_ne_nil newline member)
  have length : (last ++ [newline]).length = last.length + 1 := List.length_append
  obtain ⟨above, -, closed⟩ := lines_cut newline split
  have again : lines newline (text ++ [newline]) = before ++ [last ++ [newline]] := by
    rw [← flatten_lines newline text, split, List.flatten_append, List.flatten_singleton, List.append_assoc,
      lines_append newline (closed (by simp)), above, lines_line newline free, lines_nil]
  constructor
  · rw [← again]
    apply Cut.lines
    intro line inside
    rw [again, List.mem_append, List.mem_singleton] at inside
    rcases inside with old | rfl
    · have fits := (readable line (by rw [split]; simp [old])).1
      omega
    · rw [length]
      omega
  · rw [← again, flatten_lines, separator, unflagged]
    rfl
  · intro last' same
    rw [List.getLast?_concat, Option.some.injEq] at same
    rw [← same, List.getLast?_concat]
  · intro line inside
    rw [List.mem_append, List.mem_singleton] at inside
    rcases inside with old | rfl
    · exact .inl (by rw [split]; simp [old])
    · exact .inr (.inr ⟨last, member, free, rfl⟩)
  · refine iff_of_true ?_ ⟨?_, ?_⟩
    · rw [lastBlock_concat]
      exact flushFlag_long _ (by rw [length]; omega) List.getLast?_concat
    · rintro rfl
      simp at member
    · rw [fullLast_iff split]
      exact fun full => absurd full.2 short.ne

theorem separated_ended {text body : List UInt8} {before : List (List UInt8)}
    (readable : Readable (lines newline text)) (split : lines newline text = before ++ [body ++ [newline]]) :
    ∃ pieces, Separated text pieces := by
  have nonempty : text ≠ [] := by
    rintro rfl
    simp at split
  have long : ¬ FullLast text := by
    rw [fullLast_iff split]
    simp
  have last : (body ++ [newline]).getLast? = some newline := List.getLast?_concat
  cases flagged : flushFlag (lastBlock (lines newline text)).flatten with
  | true =>
    refine ⟨lines newline text, cut_lines readable, ?_, fun last' same => ?_, fun line member =>
      .inl member, ?_⟩
    · rw [flatten_lines, separator, flagged, if_pos rfl, List.append_nil]
    · rw [split, List.getLast?_concat, Option.some.injEq] at same
      exact same ▸ last
    · exact iff_of_true flagged ⟨nonempty, long⟩
  | false =>
    refine ⟨_, .alone readable split (.inl last) flagged (iff_of_true ?_ ⟨nonempty, long⟩)⟩
    rw [lastBlock_concat, flushFlag_newline]
    have size := length_cacheLine (lastBlock before) (body ++ [newline])
    have ends := cacheLine_getLast? (lastBlock before) (show body ++ [newline] ≠ [] by simp)
    rw [← lastBlock_concat, ← split] at size ends
    rw [flushFlag, ends, last, decide_eq_true rfl, Bool.and_true, decide_eq_false_iff_not] at flagged
    rw [List.length_append, List.length_singleton] at size
    exact ⟨by omega, lt_of_le_of_lt (by omega : _ ≤ 2) (by decide)⟩

theorem separated_open {text last : List UInt8} {before : List (List UInt8)}
    (readable : Readable (lines newline text)) (split : lines newline text = before ++ [last])
    (free : newline ∉ last) : ∃ pieces, Separated text pieces := by
  have member : last ∈ lines newline text := by rw [split]; simp
  have some := line_ne_nil newline member
  have unflagged : flushFlag (lastBlock (lines newline text)).flatten = false := by
    have other : last.getLast? ≠ Option.some newline := fun same => free (List.mem_of_getLast? same)
    rw [split, lastBlock_concat, flushFlag, cacheLine_getLast? _ some, decide_eq_false other, Bool.and_false]
  by_cases full : last.length = INI_BUFFERSIZE - 1
  · refine ⟨_, .alone readable split (.inr full) unflagged (iff_of_false ?_ ?_)⟩
    · have size := length_cacheLine (lastBlock before) last
      rw [← lastBlock_concat, ← split] at size
      rw [lastBlock_concat, flushFlag_newline]
      omega
    · rw [fullLast_iff split]
      exact fun short => short.2 ⟨free, full⟩
  · have room := (readable last member).1
    exact ⟨_, .joined readable split free (by omega) unflagged⟩

theorem exists_separated {text : List UInt8} (readable : Readable (lines newline text)) :
    ∃ pieces, Separated text pieces := by
  obtain none | ⟨before, last, split⟩ := (lines newline text).eq_nil_or_concat'
  · obtain rfl := (lines_eq_nil newline).mp none
    exact ⟨[[newline]], cut_newline, rfl, by simp, by simp, by decide⟩
  · obtain ⟨body, free, rfl | rfl⟩ := line_shape newline (show last ∈ lines newline text by rw [split]; simp)
    · exact separated_ended readable split
    · exact separated_open readable split free

section Twice
variable {sectionName : List UInt8} {settings : List (List UInt8 × List UInt8)}

theorem not_opensSection_keyLine {setting : List UInt8 × List UInt8} (legible : Legible setting) :
    ¬ opensSection (keyLine setting) := by
  obtain ⟨c, key, shape⟩ := List.exists_cons_of_ne_nil legible.named
  obtain ⟨solid, -, -, -, bracket⟩ := legible.key c (by rw [shape]; simp)
  have first : keyLine setting = c :: (key ++ '='.toUInt8 :: setting.2 ++ [newline]) := by
    simp [keyLine, shape]
  have trimmed : ltrim (keyLine setting) = keyLine setting := by
    rw [first]
    exact List.dropWhile_cons_of_neg solid
  rw [opensSection, trimmed, first, List.head?_cons, decide_eq_true_eq]
  exact fun same => bracket (Option.some.inj same)

theorem dropBody_append {front back : List (List UInt8)} (inner : ∀ line ∈ front, ¬ opensSection line) :
    dropBody (front ++ back) = dropBody back := by
  induction front with
  | nil => rfl
  | cons line front ih =>
    have closed := inner line (by simp)
    have rest := ih fun l member => inner l (by simp [member])
    simpa [dropBody, closed] using rest

theorem linesBefore_append (rest : List (List UInt8)) {front : List (List UInt8)} {head : List UInt8}
    (absent : ∀ line ∈ front, ¬ isHead sectionName line) (matched : isHead sectionName head) :
    linesBefore sectionName (front ++ head :: rest) = front ∧
      linesFrom sectionName (front ++ head :: rest) = head :: rest := by
  induction front with
  | nil => simp [linesBefore, linesFrom, matched]
  | cons line front ih =>
    have other := absent line (by simp)
    obtain ⟨before, from_head⟩ := ih fun l member => absent l (by simp [member])
    simp only [linesBefore, linesFrom] at before from_head ⊢
    simp [other, before, from_head]

theorem rewrittenText_log (sectionName : List UInt8) (front back : List (List UInt8))
    (nonempty : settings ≠ [])
    (legible : ∀ setting ∈ settings, Legible setting) (absent : ∀ line ∈ front, ¬ isHead sectionName line)
    (starts : dropBody back = back) :
    rewrittenText sectionName settings (front ++ (sectionLog sectionName settings ++ back)) =
      (front ++ (sectionLog sectionName settings ++ back)).flatten := by
  have matched : isHead sectionName ('['.toUInt8 :: sectionName ++ [']'.toUInt8, newline]) :=
    isHead_iff.mpr ⟨sectionName, parseLine_head, rfl⟩
  have log : sectionLog sectionName settings ++ back =
      ('['.toUInt8 :: sectionName ++ [']'.toUInt8, newline]) ::
        (settings.map keyLine ++ [[newline]] ++ back) := by
    rw [sectionLog, if_neg nonempty]
    simp
  have body : dropBody (settings.map keyLine ++ [[newline]] ++ back) = back := by
    rw [dropBody_append, starts]
    intro line member
    rcases List.mem_append.mp member with key | last
    · obtain ⟨setting, inside, rfl⟩ := List.mem_map.mp key
      exact not_opensSection_keyLine (legible setting inside)
    · rw [List.mem_singleton.mp last]
      decide
  rw [log]
  obtain ⟨before, from_head⟩ := linesBefore_append (settings.map keyLine ++ [[newline]] ++ back)
    absent matched
  rw [rewrittenText, if_pos ⟨_, by simp, matched⟩, before, linesAfter, from_head, List.tail_cons, body,
    ← flatten_sectionLog, ← log]
  simp

theorem rewrittenText_nil {pieces : List (List UInt8)} (some : ∀ piece ∈ pieces, piece ≠ []) :
    rewrittenText sectionName [] pieces = pieces.flatten ↔
      (∀ line ∈ pieces, ¬ isHead sectionName line) ∧ flushFlag (lastBlock pieces).flatten := by
  have empty : sectionText sectionName [] = [] := rfl
  unfold rewrittenText
  rw [empty]
  split
  · rename_i found
    obtain ⟨head, rest, from_head, matched, split⟩ := linesFrom_split found
    refine iff_of_false (fun same => ?_) fun absent => ?_
    · have below : (dropBody rest).flatten.length ≤ rest.flatten.length :=
        (List.IsSuffix.flatten (List.dropWhile_suffix _)).length_le
      have positive : 0 < head.length := List.length_pos_iff.mpr (some head (by rw [split]; simp))
      have sizes := congrArg List.length same
      rw [linesAfter, from_head, List.tail_cons, List.append_nil] at sizes
      nth_rewrite 2 [split] at sizes
      rw [List.length_append, List.flatten_append, List.flatten_cons, List.length_append,
        List.length_append] at sizes
      omega
    · obtain ⟨line, member, header⟩ := found
      exact absent.1 line member header
  · rename_i missing
    have absent : ∀ line ∈ pieces, ¬ isHead sectionName line := fun line member header =>
      missing ⟨line, member, header⟩
    rw [List.append_nil, List.append_right_eq_self, separator, ite_eq_left_iff,
      imp_iff_not (by decide), not_not,
      and_iff_right absent]

/-- When the first rewriting leaves a text that the second one does not change. -/
def Settled (sectionName : List UInt8) (settings : List (List UInt8 × List UInt8))
    (text : List UInt8) : Prop :=
  settings ≠ [] ∨
    if HasSection sectionName text then
      (∀ line ∈ linesAfter sectionName (lines newline text), ¬ isHead sectionName line) ∧
        flushFlag (lastBlock (linesBefore sectionName (lines newline text) ++
          linesAfter sectionName (lines newline text))).flatten
    else text ≠ [] ∧ ¬ FullLast text

theorem Separated.absent {text : List UInt8} {pieces : List (List UInt8)} (separated : Separated text pieces)
    (missing : ¬ HasSection sectionName text) : ∀ line ∈ pieces, ¬ isHead sectionName line := by
  intro line member matched
  rcases separated.origin line member with old | rfl | ⟨last, old, -, rfl⟩
  · exact missing ⟨line, old, matched⟩
  · obtain ⟨name, parsed, -⟩ := isHead_iff.mp matched
    rw [parseLine_newline] at parsed
    contradiction
  · exact missing ⟨last, old, isHead_newline matched⟩

theorem Separated.readable {text : List UInt8} {pieces : List (List UInt8)}
    (separated : Separated text pieces)
    (readable : Readable (lines newline text)) : Readable pieces := by
  intro line member
  have short := separated.cut.length_le member
  refine ⟨Nat.lt_of_le_of_lt short (by decide), ?_⟩
  rcases separated.origin line member with old | rfl | ⟨last, old, -, rfl⟩
  · exact (readable line old).2
  · decide
  · rw [List.mem_append, not_or]
    exact ⟨(readable last old).2, by decide⟩

section Section
variable (free : newline ∉ sectionName) (legible : ∀ setting ∈ settings, Legible setting)
  (written : Readable (sectionLog sectionName settings))
include free legible written

theorem cut_sectionLog : Cut newline (INI_BUFFERSIZE - 1) (sectionLog sectionName settings) := by
  have split := lines_flatten newline (sectionLog_whole free legible) []
  rw [List.append_nil, lines_nil, List.append_nil] at split
  rw [← split] at written ⊢
  exact cut_lines written

theorem rewrittenText_found {text : List UInt8} (readable : Readable (lines newline text))
    (found : HasSection sectionName text) :
    ∃ pieces, Cut newline (INI_BUFFERSIZE - 1) pieces ∧ Readable pieces ∧
      pieces.flatten = rewrittenText sectionName settings (lines newline text) ∧
      (rewrittenText sectionName settings pieces = pieces.flatten ↔ Settled sectionName settings text) := by
  have within : ∀ line ∈ linesBefore sectionName (lines newline text) ++
      (sectionLog sectionName settings ++ linesAfter sectionName (lines newline text)),
      line.length < INI_BUFFERSIZE ∧ 0 ∉ line := by
    intro line member
    rw [List.mem_append, List.mem_append] at member
    rcases member with above | new | below
    · exact readable line ((List.takeWhile_prefix _).mem above)
    · exact written line new
    · exact readable line ((linesAfter_isSuffix _ _).mem below)
  have replaced : Replaced sectionName settings text
      (before sectionName text ++ sectionText sectionName settings ++
      after sectionName text) := ⟨fun _ => rfl, fun missing => absurd found missing⟩
  have split := replaced.lines_found free legible found
  refine ⟨_, split ▸ cut_lines (split.symm ▸ within), within, ?_, ?_⟩
  · have first : rewrittenText sectionName settings (lines newline text) =
        before sectionName text ++ sectionText sectionName settings ++ after sectionName text := if_pos found
    rw [first, ← split, flatten_lines]
  by_cases empty : settings = []
  · have none : sectionLog sectionName settings = [] := if_pos empty
    have some : ∀ line ∈ linesBefore sectionName (lines newline text) ++ linesAfter sectionName
        (lines newline text),
        line ≠ [] := by
      intro line member
      rcases List.mem_append.mp member with above | below
      · exact line_ne_nil newline ((List.takeWhile_prefix _).mem above)
      · exact line_ne_nil newline ((linesAfter_isSuffix _ _).mem below)
    rw [none, List.nil_append, empty, rewrittenText_nil some, Settled, if_pos found]
    simp only [List.mem_append, ne_eq, not_true_eq_false, false_or]
    refine and_congr_left fun _ => ⟨fun absent line member => absent line (.inr member), ?_⟩
    rintro below line (member | member)
    · exact not_isHead_before member
    · exact below line member
  · refine iff_of_true (rewrittenText_log _ _ _ empty legible (fun _ member => not_isHead_before member) ?_)
      (.inl empty)
    rw [linesAfter, dropBody, dropBody, List.dropWhile_idempotent]

theorem rewrittenText_missing {text : List UInt8} (readable : Readable (lines newline text))
    (missing : ¬ HasSection sectionName text) :
    ∃ pieces, Cut newline (INI_BUFFERSIZE - 1) pieces ∧ Readable pieces ∧
      pieces.flatten = rewrittenText sectionName settings (lines newline text) ∧
      (rewrittenText sectionName settings pieces = pieces.flatten ↔ Settled sectionName settings text) := by
  obtain ⟨pieces, separated⟩ := exists_separated readable
  have absent := separated.absent missing
  have whole := separated.readable readable
  refine ⟨pieces ++ (sectionLog sectionName settings ++ []), ?_, fun line member => ?_, ?_, ?_⟩
  · refine separated.cut.append ?_ fun last same => .inl (separated.ended last same)
    rw [List.append_nil]
    exact cut_sectionLog free legible written
  · rw [List.append_nil, List.mem_append] at member
    rcases member with old | new
    · exact whole line old
    · exact written line new
  · have first : rewrittenText sectionName settings (lines newline text) = (lines newline text).flatten ++
        separator (lastBlock (lines newline text)) ++ sectionText sectionName settings := if_neg missing
    rw [first, List.append_nil, List.flatten_append, separated.content, flatten_lines, flatten_sectionLog]
  by_cases empty : settings = []
  · have none : sectionLog sectionName settings = [] := if_pos empty
    rw [none, List.append_nil, List.append_nil, empty, rewrittenText_nil fun piece => separated.cut.ne_nil,
      separated.flag, Settled, if_neg missing, and_iff_right absent]
    simp only [ne_eq, not_true_eq_false, false_or]
  · exact iff_of_true (rewrittenText_log _ _ _ empty legible absent rfl) (.inl empty)

/-- The text of the first rewriting as the second one reads it, and when that leaves it as it is. -/
theorem rewrittenText_twice {text : List UInt8} (readable : Readable (lines newline text)) :
    ∃ pieces, Cut newline (INI_BUFFERSIZE - 1) pieces ∧ Readable pieces ∧
      pieces.flatten = rewrittenText sectionName settings (lines newline text) ∧
      (rewrittenText sectionName settings pieces = pieces.flatten ↔ Settled sectionName settings text) := by
  by_cases found : HasSection sectionName text
  · exact rewrittenText_found free legible written readable found
  · exact rewrittenText_missing free legible written readable found

end Section

end Twice

end SysHelo.MinIni
