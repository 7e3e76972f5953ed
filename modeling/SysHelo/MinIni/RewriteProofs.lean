import SysHelo.MinIni.CacheProofs
import SysHelo.MinIni.WriterProofs

/-! `ini_putsection` on a readable text: the section's lines are replaced and every other line
is copied once, except that the rewriting never ends when the header is the last line of the
text and indented. -/
namespace SysHelo.MinIni
open CString Stdio Lines Loop

theorem strnicmpEq_iff {name sectionName back : List UInt8} (same : name.length = sectionName.length) :
    strnicmpEq (name ++ back) sectionName sectionName.length ↔
      name.map upcase = sectionName.map upcase := by
  induction sectionName generalizing name with
  | nil => simp_all [strnicmpEq]
  | cons c sectionName ih =>
    obtain ⟨d, name, rfl⟩ := List.exists_cons_of_length_eq_add_one same
    have shorter : name.length = sectionName.length := by simpa using same
    have rest := ih shorter
    change (decide (upcase d = upcase c) &&
      strnicmpEq (name ++ back) sectionName sectionName.length) = true ↔ _
    simp only [Bool.and_eq_true, decide_eq_true_eq, rest, List.map_cons, List.cons.injEq]

theorem headerMatch_eq {buf : Chars INI_BUFFERSIZE} {line : List UInt8} (content : str buf 0 = line)
    (sectionName : List UInt8) :
    headerMatch buf (skipleading buf 0) sectionName = isHead sectionName line := by
  have trimmed := str_skipleading buf 0
  rw [content] at trimmed
  generalize skipleading buf 0 = sp at trimmed
  have first := head_str buf sp
  rw [Bool.eq_iff_iff, isHead_iff]
  by_cases bracket : ∃ s, ltrim line = '['.toUInt8 :: s
  · obtain ⟨s, opened⟩ := bracket
    rw [trimmed, opened] at first
    have inner := str_drop buf sp 1 (by rw [trimmed, opened]; simp)
    rw [trimmed, opened, List.drop_one, List.tail_cons] at inner
    cases close : splitLast ']'.toUInt8 s with
    | none =>
      have none := strrchr_none (by decide) (show ']'.toUInt8 ∉ str buf sp by
        rw [trimmed, opened, List.mem_cons, not_or]
        exact ⟨by decide, splitLast_none.mp close⟩)
      simp only [headerMatch, none, Bool.false_eq_true, false_iff, not_exists, not_and]
      intro name parsed
      obtain ⟨back, same, -⟩ := parseLine_header.mp parsed
      rw [opened, List.cons_append, List.cons.injEq] at same
      exact absurd (by rw [same.2]; simp) (splitLast_none.mp close)
    | some pair =>
      obtain ⟨name, back⟩ := pair
      obtain ⟨rfl, free⟩ := splitLast_some close
      have parsed : parseLine line = .header name := parseLine_header.mpr ⟨back, opened, free⟩
      have whole : str buf sp = ('['.toUInt8 :: name) ++ ']'.toUInt8 :: back := trimmed.trans opened
      have found := strrchr_some whole (by decide) free
      have distance : sp + ('['.toUInt8 :: name).length - sp - 1 = name.length := by simp
      simp only [headerMatch, found, ← first, List.headD_cons, decide_true, Bool.true_and, distance,
        inner, parsed, Line.header.injEq, exists_eq_left', Bool.and_eq_true, decide_eq_true_eq]
      constructor
      · rintro ⟨size, equal⟩
        exact (strnicmpEq_iff size).mp equal
      · intro equal
        have size : name.length = sectionName.length := by simpa using congrArg List.length equal
        exact ⟨size, (strnicmpEq_iff size).mpr equal⟩
  · have other : peek buf sp ≠ '['.toUInt8 := by
      intro same
      rw [trimmed, same] at first
      cases shape : ltrim line with
      | nil => rw [shape] at first; simp at first; contradiction
      | cons c s =>
        rw [shape, List.headD_cons] at first
        exact bracket ⟨s, by rw [shape, first]⟩
    refine iff_of_false ?_ ?_
    · unfold headerMatch
      split <;> simp [other]
    · rintro ⟨name, parsed, -⟩
      obtain ⟨back, same, -⟩ := parseLine_header.mp parsed
      exact bracket ⟨_, same⟩

/-- What the string functions see of a line. -/
def seen (line : List UInt8) : List UInt8 := line.takeWhile (· != 0)

theorem str_seen {line : List UInt8} (buf : Chars INI_BUFFERSIZE) (fits : line.length < INI_BUFFERSIZE) :
    str (store buf 0 (line ++ [0])) 0 = seen line :=
  str_store_cut buf line (by omega)

theorem seen_append {front : List UInt8} (free : 0 ∉ front) (back : List UInt8) :
    seen (front ++ back) = front ++ seen back :=
  List.takeWhile_append_of_pos fun c member => by simpa using fun zero : c = 0 => free (zero ▸ member)

theorem blank_ne_zero {c : UInt8} (space : blank c) : c ≠ 0 := by
  rintro rfl
  exact absurd space (by decide)

theorem margin_seen (line : List UInt8) : margin (seen line) = margin line := by
  unfold margin seen
  rw [List.takeWhile_takeWhile]
  congr 2
  funext c
  by_cases space : blank c <;> simp [space, blank_ne_zero]

theorem ltrim_seen (line : List UInt8) : ltrim (seen line) = seen (ltrim line) := by
  unfold ltrim seen
  induction line with
  | nil => rfl
  | cons c line ih =>
    by_cases space : blank c
    · simp [blank_ne_zero space, space, ih]
    · by_cases zero : c = 0
      · subst zero
        rfl
      · simp [space, zero]

theorem opensSection_seen (line : List UInt8) : opensSection (seen line) = opensSection line := by
  unfold opensSection
  rw [ltrim_seen]
  cases ltrim line with
  | nil => rfl
  | cons c s =>
    by_cases zero : c = 0
    · subst zero
      rfl
    · simp [seen, zero]

theorem upcase_eq_zero {c : UInt8} (zero : upcase c = 0) : c = 0 := by
  unfold upcase at zero
  split at zero
  · rename_i letter
    obtain ⟨low, -⟩ := letter
    have small : c = 'a'.toUInt8 - 'A'.toUInt8 := by grind
    subst small
    exact absurd low (by decide)
  · exact zero

/-- A header of the section is one up to the first NUL behind it. -/
theorem isHead_seen {sectionName line : List UInt8} (free : 0 ∉ sectionName)
    (matched : isHead sectionName line) :
    isHead sectionName (seen line) := by
  obtain ⟨name, parsed, same⟩ := isHead_iff.mp matched
  obtain ⟨back, content, unclosed⟩ := parseLine_header.mp parsed
  have nameFree : 0 ∉ name := by
    intro zero
    have upper : upcase 0 ∈ sectionName.map upcase := same ▸ List.mem_map_of_mem zero
    obtain ⟨c, member, up⟩ := List.mem_map.mp upper
    exact free (upcase_eq_zero up ▸ member)
  refine isHead_iff.mpr ⟨name, parseLine_header.mpr ⟨seen back, ?_, ?_⟩, same⟩
  · have opened : 0 ∉ '['.toUInt8 :: name ++ [']'.toUInt8] := by
      simp only [List.cons_append, List.mem_cons, List.mem_append, List.not_mem_nil, or_false, not_or]
      exact ⟨by decide, nameFree, by decide⟩
    have split : '['.toUInt8 :: name ++ ']'.toUInt8 :: back =
        ('['.toUInt8 :: name ++ [']'.toUInt8]) ++ back := by
      simp
    rw [ltrim_seen, content, split, seen_append opened]
    simp
  · exact fun member => unclosed ((List.takeWhile_prefix _).mem member)

theorem searchLoop_over {out sectionName : List UInt8} {st : Rewrite}
    {pieces cached pre rest : List (List UInt8)}
    (advanced : Advanced pieces st cached (pre ++ rest) out) (readable : Readable pre)
    (absent : ∀ line ∈ pre, ¬ isHead sectionName line) :
    ∃ st', Advanced pieces st' (pre.foldl cacheLine cached) rest (out ++ pre.flatten) ∧
      st'.wfp = st.wfp ++ blocksBefore cached pre ∧ ∀ result,
        Returns (loop (searchPass sectionName) st') result →
          Returns (loop (searchPass sectionName) st) result := by
  induction pre generalizing st out cached with
  | nil => exact ⟨st, by simpa using advanced, (List.append_nil _).symm, fun _ returns => returns⟩
  | cons line pre ih =>
    obtain ⟨front, copy, cachedReadable, behind⟩ := advanced
    obtain ⟨fits, free⟩ := readable line (by simp)
    have content := str_line st.buf free fits
    obtain ⟨next, counted, onward, log⟩ := accumulate_spec (copy.move (store st.buf 0 (line ++ [0])) _)
      cachedReadable rfl content fits
    obtain ⟨st', passed, logs, later⟩ := ih onward (fun l member => readable l (by simp [member]))
      (fun l member => absent l (by simp [member]))
    refine ⟨st', by simpa using passed, by rw [logs, log, blocksBefore, List.append_assoc],
      fun result returns => Returns.loop_next ?_ (later result returns)⟩
    simp only [searchPass, copy.read behind fits, headerMatch_eq content,
      if_neg (absent line (by simp))]
    exact Returns.bind counted (Returns.pure _)

theorem searchLoop_missing {out sectionName : List UInt8} {st : Rewrite}
    {pieces cached rest : List (List UInt8)} (advanced : Advanced pieces st cached rest out)
    (readable : Readable rest) (absent : ∀ line ∈ rest, ¬ isHead sectionName line) :
    ∃ st', Returns (loop (searchPass sectionName) st) (.missing st') ∧
      Advanced pieces st' (rest.foldl cacheLine cached) [] (out ++ rest.flatten) ∧
      st'.wfp = st.wfp ++ blocksBefore cached rest := by
  rw [← List.append_nil rest] at advanced
  obtain ⟨st', passed, logs, later⟩ := searchLoop_over advanced readable absent
  refine ⟨st', later _ (Returns.loop_done ?_), passed, logs⟩
  obtain ⟨front, copy, -, behind⟩ := passed
  simp only [searchPass, copy.ended behind]
  exact Returns.pure _

theorem skipleading_eq {buf : Chars n} {line : List UInt8} (content : str buf 0 = line) :
    skipleading buf 0 = margin line := by
  rw [skipleading, content, Nat.zero_add, margin]

theorem searchLoop_found {out sectionName head : List UInt8} {st : Rewrite}
    {pieces cached pre post : List (List UInt8)}
      (advanced : Advanced pieces st cached (pre ++ head :: post) out)
    (readable : Readable pre) (fits : head.length < INI_BUFFERSIZE)
      (absent : ∀ line ∈ pre, ¬ isHead sectionName line)
    (free : 0 ∉ sectionName) (matched : isHead sectionName head) :
    ∃ st' front,
      Returns (loop (searchPass sectionName) st) (.found st' (some (margin head))) ∧
      Copying pieces st' front (pre.foldl cacheLine cached) (head :: post) (out ++ pre.flatten) ∧
      Readable (pre.foldl cacheLine cached) ∧ st'.wfp = st.wfp ++ blocksBefore cached pre := by
  obtain ⟨st', passed, logs, later⟩ := searchLoop_over advanced readable absent
  obtain ⟨front, copy, cachedReadable, behind⟩ := passed
  have content := str_seen st'.buf fits
  refine ⟨_, front, later _ (Returns.loop_done ?_), copy.move (store st'.buf 0 (head ++ [0]))
    (front ++ (pre.foldl cacheLine cached ++ [head])).flatten.length, cachedReadable, logs⟩
  have found := headerMatch_eq content sectionName
  have leading := skipleading_eq content
  rw [margin_seen] at leading
  rw [leading] at found
  simp only [searchPass, copy.read behind fits, leading, found, if_pos (isHead_seen free matched)]
  exact Returns.pure _

theorem atSection_eq {buf : Chars n} {line : List UInt8} (content : str buf 0 = line) :
    (peek buf (margin line) = '['.toUInt8) ↔ opensSection line := by
  have trimmed := str_skipleading buf 0
  rw [skipleading_eq content, content] at trimmed
  have first := head_str buf (margin line)
  rw [trimmed] at first
  rw [opensSection, decide_eq_true_eq, ← first]
  cases ltrim line with
  | nil => simp; decide
  | cons c s => simp

theorem atSection_seen {buf : Chars n} {line : List UInt8} (content : str buf 0 = seen line) :
    (peek buf (margin line) = '['.toUInt8) ↔ opensSection line := by
  rw [← margin_seen, ← opensSection_seen]
  exact atSection_eq content

/-- With nothing cached, `cache_flush` only goes back to the mark and empties the buffer. -/
theorem cacheFlush_idle {out : List UInt8} {st : Rewrite} {pieces front rest : List (List UInt8)}
    (copy : Copying pieces st front [] rest out) :
    ∃ st' flag, Returns (cacheFlush st) (st', flag) ∧ Copying pieces st' front [] rest out ∧
      Behind st' front ∧ st'.buf = poke st.buf 0 0 ∧ st'.wfp = st.wfp := by
  obtain ⟨st', flag, returns, after⟩ := cacheFlush_spec copy (fun _ member => by simp at member)
  exact ⟨st', flag, returns, by simpa using after.copy, by simpa using after.behind, after.idle rfl,
    after.log.trans (List.append_nil _)⟩

theorem Copying.tell (copy : Copying pieces st front [] rest out) (behind : Behind st front) :
    Copying pieces st.tell front [] rest out :=
  ⟨copy.content, copy.cut, copy.split, behind, copy.cachelen, copy.small, copy.emitted, copy.counted⟩

theorem Copying.skip (copy : Copying pieces st front [] (line :: rest) out)
    (behind : Behind st (front ++ [line])) : Copying pieces st.tell (front ++ [line]) [] rest out :=
  ⟨copy.content, copy.cut, by rw [copy.split]; simp, behind, copy.cachelen, copy.small, copy.emitted,
    copy.counted⟩

/-- After the buffer has been emptied, the old pointer is at a `[` only when it is not at the
buffer's start. -/
theorem atSection_emptied {buf : Chars INI_BUFFERSIZE} {line : List UInt8} (content : str buf 0 = seen line) :
    atSection (poke buf 0 0) (some (margin line)) ↔ opensSection line ∧ 0 < margin line := by
  rw [atSection, Option.any_some, decide_eq_true_eq, ← atSection_seen content, peek_poke]
  by_cases first : margin line = 0
  · rw [if_pos ⟨first.symm, by decide⟩]
    exact iff_of_false (by decide) (by omega)
  · rw [if_neg (by omega)]
    exact ⟨fun same => ⟨same, by omega⟩, And.left⟩

/-- The pointer of the last line read is only at a `[` when that line starts a section, or when
no line was read and the old pointer still is. -/
theorem skipLoop_spec {out : List UInt8} {st : Rewrite} {pieces front rest : List (List UInt8)}
    (sp : Option Nat) (copy : Copying pieces st front [] rest out) (behind : Behind st front) :
    ∃ st' sp' front', Returns (loop skipPass (st, sp)) (st', sp') ∧
      Copying pieces st' front' [] (dropBody rest) out ∧ st'.wfp = st.wfp ∧
      (dropBody rest ≠ [] → atSection st'.buf sp') ∧
      (rest = [] → st'.buf = poke st.buf 0 0 ∧ sp' = sp) ∧
      (rest ≠ [] → dropBody rest = [] → ¬ atSection st'.buf sp') := by
  induction rest generalizing st front sp with
  | nil =>
    obtain ⟨st', flag, flushed, after, behind', emptied, log⟩ := cacheFlush_idle copy
    refine ⟨st'.tell, sp, front, Returns.loop_done ?_, after.tell behind', log, ?_,
      fun _ => ⟨emptied, rfl⟩, ?_⟩
    · simp only [skipPass, copy.ended (by simpa using behind)]
      exact Returns.bind flushed (Returns.pure _)
    · intro bad
      exact absurd rfl bad
    · intro bad
      exact absurd rfl bad
  | cons line rest ih =>
    have fits := copy.fits
    have content := str_seen st.buf fits
    have leading := (skipleading_eq content).trans (margin_seen line)
    have read := copy.read (by simpa using behind) fits
    by_cases opens : opensSection line
    · have kept : dropBody (line :: rest) = line :: rest := by simp [dropBody, opens]
      have at_bracket : peek (store st.buf 0 (line ++ [0])) (margin line) = '['.toUInt8 :=
        (atSection_seen content).mpr opens
      refine ⟨_, some (margin line), front, Returns.loop_done ?_,
        kept.symm ▸ copy.move (store st.buf 0 (line ++ [0])) (front ++ ([] ++ [line])).flatten.length,
        by rfl, fun _ => ?_,
        fun bad => by simp at bad, fun _ bad => by simp [kept] at bad⟩
      · simp only [skipPass, read, leading, if_pos at_bracket]
        exact Returns.pure _
      · simpa [atSection] using at_bracket
    · have dropped : dropBody (line :: rest) = dropBody rest := by simp [dropBody, opens]
      have past : peek (store st.buf 0 (line ++ [0])) (margin line) ≠ '['.toUInt8 :=
        fun same => opens ((atSection_seen content).mp same)
      have moved := copy.move (store st.buf 0 (line ++ [0])) (front ++ [line]).flatten.length
      obtain ⟨st', sp', front', returns, after, log, starts, ended, inside⟩ :=
        ih (some (margin line)) (moved.skip rfl) rfl
      refine ⟨st', sp', front', Returns.loop_next ?_ returns, dropped ▸ after, log, dropped ▸ starts,
        fun bad => by simp at bad, fun _ none => ?_⟩
      · simp only [skipPass, read, leading, if_neg past]
        exact Returns.pure _
      · by_cases last : rest = []
        · obtain ⟨buffer, same⟩ := ended last
          rw [buffer, same]
          intro flag
          exact opens ((atSection_emptied content).mp flag).1
        · exact inside last (dropped ▸ none)

theorem skipSection_spec {out head sectionName : List UInt8} {st : Rewrite}
    {pieces front cached rest : List (List UInt8)}
    (copy : Copying pieces st front cached (head :: rest) out) (cachedReadable : Readable cached)
    (matched : isHead sectionName head) :
    ∃ st' flag front', Returns (skipSection st (some (margin head))) (st', flag) ∧
      Copying pieces st' front' [] (dropBody rest) out ∧ Behind st' front' ∧ str st'.buf 0 = [] ∧
      (flag ↔ dropBody rest ≠ [] ∨ rest = [] ∧ 0 < margin head) ∧ st'.wfp = st.wfp ++ block cached := by
  have fits := copy.fits
  obtain ⟨st₁, _, flushed, after⟩ := cacheFlush_spec copy cachedReadable
  have read := after.copy.read (by simpa using after.behind) fits
  have content := str_seen st₁.buf fits
  have moved := after.copy.move (store st₁.buf 0 (head ++ [0])) (front ++ cached ++ [head]).flatten.length
  obtain ⟨st₂, sp, front₂, skipped, left, log, starts, ended, inside⟩ :=
    skipLoop_spec (some (margin head)) (moved.skip rfl) rfl
  obtain ⟨st₃, _, flushed', again, behind, emptied, log'⟩ := cacheFlush_idle left
  refine ⟨st₃, atSection st₂.buf sp, front₂, Returns.bind flushed ?_, again, behind, ?_, ?_,
    log'.trans (log.trans after.log)⟩
  · simp only [Rewrite.read, read]
    exact Returns.bind skipped (Returns.bind flushed' (Returns.pure _))
  · rw [emptied]
    exact str_poke_first st₂.buf (by decide)
  · obtain ⟨name, parsed, -⟩ := isHead_iff.mp matched
    have opens := header_opens parsed
    by_cases last : rest = []
    · obtain ⟨buffer, same⟩ := ended last
      rw [buffer, same]
      apply (atSection_emptied content).trans
      simp [last, opens, dropBody]
    · by_cases none : dropBody rest = []
      · simp [inside last none, none, last]
      · simp [starts none, none]

/-- The finished rewriting: what is in the temporary file, and that every flush had its count. -/
structure Rewritten (pieces : List (List UInt8)) (st : Rewrite) (out : List UInt8) : Prop where
  content : st.wfp.flatten = out
  counted : ∀ flush ∈ st.flushes, Counted pieces flush

theorem copyRest_advanced {out : List UInt8} {st : Rewrite} {pieces cached rest : List (List UInt8)}
    (advanced : Advanced pieces st cached rest out) (readable : Readable rest) :
    ∃ st', Returns (copyRest st) st' ∧ Rewritten pieces st' (out ++ rest.flatten) ∧
      st'.wfp = st.wfp ++ (blocksBefore cached rest ++ block (rest.foldl cacheLine cached)) := by
  obtain ⟨st₁, copied, ⟨front, copy, cachedReadable, -⟩, log⟩ := copyLoop_spec advanced readable
  obtain ⟨st₂, flag, flushed, after⟩ := cacheFlush_spec copy cachedReadable
  refine ⟨st₂, Returns.bind copied (Returns.bind flushed (Returns.pure _)), ⟨?_, after.copy.counted⟩, ?_⟩
  · simpa using after.copy.emitted
  · rw [after.log, log, List.append_assoc]

theorem copyRest_spec {out : List UInt8} {st : Rewrite} {pieces rest : List (List UInt8)}
    (advancing : Advancing pieces st rest out) (readable : Readable rest) :
    ∃ st', Returns (copyRest st) st' ∧ Rewritten pieces st' (out ++ rest.flatten) := by
  obtain ⟨cached, advanced⟩ := advancing
  obtain ⟨st', returns, rewritten, -⟩ := copyRest_advanced advanced readable
  exact ⟨st', returns, rewritten⟩

section Writing
variable {sectionName : List UInt8} {settings : List (List UInt8 × List UInt8)}

theorem Copying.write (copy : Copying pieces st front [] rest out) (named : Named sectionName)
    (writable : ∀ setting ∈ settings, Writable setting.1 setting.2) :
    Copying pieces
      { st with
        toWriter := putsection st.toWriter sectionName (settings.map Prod.fst) (settings.map Prod.snd) }
      front [] rest (out ++ sectionText sectionName (settings.map asWritten)) := by
  refine ⟨copy.content, copy.cut, copy.split, copy.mark, copy.cachelen, copy.small, ?_, copy.counted⟩
  rw [putsection_spec st.toWriter named writable, ← copy.emitted]
  simp

/-- What is put behind the last line, when this is what is left in the cache. -/
def separator (cached : List (List UInt8)) : List UInt8 := if flushFlag cached.flatten then [] else [newline]

theorem appendSection_spec {out : List UInt8} {st : Rewrite} {pieces cached : List (List UInt8)}
    (advanced : Advanced pieces st cached [] out) (named : Named sectionName)
    (writable : ∀ setting ∈ settings, Writable setting.1 setting.2) :
    ∃ st', Returns (appendSection sectionName (settings.map Prod.fst) (settings.map Prod.snd) st) st' ∧
      Rewritten pieces st' (out ++ separator cached ++ sectionText sectionName (settings.map asWritten)) ∧
      st'.wfp = st.wfp ++ block cached ++ (if flushFlag cached.flatten then [] else [INI_LINETERM]) ++
        sectionLog sectionName (settings.map asWritten) := by
  obtain ⟨front, copy, cachedReadable, behind⟩ := advanced
  obtain ⟨st', flag, flushed, after⟩ := cacheFlush_spec copy cachedReadable
  have emitted : st'.wfp.flatten = out := by simpa using after.copy.emitted
  have made (w : Writer) := putsection_log w named writable
  have ends := after.flag
  cases flag with
  | false =>
    refine ⟨_, Returns.bind flushed (Returns.pure _), ⟨?_, after.copy.counted⟩, ?_⟩
    · simp only [made, separator, ← ends, Bool.false_eq_true, if_false, Writer.write, List.flatten_append,
        emitted, flatten_sectionLog]
      rfl
    · simp only [made, ← ends, Bool.false_eq_true, if_false, Writer.write, after.log]
  | true =>
    refine ⟨_, Returns.bind flushed (Returns.pure _), ⟨?_, after.copy.counted⟩, ?_⟩
    · simp only [made, separator, ← ends, if_true, List.flatten_append, emitted, flatten_sectionLog,
        List.append_nil]
    · simp only [made, ← ends, if_true, after.log, List.append_nil]

/-- The line behind the section, if there is one, is counted into the cache; nothing is when
the last line was an inner one. -/
theorem resume_advanced {out : List UInt8} {st : Rewrite} {flag : Bool}
    {pieces front rest : List (List UInt8)}
    (copy : Copying pieces st front [] rest out) (behind : Behind st front) (readable : Readable rest)
    (starts : rest ≠ [] → flag) (ended : rest = [] → flag → str st.buf 0 = []) :
    Advanced pieces (resume flag st.read) (rest.take 1) rest.tail (out ++ (rest.head?.getD [])) := by
  have none : st.cachelen = 0 := copy.cachelen
  cases rest with
  | nil =>
    have read : st.read = st := by simp only [Rewrite.read, copy.ended (by simpa using behind)]
    rw [read, List.tail_nil, List.head?_nil, Option.getD_none, List.append_nil]
    have same : resume flag st = { st with mark := (resume flag st).mark } := by
      cases flag with
      | false => rfl
      | true =>
        simp only [resume, ended rfl rfl, none, cacheAccum, List.length_nil, Nat.add_zero, if_true,
          show ¬ INI_BUFFERSIZE ≤ 0 by decide, if_false, Option.getD_some]
    have position : (resume flag st).mark = front.flatten.length := by
      cases flag with
      | false => exact behind
      | true => exact copy.mark
    refine ⟨front, ?_, fun _ member => by simp at member, ?_⟩
    · rw [same]
      exact ⟨copy.content, copy.cut, copy.split, position, copy.cachelen, copy.small, copy.emitted,
        copy.counted⟩
    · rw [same, List.take_nil, List.append_nil]
      exact behind
  | cons line rest =>
    obtain ⟨fits, free⟩ := readable line (by simp)
    have moved := copy.move (store st.buf 0 (line ++ [0])) (front ++ ([] ++ [line])).flatten.length
    have counted := moved.count (by simpa using fits)
    have resumed : resume flag st.read = { { st with
        buf := store st.buf 0 (line ++ [0])
        rfp := ⟨pieces.flatten, (front ++ ([] ++ [line])).flatten.length⟩ } with
        cachelen := st.cachelen + line.length } := by
      simp only [resume, starts (by simp), Rewrite.read, copy.read (by simpa using behind) fits,
        str_line _ free fits, none, cacheAccum, Nat.zero_add, if_neg (Nat.not_le.mpr fits),
        Option.getD_some, if_true]
    rw [resumed]
    exact ⟨front, counted, fun l member => readable l (by simp [List.mem_singleton.mp member]), rfl⟩

theorem resume_spec {out : List UInt8} {st : Rewrite} {flag : Bool} {pieces front rest : List (List UInt8)}
    (copy : Copying pieces st front [] rest out) (behind : Behind st front) (readable : Readable rest)
    (starts : rest ≠ [] → flag) (ended : rest = [] → flag → str st.buf 0 = []) :
    Advancing pieces (resume flag st.read) rest.tail (out ++ (rest.head?.getD [])) :=
  ⟨_, resume_advanced copy behind readable starts ended⟩

theorem resume_wfp (flag : Bool) (st : Rewrite) : (resume flag st.read).wfp = st.wfp := by
  unfold resume Rewrite.read
  split <;> split <;> rfl

/-- Lines that begin with one in the cache are written as if the cache had been empty. -/
theorem blocks_behind {rest : List (List UInt8)} (short : ∀ line ∈ rest, line.length < INI_BUFFERSIZE) :
    blocksBefore (rest.take 1) rest.tail ++ block (rest.tail.foldl cacheLine (rest.take 1)) =
      blocks rest := by
  cases rest with
  | nil => rfl
  | cons line rest =>
    have room : ¬ INI_BUFFERSIZE ≤ ([] : List (List UInt8)).flatten.length + line.length := by
      have := short line List.mem_cons_self
      simp only [List.flatten_nil, List.length_nil]
      omega
    simp only [blocks, blocksBefore, makeRoom, cacheLine, if_neg room, List.take_succ_cons, List.take_zero,
      List.tail_cons, List.foldl_cons, List.nil_append]

theorem replaceSection_spec {out head : List UInt8} {st : Rewrite}
    {pieces front cached rest : List (List UInt8)}
    (copy : Copying pieces st front cached (head :: rest) out) (cachedReadable : Readable cached)
    (kept : Readable (dropBody rest)) (matched : isHead sectionName head) (named : Named sectionName)
    (writable : ∀ setting ∈ settings, Writable setting.1 setting.2)
    (ends : ¬ (settings ≠ [] ∧ rest = [] ∧ 0 < margin head)) :
    ∃ st', Returns (replaceSection sectionName (settings.map Prod.fst) (settings.map Prod.snd) st
        (some (margin head))) st' ∧
      Rewritten pieces st' (out ++ sectionText sectionName (settings.map asWritten) ++
        (dropBody rest).flatten) ∧
      st'.wfp = st.wfp ++ block cached ++ sectionLog sectionName (settings.map asWritten) ++
        blocks (dropBody rest) := by
  obtain ⟨st₁, flag, front₁, skipped, left, behind, emptied, flagged, log⟩ :=
    skipSection_spec copy cachedReadable matched
  have advanced := resume_advanced (left.write named writable) behind kept
    (fun more => flagged.mpr (.inl more)) (fun none up => by
      have hung : rest = [] ∧ 0 < margin head := (flagged.mp up).resolve_left (not_not.mpr none)
      have empty : settings = [] := by
        by_contra some
        exact ends ⟨some, hung⟩
      rw [(putsection_buf st₁.toWriter sectionName writable).1 empty]
      exact emptied)
  obtain ⟨st₂, copied, rewritten, logs⟩ := copyRest_advanced advanced (fun l member =>
    kept l (List.mem_of_mem_tail member))
  refine ⟨st₂, Returns.bind skipped copied, ?_, ?_⟩
  · cases shape : dropBody rest with
    | nil => simpa [shape] using rewritten
    | cons line more => simpa [shape] using rewritten
  · rw [logs, blocks_behind fun line member => (kept line member).1, resume_wfp,
      putsection_log _ named writable,
      log]

/-- A flush that has a count but nothing left to read never ends. -/
theorem cacheFlush_diverges {st : Rewrite} (counted : 0 < st.cachelen)
    (ended : ({ st.rfp with pos := st.mark } : ReadFile).remaining = []) : Diverges (cacheFlush st) := by
  refine Diverges.bind (Diverges.loop_of_invariant
    (I := fun cached => str cached.1 0 = [] ∧ cached.2.1 = 0 ∧ cached.2.2.remaining = []) ?_
    ⟨str_poke_first st.buf (by decide), rfl, ended⟩) _
  rintro ⟨buf, pos, rfp⟩ fuel ⟨empty, rfl, none⟩
  refine ⟨(buf, 0, rfp), ?_, empty, rfl, none⟩
  simp only [flushPass, if_pos counted, fgets_none none, Option.getD_none, strlen, empty,
    List.length_nil, Nat.min_zero]
  rfl

theorem keyLine_length (setting : List UInt8 × List UInt8) :
    (keyLine setting).length = setting.1.length + setting.2.length + 2 := by
  simp [keyLine]
  omega

/-- The line of the last key, left in the buffer, is counted although it is not in the file. -/
theorem replaceSection_diverges {out head : List UInt8} {st : Rewrite}
    {pieces front cached : List (List UInt8)}
    (copy : Copying pieces st front cached [head] out) (cachedReadable : Readable cached)
    (matched : isHead sectionName head)
    (writable : ∀ setting ∈ settings, Writable setting.1 setting.2) (nonempty : settings ≠ [])
    (indented : 0 < margin head) (result : Rewrite) :
    ¬ Returns (replaceSection sectionName (settings.map Prod.fst) (settings.map Prod.snd) st
        (some (margin head))) result := by
  obtain ⟨st₁, flag, front₁, skipped, left, behind, -, flagged, -⟩ :=
    skipSection_spec copy cachedReadable matched
  obtain rfl : flag = true := flagged.mpr (.inr ⟨rfl, indented⟩)
  obtain ⟨setting, member, content⟩ := (putsection_buf st₁.toWriter sectionName writable).2 nonempty
  have ended {n p size : Nat} (buf : Chars n) := left.ended (by simpa using behind) buf p size
  have short : (keyLine (asWritten setting)).length = setting.1.length + (quoted setting.2).length + 2 :=
    keyLine_length (asWritten setting)
  have room : ¬ INI_BUFFERSIZE ≤ (keyLine (asWritten setting)).length := by
    have := (writable setting member).fits
    omega
  intro returns
  have returns := Returns.bind_inv returns skipped
  simp only [Rewrite.read, ended, resume, if_true, content, left.cachelen, cacheAccum,
    List.flatten_nil, List.length_nil, Nat.zero_add, if_neg room, Option.getD_some] at returns
  have copied := Returns.bind_inv returns (Returns.loop_done (by
    simp only [copyPass, ended]
    exact Returns.pure _))
  have exhausted := (left.move st₁.buf st₁.mark).remaining (by rw [Behind, left.mark, List.append_nil])
  rw [← left.content] at exhausted
  have counted : 0 < (keyLine (asWritten setting)).length := by omega
  have hangs : Diverges (cacheFlush { st₁ with
      toWriter := putsection st₁.toWriter sectionName (settings.map Prod.fst) (settings.map Prod.snd)
      cachelen := (keyLine (asWritten setting)).length }) :=
    cacheFlush_diverges counted exhausted
  exact (hangs.bind _).not_returns result copied

end Writing

end SysHelo.MinIni
