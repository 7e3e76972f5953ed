import SysHelo.MinIni.RewriteProofs

/-! `ini_putsection` as a whole: what it leaves in the file system, when it returns, and that
what it does with the text does not depend on how the writes end. -/
namespace SysHelo.MinIni
open CString Stdio Lines Loop

theorem cacheFlush_stable (st : Rewrite) : Stable (cacheFlush st) := by
  refine Stable.bind (Stable.loop ?_ _) fun _ => Stable.pure _
  rintro ⟨buf, pos, rfp⟩
  simp only [flushPass]
  split <;> exact Stable.pure _

theorem accumulate_stable (st : Rewrite) : Stable (accumulate st) := by
  unfold accumulate
  split
  · exact Stable.pure _
  · exact Stable.bind (cacheFlush_stable _) fun _ => Stable.pure _

theorem searchLoop_stable (sectionName : List UInt8) (st : Rewrite) :
    Stable (loop (searchPass sectionName) st) := by
  refine Stable.loop (fun st => ?_) st
  unfold searchPass
  split
  · exact Stable.pure _
  · dsimp only
    split
    · exact Stable.pure _
    · exact Stable.bind (accumulate_stable _) fun _ => Stable.pure _

theorem skipLoop_stable (s : Rewrite × Option Nat) : Stable (loop skipPass s) := by
  refine Stable.loop ?_ s
  rintro ⟨st, sp⟩
  simp only [skipPass]
  split
  · exact Stable.bind (cacheFlush_stable _) fun _ => Stable.pure _
  · split <;> exact Stable.pure _

theorem copyRest_stable (st : Rewrite) : Stable (copyRest st) := by
  refine Stable.bind (Stable.loop (fun st => ?_) st) fun st =>
    Stable.bind (cacheFlush_stable st) fun _ => Stable.pure _
  unfold copyPass
  split
  · exact Stable.pure _
  · exact Stable.bind (accumulate_stable _) fun _ => Stable.pure _

theorem skipSection_stable (st : Rewrite) (sp : Option Nat) : Stable (skipSection st sp) :=
  Stable.bind (cacheFlush_stable st) fun _ => Stable.bind (skipLoop_stable _) fun _ =>
    Stable.bind (cacheFlush_stable _) fun _ => Stable.pure _

theorem rewriteSection_stable (sectionName : List UInt8) (keys values : List (List UInt8))
    (st : Rewrite) : Stable (rewriteSection sectionName keys values st) := by
  refine Stable.bind ?_ fun search => ?_
  · unfold searchSection
    split
    · exact searchLoop_stable sectionName st
    · exact Stable.pure _
  · cases search with
    | missing st => exact Stable.bind (cacheFlush_stable st) fun _ => Stable.pure _
    | found st sp => exact Stable.bind (skipSection_stable st sp) fun _ => copyRest_stable _

theorem iniPutsection_stable (stack : Chars INI_BUFFERSIZE) (o : Outcomes)
    (sectionName : List UInt8) (keys values : List (List UInt8)) (filename : Path) (files : Files) :
    Stable (iniPutsection stack o sectionName keys values filename files) := by
  unfold iniPutsection
  split
  · split <;> exact Stable.pure _
  · dsimp only
    split
    · exact Stable.bind (rewriteSection_stable _ _ _ _) fun _ => Stable.pure _
    · exact Stable.pure _

section Rewriting
variable {sectionName text : List UInt8} {settings : List (List UInt8 × List UInt8)}

/-- The variables after the temporary file has been opened. -/
def Rewrite.start (buf : Chars INI_BUFFERSIZE) (text : List UInt8) : Rewrite :=
  ⟨⟨buf, []⟩, 0, ⟨text, 0⟩, 0, []⟩

theorem start_advanced (buf : Chars INI_BUFFERSIZE) {pieces : List (List UInt8)}
    (cut : Cut newline (INI_BUFFERSIZE - 1) pieces) :
    Advanced pieces (.start buf pieces.flatten) [] pieces [] :=
  ⟨[], ⟨rfl, cut, rfl, rfl, rfl, by decide, rfl, fun _ member => by simp [Rewrite.start] at member⟩,
    fun _ member => by simp at member, rfl⟩

theorem searchSection_eq (named : Named sectionName) : searchSection sectionName = loop
    (searchPass sectionName) := by
  funext st
  rw [searchSection, if_pos named.nonempty]

theorem readable_kept {pieces pre rest : List (List UInt8)} {head : List UInt8} (readable : Readable pieces)
    (split : pieces = pre ++ head :: rest) : Readable pre ∧ Readable (dropBody rest) := by
  subst split
  refine ⟨fun line member => readable line (List.mem_append_left _ member), fun line member => ?_⟩
  exact readable line
    (List.mem_append_right _ (List.mem_cons_of_mem _ ((List.dropWhile_suffix _).mem member)))

theorem cut_fits {pieces : List (List UInt8)} {line : List UInt8}
    (cut : Cut newline (INI_BUFFERSIZE - 1) pieces)
    (member : line ∈ pieces) : line.length < INI_BUFFERSIZE := by
  have short := cut.length_le member
  have room : 0 < INI_BUFFERSIZE := by decide
  omega

theorem rewriteSection_found {pieces pre rest : List (List UInt8)} {head : List UInt8}
    (cut : Cut newline (INI_BUFFERSIZE - 1) pieces) (kept : Readable pre ∧ Readable (dropBody rest))
    (named : Named sectionName)
    (writable : ∀ setting ∈ settings, Writable setting.1 setting.2) (split : pieces = pre ++ head :: rest)
    (absent : ∀ line ∈ pre, ¬ isHead sectionName line) (matched : isHead sectionName head)
    (ends : ¬ (settings ≠ [] ∧ rest = [] ∧ 0 < margin head)) (buf : Chars INI_BUFFERSIZE) :
    ∃ st, Returns (rewriteSection sectionName (settings.map Prod.fst) (settings.map Prod.snd)
        (.start buf pieces.flatten)) st ∧
      Rewritten pieces st
        (pre.flatten ++ sectionText sectionName (settings.map asWritten) ++ (dropBody rest).flatten) ∧
      st.wfp = blocks pre ++ sectionLog sectionName (settings.map asWritten) ++ blocks (dropBody rest) := by
  have advanced := start_advanced buf cut
  have fits := cut_fits cut (show head ∈ pieces by rw [split]; simp)
  nth_rewrite 3 [split] at advanced
  obtain ⟨st₁, front, returns, copy, cachedReadable, searched⟩ := searchLoop_found advanced kept.1 fits absent
    named.free matched
  obtain ⟨st₂, replaced, rewritten, log⟩ := replaceSection_spec copy cachedReadable kept.2 matched named
    writable ends
  rw [rewriteSection, searchSection_eq named]
  refine ⟨st₂, Returns.bind returns replaced, by simpa using rewritten, ?_⟩
  rw [log, searched]
  rfl

theorem rewriteSection_missing {pieces : List (List UInt8)} (cut : Cut newline (INI_BUFFERSIZE - 1) pieces)
    (readable : Readable pieces) (named : Named sectionName)
    (writable : ∀ setting ∈ settings, Writable setting.1 setting.2)
    (absent : ∀ line ∈ pieces, ¬ isHead sectionName line) (buf : Chars INI_BUFFERSIZE) :
    ∃ st, Returns (rewriteSection sectionName (settings.map Prod.fst) (settings.map Prod.snd)
        (.start buf pieces.flatten)) st ∧
      Rewritten pieces st
        (pieces.flatten ++ separator (lastBlock pieces) ++ sectionText sectionName (settings.map asWritten)) ∧
      st.wfp = blocks pieces ++ (if flushFlag (lastBlock pieces).flatten then [] else [INI_LINETERM]) ++
        sectionLog sectionName (settings.map asWritten) := by
  obtain ⟨st₁, returns, searched, log⟩ := searchLoop_missing (start_advanced buf cut) readable absent
  obtain ⟨st₂, appended, rewritten, logs⟩ := appendSection_spec searched named writable
  rw [rewriteSection, searchSection_eq named]
  refine ⟨st₂, Returns.bind returns appended, rewritten, ?_⟩
  rw [logs, log]
  rfl

theorem cut_lines (readable : Readable (lines newline text)) :
    Cut newline (INI_BUFFERSIZE - 1) (lines newline text) := by
  apply Cut.lines
  intro line member
  have short := (readable line member).1
  omega

theorem separator_cases (pieces : List (List UInt8)) :
    separator (lastBlock pieces) = [newline] ∨
      separator (lastBlock pieces) = [] ∧ pieces.flatten.getLast? = some newline := by
  unfold separator
  split
  · rename_i flag
    obtain ⟨front, split⟩ := lastBlock_isSuffix pieces
    rw [flushFlag, Bool.and_eq_true, decide_eq_true_eq, decide_eq_true_eq] at flag
    refine .inr ⟨rfl, ?_⟩
    rw [← split, List.flatten_append, List.getLast?_append, flag.2]
    rfl
  · exact .inl rfl

theorem rewriteSection_spec (readable : Readable (lines newline text)) (named : Named sectionName)
    (plain : ∀ setting ∈ settings, Plain setting)
    (ends : ¬ (settings ≠ [] ∧ IndentedLast sectionName text)) (buf : Chars INI_BUFFERSIZE) :
    ∃ st out, Returns (rewriteSection sectionName (settings.map Prod.fst) (settings.map Prod.snd)
        (.start buf text)) st ∧
      Rewritten (lines newline text) st out ∧ Replaced sectionName settings text out := by
  have cut := cut_lines readable
  have whole := flatten_lines newline text
  have writable := fun setting member => (plain setting member).writable
  have same := map_asWritten plain
  by_cases found : HasSection sectionName text
  · obtain ⟨head, rest, from_head, matched, split⟩ := linesFrom_cons found
    obtain ⟨st, returns, rewritten, -⟩ := rewriteSection_found cut (readable_kept readable split)
      named writable
      split (fun l member => not_isHead_before member) matched
      (fun ⟨keys, last, indented⟩ => ends ⟨keys, head, by rw [from_head, last], indented⟩) buf
    rw [whole] at returns
    rw [same] at rewritten
    refine ⟨st, _, returns, rewritten, fun _ => ?_, fun bad => absurd found bad⟩
    simp [before, after, linesAfter, from_head]
  · have absent : ∀ line ∈ lines newline text, ¬ isHead sectionName line := fun line member matched =>
      found ⟨line, member, matched⟩
    obtain ⟨st, returns, rewritten, -⟩ := rewriteSection_missing cut readable named writable absent buf
    have terminator := separator_cases (lines newline text)
    rw [whole] at returns rewritten terminator
    rw [same] at rewritten
    exact ⟨st, _, returns, rewritten, fun bad => absurd bad found, fun _ => ⟨_, rfl, terminator⟩⟩

/-- The rewriting never ends when the section's header is the indented last piece and the section
to be written is not empty. -/
theorem rewriteSection_endless {pieces pre : List (List UInt8)} {head : List UInt8}
    (cut : Cut newline (INI_BUFFERSIZE - 1) pieces) (readable : Readable pre) (named : Named sectionName)
    (writable : ∀ setting ∈ settings, Writable setting.1 setting.2) (nonempty : settings ≠ [])
    (split : pieces = pre ++ [head])
    (absent : ∀ line ∈ pre, ¬ isHead sectionName line) (matched : isHead sectionName head)
    (indented : 0 < margin head) (buf : Chars INI_BUFFERSIZE) :
    Diverges (rewriteSection sectionName (settings.map Prod.fst) (settings.map Prod.snd)
      (.start buf pieces.flatten)) := by
  apply Diverges.of_not_returns (rewriteSection_stable _ _ _ _)
  intro st returns
  have advanced := start_advanced buf cut
  have fits := cut_fits cut (show head ∈ pieces by rw [split]; simp)
  nth_rewrite 3 [split] at advanced
  obtain ⟨st₁, front, searched, copy, cachedReadable, -⟩ := searchLoop_found advanced readable fits absent
    named.free matched
  rw [rewriteSection, searchSection_eq named] at returns
  have replaced := Returns.bind_inv returns searched
  exact replaceSection_diverges copy cachedReadable matched writable nonempty indented st replaced

theorem rewriteSection_diverges (readable : Readable (lines newline text)) (named : Named sectionName)
    (plain : ∀ setting ∈ settings, Plain setting) (nonempty : settings ≠ [])
    (ends : IndentedLast sectionName text) (buf : Chars INI_BUFFERSIZE) :
    Diverges (rewriteSection sectionName (settings.map Prod.fst) (settings.map Prod.snd)
      (.start buf text)) := by
  obtain ⟨head, last, indented⟩ := ends
  have found : HasSection sectionName text := by
    by_contra missing
    have none : linesFrom sectionName (lines newline text) = [] := by
      rw [linesFrom, List.dropWhile_eq_nil_iff]
      intro line member
      have : ¬ isHead sectionName line := by
        intro matched
        exact missing ⟨line, member, matched⟩
      simpa using this
    simp [none] at last
  obtain ⟨head', rest, from_head, matched, split⟩ := linesFrom_cons found
  rw [last, List.cons.injEq] at from_head
  obtain ⟨rfl, rfl⟩ := from_head
  have endless := rewriteSection_endless (cut_lines readable) (readable_kept readable split).1 named
    (fun setting member => (plain setting member).writable) nonempty split
    (fun l member => not_isHead_before member) matched indented buf
  rwa [flatten_lines] at endless

end Rewriting

def Writer.Clean (w : Writer) : Prop := 0 ∉ w.wfp.flatten

theorem Writer.Clean.write {w : Writer} (clean : w.Clean) {s : List UInt8} (free : 0 ∉ s) :
    (w.write s).Clean := by
  simpa [Writer.Clean, Writer.write, free] using clean

theorem Writer.Clean.writeStr {w : Writer} (clean : w.Clean) (buf : Chars INI_BUFFERSIZE) :
    ({ w with buf }.write (str buf 0)).Clean :=
  Writer.Clean.write (w := { w with buf }) clean (zero_not_mem_str buf 0)

theorem putkeys_clean {w : Writer} (clean : w.Clean) (keys values : List (List UInt8)) :
    (putkeys w keys values).Clean := by
  induction keys generalizing w values with
  | nil => exact clean
  | cons key keys ih =>
    cases values with
    | nil => exact clean
    | cons value values => exact ih (clean.writeStr _) values

theorem putsection_clean {w : Writer} (clean : w.Clean) (sectionName : List UInt8)
    (keys values : List (List UInt8)) :
    (putsection w sectionName keys values).Clean := by
  unfold putsection
  split
  · refine (putkeys_clean ?_ keys values).write (by decide)
    unfold writesection
    split
    · exact clean
    · exact clean.writeStr _
  · exact clean

theorem flushWrite_clean {w : Writer} (clean : w.Clean) (pos : Nat) : (flushWrite w pos).1.Clean := by
  unfold flushWrite
  split
  · exact clean.writeStr _
  · exact clean

theorem cacheFlush_clean {st : Rewrite} (clean : st.Clean) :
    Ensures (cacheFlush st) fun result => result.1.Clean :=
  Ensures.bind_any fun ⟨buf, pos, _⟩ => Ensures.pure (flushWrite_clean (w := ⟨buf, st.wfp⟩) clean pos)

theorem read_clean {st : Rewrite} (clean : st.Clean) : st.read.Clean := by
  unfold Rewrite.read
  split <;> exact clean

theorem accumulate_clean {st : Rewrite} (clean : st.Clean) : Ensures (accumulate st) fun st' =>
    st'.Clean := by
  unfold accumulate
  split
  · exact Ensures.pure clean
  · exact Ensures.bind (cacheFlush_clean clean) fun _ flushed => Ensures.pure (read_clean flushed)

theorem searchSection_clean {st : Rewrite} (clean : st.Clean) (sectionName : List UInt8) :
    Ensures (searchSection sectionName st) fun
      | .missing st' => st'.Clean
      | .found st' _ => st'.Clean := by
  unfold searchSection
  split
  · refine Ensures.loop (I := fun st' : Rewrite => st'.Clean) (fun st' held => ?_) clean
    unfold searchPass
    split
    · exact Ensures.pure held
    · dsimp only
      split
      · exact Ensures.pure held
      · exact Ensures.bind (accumulate_clean held) fun _ more => Ensures.pure more
  · exact Ensures.pure clean

theorem skipSection_clean {st : Rewrite} (clean : st.Clean) (sp : Option Nat) :
    Ensures (skipSection st sp) fun result => result.1.Clean := by
  refine Ensures.bind (cacheFlush_clean clean) fun first flushed => ?_
  refine Ensures.bind (P := fun s : Rewrite × Option Nat => s.1.Clean) ?_ fun second held =>
    Ensures.bind (cacheFlush_clean held) fun _ more => Ensures.pure more
  refine Ensures.loop (I := fun s : Rewrite × Option Nat => s.1.Clean) (fun s held => ?_) (read_clean flushed)
  obtain ⟨st', sp'⟩ := s
  simp only [skipPass]
  split
  · exact Ensures.bind (cacheFlush_clean held) fun _ more => Ensures.pure more
  · split <;> exact Ensures.pure held

theorem copyRest_clean {st : Rewrite} (clean : st.Clean) : Ensures (copyRest st) fun st' => st'.Clean := by
  have copied : Ensures (loop copyPass st) fun st' => st'.Clean := by
    refine Ensures.loop (I := fun st' : Rewrite => st'.Clean) (fun st' held => ?_) clean
    unfold copyPass
    split
    · exact Ensures.pure held
    · exact Ensures.bind (accumulate_clean held) fun _ more => Ensures.pure more
  exact Ensures.bind copied fun _ held => Ensures.bind (cacheFlush_clean held) fun _ more => Ensures.pure more

theorem rewriteSection_clean {st : Rewrite} (clean : st.Clean) (sectionName : List UInt8)
    (keys values : List (List UInt8)) :
    Ensures (rewriteSection sectionName keys values st) fun st' => st'.Clean := by
  refine Ensures.bind (searchSection_clean clean sectionName) fun search held => ?_
  cases search with
  | missing st' =>
    refine Ensures.bind (cacheFlush_clean held) fun result flushed => Ensures.pure ?_
    refine putsection_clean ?_ sectionName keys values
    split
    · exact flushed
    · exact flushed.write (by decide)
  | found st' sp =>
    refine Ensures.bind (skipSection_clean held sp) fun result skipped => copyRest_clean ?_
    rw [Writer.Clean, resume_wfp]
    exact putsection_clean skipped sectionName keys values

/-- A file name that fits the buffer, and whose temporary name is another one. -/
structure Filename (path : Path) : Prop where
  nonempty : path ≠ []
  free : 0 ∉ path
  fits : path.length < INI_BUFFERSIZE
  last : path.getLast? ≠ some '~'.toUInt8

instance (path : Path) : Decidable (Filename path) :=
  decidable_of_iff (path ≠ [] ∧ 0 ∉ path ∧ path.length < INI_BUFFERSIZE ∧ path.getLast? ≠ some '~'.toUInt8)
    ⟨fun all => ⟨all.1, all.2.1, all.2.2.1, all.2.2.2⟩,
      fun named => ⟨named.nonempty, named.free, named.fits, named.last⟩⟩

def tempname (path : Path) : Path := path.dropLast ++ ['~'.toUInt8]

theorem iniTempname_spec {path : Path} (filename : Filename path) (dest : Chars INI_BUFFERSIZE) :
    str (iniTempname dest path) 0 = tempname path := by
  obtain ⟨front, c, rfl⟩ := path.eq_nil_or_concat.resolve_left filename.nonempty
  have fits := filename.fits
  have free := filename.free
  rw [List.concat_eq_append, List.length_append, List.length_singleton] at fits
  rw [List.concat_eq_append] at free
  have copied := str_store (p := 0) dest free (by simp; omega)
  rw [iniTempname, List.concat_eq_append, iniStrncpy_none_text dest _ free (by simpa using fits), strlen,
    copied, tempname, List.dropLast_concat]
  generalize store dest 0 (front ++ [c] ++ [0]) = b at copied
  have position : (front ++ [c]).length - 1 = front.length := by simp
  rw [position]
  refine str_eq (fun i h => ?_) ?_ ?_
  · rw [List.length_append, List.length_singleton] at h
    have old := peek_str b 0 i (by rw [copied]; simpa using h)
    by_cases inner : i < front.length
    · rw [Nat.zero_add] at old ⊢
      rw [peek_poke_ne _ _ (by omega), old, List.getElem_append_left inner]
      simp [copied, inner]
    · obtain rfl : i = front.length := by omega
      rw [Nat.zero_add, peek_poke_self _ (by omega)]
      simp
  · have ended := peek_str_end b 0
    rw [copied] at ended
    rw [peek_poke_ne _ _ (by simp)]
    simpa using ended
  · simp only [List.mem_append, List.mem_singleton, not_or] at free ⊢
    exact ⟨free.1, by decide⟩

theorem tempname_ne {path : Path} (filename : Filename path) : tempname path ≠ path := by
  intro same
  have last := filename.last
  rw [← same, tempname, List.getLast?_concat] at last
  exact last rfl

theorem closeRename_at {filename : Path} (named : Filename filename) (o : Outcomes) (files : Files)
    (st : Rewrite) :
    closeRename o files filename st (tempname filename) filename =
      if o.rename then some (o.stored st.wfp) else if o.remove then none else files filename := by
  have other := tempname_ne named
  rw [closeRename, iniTempname_spec named]
  cases rename : o.rename <;> cases remove : o.remove <;>
    simp [Files.rename, Files.remove, Files.fclose, Function.update, other, other.symm, rename, remove]

section Calls
variable {sectionName : List UInt8} {settings : List (List UInt8 × List UInt8)} {stack : Chars INI_BUFFERSIZE}
  {o : Outcomes} {filename : Path} {files : Files} {text : List UInt8}

theorem iniPutsection_new (named : Named sectionName)
    (writable : ∀ setting ∈ settings, Writable setting.1 setting.2)
    (missing : Files.fopenRead o files filename = none) (opened : o.fopenWrite) :
    Returns (iniPutsection stack o sectionName (settings.map Prod.fst) (settings.map Prod.snd) filename
      files) (Files.fclose o files filename (sectionLog sectionName (settings.map asWritten)), true) := by
  have logged := putsection_log ⟨stack, []⟩ named writable
  rw [List.nil_append] at logged
  simp only [iniPutsection, missing, if_pos opened, logged]
  exact Returns.pure _

theorem iniPutsection_missing (named : Named sectionName) (plain : ∀ setting ∈ settings, Plain setting)
    (missing : Files.fopenRead o files filename = none) (opened : o.fopenWrite) :
    Returns (iniPutsection stack o sectionName (settings.map Prod.fst) (settings.map Prod.snd) filename
      files) (Files.fclose o files filename (sectionLog sectionName settings), true) := by
  have writable := fun setting member => (plain setting member).writable
  nth_rewrite 3 [← map_asWritten plain]
  exact iniPutsection_new named writable missing opened

theorem iniPutsection_refused {keys values : List (List UInt8)} (refused : ¬ o.fopenWrite) :
    Returns (iniPutsection stack o sectionName keys values filename files) (files, false) := by
  unfold iniPutsection
  split <;> simp only [if_neg refused] <;> exact Returns.pure _

/-- The call fails exactly when nothing can be written. -/
theorem iniPutsection_saved {keys values : List (List UInt8)} {files' : Files} {saved : Bool}
    (returns : Returns (iniPutsection stack o sectionName keys values filename files) (files', saved)) :
    saved = o.fopenWrite := by
  by_cases opened : o.fopenWrite
  · unfold iniPutsection at returns
    split at returns
    · simp only [if_pos opened] at returns
      exact (Prod.mk.inj (returns.unique (Returns.pure _))).2.trans opened.symm
    · simp only [if_pos opened] at returns
      obtain ⟨st, -, closed⟩ := (rewriteSection_stable _ _ _ _).bind_inv returns
      exact (Prod.mk.inj (closed.unique (Returns.pure _))).2.trans opened.symm
  · have refused : Returns (iniPutsection stack o sectionName keys values filename files) (files, false) :=
      iniPutsection_refused opened
    rw [(Prod.mk.inj (returns.unique refused)).2]
    simpa using opened

theorem iniPutsection_eq (stack : Chars INI_BUFFERSIZE) (sectionName : List UInt8)
    (keys values : List (List UInt8)) (named : Filename filename)
    (present : Files.fopenRead o files filename = some ⟨text, 0⟩) (opened : o.fopenWrite) :
    iniPutsection stack o sectionName keys values filename files =
      rewriteSection sectionName keys values (.start (iniTempname stack filename) text) >>= fun st =>
        pure (closeRename o files filename st (tempname filename), true) := by
  simp only [iniPutsection, present, if_pos opened, iniTempname_spec named]
  rfl

end Calls

end SysHelo.MinIni
