import SysHelo.MinIni.Getters
import SysHelo.MinIni.Puts
import SysHelo.MinIni.PutsectionProofs
import SysHelo.MinIni.Quoting

/-! What `ini_puts` makes of a text: the exact text of the rewritten file, for lines of any length,
and that overwriting a line in its place gives the same one. -/
namespace SysHelo.MinIni
open CString Stdio Lines Loop Sections

/-- The key of a line as `ini_puts` sees it, in a comment too. -/
def keyText (line : List UInt8) : Option (List UInt8) :=
  ((splitFirst '='.toUInt8 (ltrim line)).or (splitFirst ':'.toUInt8 (ltrim line))).map fun pair =>
    rtrim pair.1

def namesKey (key line : List UInt8) : Bool := key ≠ [] && (keyText line).map folded = some (folded key)

/-- The lines at which the search for the key ends. -/
def endsSearch (key : Option (List UInt8)) (line : List UInt8) : Bool :=
  opensSection line || key.any fun k => namesKey k line

theorem keyText_cases (line : List UInt8) :
    (∃ raw delimiter back, Cuts line raw delimiter back ∧ keyText line = some (rtrim raw)) ∨
      keyText line = none ∧ '='.toUInt8 ∉ ltrim line ∧ ':'.toUInt8 ∉ ltrim line := by
  unfold keyText
  cases equal : splitFirst '='.toUInt8 (ltrim line) with
  | some pair =>
    obtain ⟨raw, back⟩ := pair
    obtain ⟨split, free⟩ := splitFirst_some equal
    exact .inl ⟨raw, _, back, ⟨split, free, .inl rfl⟩, rfl⟩
  | none =>
    have absent := splitFirst_none.mp equal
    cases colon : splitFirst ':'.toUInt8 (ltrim line) with
    | some pair =>
      obtain ⟨raw, back⟩ := pair
      obtain ⟨split, free⟩ := splitFirst_some colon
      exact .inl ⟨raw, _, back, ⟨split, free, .inr ⟨rfl, absent⟩⟩, rfl⟩
    | none => exact .inr ⟨rfl, absent, splitFirst_none.mp colon⟩

theorem keyEnd_any {buf : Chars INI_BUFFERSIZE} {line : List UInt8} (content : str buf 0 = line)
    (key : Option (List UInt8)) :
    ((keyEnd buf (margin line)).any fun ep => key.any (keyMatch buf (margin line) ep)) =
      key.any fun k => namesKey k line := by
  rcases keyText_cases line with ⟨raw, delimiter, back, cuts, text⟩ | ⟨text, equal, colon⟩
  · rw [keyEnd_cuts content cuts, Option.any_some]
    congr 1
    funext k
    rw [keyMatch_eq content cuts, namesKey, text]
    simp
  · rw [keyEnd_none content equal colon]
    cases key with
    | none => rfl
    | some k => simp [namesKey, text]

theorem endsSearch_iff {buf : Chars INI_BUFFERSIZE} {line : List UInt8} (content : str buf 0 = line)
    (key : Option (List UInt8)) :
    ((keyEnd buf (margin line)).any (fun ep => key.any (keyMatch buf (margin line) ep)) ∨
      peek buf (margin line) = '['.toUInt8) ↔ endsSearch key line := by
  rw [keyEnd_any content, atSection_eq content, endsSearch, Bool.or_eq_true, or_comm]

def headerText (sectionName : List UInt8) : List UInt8 :=
  if sectionName = [] then [] else '['.toUInt8 :: sectionName ++ [']'.toUInt8, newline]

/-- The line of the setting, when there is one to write. -/
def settingText (key value : Option (List UInt8)) : List UInt8 :=
  match key, value with
  | some key, some value => keyLine (key, quoted value)
  | _, _ => []

/-- What comes behind the last line, when this is what is left in the cache. -/
def lastText (cached : List (List UInt8)) (sectionName : List UInt8) (key value : Option (List UInt8)) :
    List UInt8 :=
  match key, value with
  | some key, some value => separator cached ++ headerText sectionName ++ keyLine (key, quoted value)
  | _, _ => []

/-- The lines of a section and those below it, with the key set or erased. -/
def entryText (key : List UInt8) (value : Option (List UInt8)) (rest : List (List UInt8)) : List UInt8 :=
  let pre := rest.takeWhile fun line => !endsSearch (some key) line
  match rest.dropWhile fun line => !endsSearch (some key) line with
  | [] => pre.flatten ++ lastText (lastBlock pre) [] (some key) value
  | line :: more =>
    pre.flatten ++ settingText (some key) value ++ (if opensSection line then line :: more else more).flatten

/-- The lines from a section's header on, or the whole text, with what was asked for done. -/
def sectionRewritten (key value : Option (List UInt8)) (head rest : List (List UInt8)) : List UInt8 :=
  match key with
  | some key => head.flatten ++ entryText key value rest
  | none => (dropBody rest).flatten

/-- The rewritten text. -/
def settingRewritten (sectionName : List UInt8) (key value : Option (List UInt8))
    (pieces : List (List UInt8)) :
    List UInt8 :=
  if sectionName = [] then
    -- without a section there is no header, but erasing skips the first line all the same
    if key.isNone then (dropBody pieces.tail).flatten else sectionRewritten key value [] pieces
  else if ∃ line ∈ pieces, isHead sectionName line then
    (linesBefore sectionName pieces).flatten ++
      sectionRewritten key value ((linesFrom sectionName pieces).take 1) (linesFrom sectionName pieces).tail
  else pieces.flatten ++ lastText (lastBlock pieces) sectionName key value

section Searches
variable {out sectionName : List UInt8} {st : Rewrite} {pieces cached front pre rest : List (List UInt8)}

theorem headerLoop_over (advanced : Advanced pieces st cached (pre ++ rest) out) (readable : Readable pre)
    (absent : ∀ line ∈ pre, ¬ isHead sectionName line) (erased : Bool) :
    ∃ st', Advanced pieces st' (pre.foldl cacheLine cached) rest (out ++ pre.flatten) ∧ ∀ result,
      Returns (loop (headerPass sectionName erased) st') result →
        Returns (loop (headerPass sectionName erased) st) result := by
  induction pre generalizing st out cached with
  | nil => exact ⟨st, by simpa using advanced, fun _ returns => returns⟩
  | cons line pre ih =>
    obtain ⟨front, copy, cachedReadable, behind⟩ := advanced
    obtain ⟨fits, free⟩ := readable line (by simp)
    have content := str_line st.buf free fits
    obtain ⟨next, counted, onward, -⟩ := accumulate_spec (copy.move (store st.buf 0 (line ++ [0])) _)
      cachedReadable rfl content fits
    obtain ⟨st', passed, later⟩ := ih onward (fun l member => readable l (by simp [member]))
      (fun l member => absent l (by simp [member]))
    have missed := headerMatch_eq content sectionName
    rw [Bool.eq_false_iff.mpr (absent line (by simp))] at missed
    refine ⟨st', by simpa using passed, fun result returns => Returns.loop_next ?_ (later result returns)⟩
    simp only [headerPass, copy.read behind fits, missed, Bool.not_false, Bool.true_or, if_true,
      Bool.false_eq_true, if_false]
    exact Returns.bind counted (Returns.pure _)

theorem headerLoop_missing (advanced : Advanced pieces st cached rest out) (readable : Readable rest)
    (absent : ∀ line ∈ rest, ¬ isHead sectionName line) (erased : Bool) :
    ∃ st', Returns (loop (headerPass sectionName erased) st) (.missing st') ∧
      Advanced pieces st' (rest.foldl cacheLine cached) [] (out ++ rest.flatten) := by
  rw [← List.append_nil rest] at advanced
  obtain ⟨st', passed, later⟩ := headerLoop_over advanced readable absent erased
  refine ⟨st', later _ (Returns.loop_done ?_), passed⟩
  obtain ⟨front, copy, -, behind⟩ := passed
  simp only [headerPass, copy.ended behind]
  exact Returns.pure _

/-- The header is counted into the cache unless the section is erased. -/
theorem headerLoop_found {head : List UInt8} {post : List (List UInt8)}
    (advanced : Advanced pieces st cached (pre ++ head :: post) out) (readable : Readable (pre ++ [head]))
    (absent : ∀ line ∈ pre, ¬ isHead sectionName line) (matched : isHead sectionName head) (erased : Bool) :
    ∃ st' front' cached', Returns (loop (headerPass sectionName erased) st) (.found st') ∧ Readable cached' ∧
      Copying pieces st' front' cached' (if erased then head :: post else post)
        (out ++ pre.flatten ++ if erased then [] else head) := by
  obtain ⟨st₁, passed, later⟩ := headerLoop_over advanced
    (fun l member => readable l (by simp [member])) absent
    erased
  obtain ⟨front, copy, cachedReadable, behind⟩ := passed
  obtain ⟨fits, free⟩ := readable head (by simp)
  have content := str_line st₁.buf free fits
  have found := headerMatch_eq content sectionName
  rw [matched] at found
  have moved := copy.move (store st₁.buf 0 (head ++ [0]))
    (front ++ (pre.foldl cacheLine cached ++ [head])).flatten.length
  cases erased with
  | true =>
    refine ⟨_, front, _, later _ (Returns.loop_done ?_), cachedReadable, by
      simpa only [if_true, List.append_nil] using moved⟩
    simp only [headerPass, copy.read behind fits, found, Bool.not_true, Bool.or_self,
      Bool.false_eq_true, if_false,
      if_true]
    exact Returns.bind (Returns.pure _) (Returns.pure _)
  | false =>
    obtain ⟨st₂, counted, ⟨front', copy', cachedReadable', -⟩, -⟩ := accumulate_spec moved cachedReadable
      rfl content fits
    refine ⟨st₂, front', _, later _ (Returns.loop_done ?_), cachedReadable', by simpa using copy'⟩
    simp only [headerPass, copy.read behind fits, found, Bool.not_true, Bool.not_false, Bool.or_true, if_true]
    exact Returns.bind counted (Returns.pure _)

theorem keyLoop_over {key : List UInt8} (advanced : Advanced pieces st cached (pre ++ rest) out)
    (readable : Readable pre) (passed : ∀ line ∈ pre, ¬ endsSearch (some key) line) :
    ∃ st', Advanced pieces st' (pre.foldl cacheLine cached) rest (out ++ pre.flatten) ∧ ∀ result,
      Returns (loop (keyPass (some key)) st') result → Returns (loop (keyPass (some key)) st) result := by
  induction pre generalizing st out cached with
  | nil => exact ⟨st, by simpa using advanced, fun _ returns => returns⟩
  | cons line pre ih =>
    obtain ⟨front, copy, cachedReadable, behind⟩ := advanced
    obtain ⟨fits, free⟩ := readable line (by simp)
    have content := str_line st.buf free fits
    obtain ⟨next, counted, onward, -⟩ := accumulate_spec (copy.move (store st.buf 0 (line ++ [0])) _)
      cachedReadable rfl content fits
    obtain ⟨st', passing, later⟩ := ih onward (fun l member => readable l (by simp [member]))
      (fun l member => passed l (by simp [member]))
    have goesOn := (endsSearch_iff content (some key)).not.mpr (passed line (by simp))
    refine ⟨st', by simpa using passing, fun result returns => Returns.loop_next ?_ (later result returns)⟩
    simp only [keyPass, copy.read behind fits, skipleading_eq content, if_neg goesOn, Option.isNone_some,
      Bool.false_eq_true, if_false]
    exact Returns.bind counted (Returns.pure _)

/-- Without a key the lines passed over are left out. -/
theorem keyLoop_skip (copy : Copying pieces st front [] (pre ++ rest) out) (behind : Behind st front)
    (readable : Readable pre) (passed : ∀ line ∈ pre, ¬ opensSection line) :
    ∃ st', Copying pieces st' (front ++ pre) [] rest out ∧ Behind st' (front ++ pre) ∧ ∀ result,
      Returns (loop (keyPass none) st') result → Returns (loop (keyPass none) st) result := by
  induction pre generalizing st front with
  | nil => exact ⟨st, by simpa using copy, by simpa using behind, fun _ returns => returns⟩
  | cons line pre ih =>
    obtain ⟨fits, free⟩ := readable line (by simp)
    have content := str_line st.buf free fits
    have moved := copy.move (store st.buf 0 (line ++ [0])) (front ++ [line]).flatten.length
    obtain ⟨st', copy', behind', later⟩ := @ih _ (front ++ [line]) (moved.skip rfl) rfl
      (fun l member => readable l (by simp [member])) (fun l member => passed l (by simp [member]))
    have goesOn : ¬ ((keyEnd (store st.buf 0 (line ++ [0])) (margin line)).any (fun ep =>
        (none : Option (List UInt8)).any (keyMatch (store st.buf 0 (line ++ [0])) (margin line) ep)) ∨
        peek (store st.buf 0 (line ++ [0])) (margin line) = '['.toUInt8) := by
      rw [endsSearch_iff content]
      simpa [endsSearch] using passed line (by simp)
    rw [List.append_assoc, List.singleton_append] at copy' behind'
    refine ⟨st', copy', behind', fun result returns => Returns.loop_next ?_ (later result returns)⟩
    have read := copy.read (by simpa using behind) fits
    simp only [keyPass, read, skipleading_eq content, if_neg goesOn, Option.isNone_none, if_true]
    exact Returns.pure _

end Searches

/-- What is written is not cut: the setting, and the name of a section that it comes in. -/
structure Putting (sectionName : List UInt8) (key value : Option (List UInt8)) : Prop where
  writable : ∀ k v, key = some k → value = some v → Writable k v
  named : sectionName ≠ [] → Named sectionName

section Entry
variable {out sectionName : List UInt8} {st : Rewrite} {pieces cached front rest : List (List UInt8)}
  {key value : Option (List UInt8)}

theorem putSetting_spec (putting : Putting sectionName key value) (w : Writer) :
    (putSetting w key value).wfp.flatten = w.wfp.flatten ++ settingText key value := by
  unfold putSetting settingText
  cases key with
  | none => simp
  | some k =>
    cases value with
    | none => simp
    | some v =>
      dsimp only
      rw [(writekey_quoted w (putting.writable k v rfl rfl)).1, List.flatten_append, List.flatten_singleton]

theorem Copying.put (copy : Copying pieces st front [] rest out) (putting : Putting sectionName key value) :
    Copying pieces { st with toWriter := putSetting st.toWriter key value } front [] rest
      (out ++ settingText key value) := by
  refine ⟨copy.content, copy.cut, copy.split, copy.mark, copy.cachelen, copy.small, ?_, copy.counted⟩
  rw [putSetting_spec putting, ← copy.emitted]
  simp

theorem writesection_text (named : sectionName ≠ [] → Named sectionName) (w : Writer) :
    (writesection w sectionName).wfp.flatten = w.wfp.flatten ++ headerText sectionName := by
  unfold headerText
  by_cases empty : sectionName = []
  · rw [writesection, if_pos empty, if_pos empty, List.append_nil]
  · have written := named empty
    rw [writesection_spec w written.nonempty written.free written.fits, if_neg empty, List.flatten_append,
      List.flatten_singleton]

theorem putLast_spec (advanced : Advanced pieces st cached [] out) (putting : Putting sectionName key value) :
    ∃ st', Returns (putLast sectionName key value st) st' ∧
      Rewritten pieces st' (out ++ lastText cached sectionName key value) := by
  obtain ⟨front, copy, cachedReadable, -⟩ := advanced
  obtain ⟨st', flag, flushed, after⟩ := cacheFlush_spec copy cachedReadable
  have emitted : st'.wfp.flatten = out := by simpa using after.copy.emitted
  unfold lastText
  cases key with
  | none => exact ⟨st', Returns.bind flushed (Returns.pure _), by simpa using emitted, after.copy.counted⟩
  | some k =>
    cases value with
    | none => exact ⟨st', Returns.bind flushed (Returns.pure _), by simpa using emitted, after.copy.counted⟩
    | some v =>
      have ends := after.flag
      refine ⟨_, Returns.bind flushed (Returns.pure _), ?_, after.copy.counted⟩
      dsimp only
      rw [(writekey_quoted _ (putting.writable k v rfl rfl)).1, List.flatten_append,
        writesection_text putting.named,
        List.flatten_singleton, separator, ← ends]
      cases flag with
      | false => simp [Writer.write, emitted, INI_LINETERM, bytes, newline]
      | true => simp [emitted]

/-- The line at which the search ended is copied when it starts a section, and left out otherwise. -/
theorem resume_line {flag : Bool} {line : List UInt8} (copy : Copying pieces st front [] (line :: rest) out)
    (behind : Behind st front) (readable : Readable (line :: rest)) :
    Advancing pieces (resume flag st.read) rest (out ++ if flag then line else []) := by
  cases flag with
  | true => simpa using resume_spec copy behind readable (fun _ => rfl) (by simp)
  | false =>
    obtain ⟨fits, free⟩ := readable line (by simp)
    have moved := copy.move (store st.buf 0 (line ++ [0])) (front ++ ([] ++ [line])).flatten.length
    have resumed : resume false st.read = Rewrite.tell { { st with buf := store st.buf 0 (line ++ [0]) } with
        rfp := ⟨pieces.flatten, (front ++ ([] ++ [line])).flatten.length⟩ } := by
      simp only [resume, Rewrite.read, copy.read (by simpa using behind) fits, Bool.false_eq_true, if_false]
    have skipped := moved.skip rfl
    rw [resumed]
    exact ⟨[], front ++ [line], by simpa using skipped, fun _ member => by simp at member, by
      rw [List.append_nil]; rfl⟩

theorem putFound_spec {line : List UInt8} (copy : Copying pieces st front cached (line :: rest) out)
    (cachedReadable : Readable cached) (readable : Readable (line :: rest))
      (putting : Putting sectionName key value)
    (flag : Bool) :
    ∃ st', Returns (do
        let (st, _) ← cacheFlush st
        copyRest (resume flag { st with toWriter := putSetting st.toWriter key value }.read)) st' ∧
      Rewritten pieces st'
        (out ++ settingText key value ++ (if flag then line :: rest else rest).flatten) := by
  obtain ⟨st₁, _, flushed, after⟩ := cacheFlush_spec copy cachedReadable
  have advancing := @resume_line _ _ _ _ _ flag _ (after.copy.put putting) after.behind readable
  obtain ⟨st₂, copied, rewritten⟩ := copyRest_spec advancing (fun l member => readable l (by simp [member]))
  refine ⟨st₂, Returns.bind flushed copied, ?_⟩
  cases flag <;> simpa using rewritten

theorem putEntry_some {k : List UInt8} (copy : Copying pieces st front cached rest out)
    (cachedReadable : Readable cached) (readable : Readable rest)
      (putting : Putting sectionName (some k) value) :
    ∃ st', Returns (putEntry (some k) value st) st' ∧ Rewritten pieces st'
      (out ++ entryText k value rest) := by
  obtain ⟨st₁, _, flushed, after⟩ := cacheFlush_spec copy cachedReadable
  have split := List.takeWhile_append_dropWhile (p := fun line => !endsSearch (some k) line) (l := rest)
  have passed : ∀ l ∈ rest.takeWhile fun line => !endsSearch (some k) line, ¬ endsSearch (some k) l := by
    intro l member
    have := List.mem_takeWhile_imp member
    simpa using this
  have advanced : Advanced pieces st₁ [] rest out :=
    ⟨front ++ cached, after.copy, fun _ member => by simp at member, by simpa using after.behind⟩
  unfold entryText
  generalize rest.takeWhile (fun line => !endsSearch (some k) line) = pre at split passed
  cases below : rest.dropWhile fun line => !endsSearch (some k) line with
  | nil =>
    rw [below] at split
    rw [← split] at advanced readable
    obtain ⟨st₂, passing, later⟩ := keyLoop_over advanced
      (fun l member => readable l (by simp [member])) passed
    obtain ⟨st₃, last, rewritten⟩ := putLast_spec passing
      (⟨putting.writable, fun bad => absurd rfl bad⟩ : Putting [] (some k) value)
    have ended : Returns (loop (keyPass (some k)) st₁) (.ended st₂) := by
      refine later _ (Returns.loop_done ?_)
      obtain ⟨front', copy', -, behind'⟩ := passing
      simp only [keyPass, copy'.ended behind']
      exact Returns.pure _
    exact ⟨st₃, Returns.bind flushed (Returns.bind ended last), by
      rw [← List.append_assoc]; exact rewritten⟩
  | cons line more =>
    have stops : endsSearch (some k) line := by
      have first := List.head?_dropWhile_not (fun line => !endsSearch (some k) line) rest
      rw [below] at first
      simpa using first
    rw [below] at split
    rw [← split] at advanced readable
    obtain ⟨st₂, ⟨front', copy', cachedReadable', behind'⟩, later⟩ :=
      keyLoop_over advanced (fun l member => readable l (by simp [member])) passed
    obtain ⟨fits, free⟩ := readable line (by simp)
    have content := str_line st₂.buf free fits
    have moved := copy'.move (store st₂.buf 0 (line ++ [0]))
      (front' ++ (pre.foldl cacheLine [] ++ [line])).flatten.length
    obtain ⟨st₃, last, rewritten⟩ := putFound_spec moved cachedReadable'
      (fun l member => readable l (by rw [List.mem_append]; exact .inr member)) putting (opensSection line)
    have ended : Returns (loop (keyPass (some k)) st₁)
        (.found { { st₂ with buf := store st₂.buf 0 (line ++ [0]) } with
          rfp := ⟨pieces.flatten, (front' ++ (pre.foldl cacheLine [] ++ [line])).flatten.length⟩ }
          (opensSection line)) := by
      refine later _ (Returns.loop_done ?_)
      have flag : decide (peek (store st₂.buf 0 (line ++ [0])) (margin line) = '['.toUInt8) =
          opensSection line := by
        rw [Bool.eq_iff_iff, decide_eq_true_eq]
        exact atSection_eq content
      simp only [keyPass, copy'.read behind' fits, skipleading_eq content,
        if_pos ((endsSearch_iff content _).mpr stops), flag]
      exact Returns.pure _
    refine ⟨st₃, Returns.bind flushed (Returns.bind ended last), ?_⟩
    simpa only [List.append_assoc] using rewritten

theorem settingText_none (value : Option (List UInt8)) : settingText none value = [] := by
  cases value <;> rfl

/-- The lines of an erased section are left out, from the one behind the mark on. -/
theorem putEntry_none (copy : Copying pieces st front cached rest out) (cachedReadable : Readable cached)
    (readable : Readable rest) (putting : Putting sectionName none value) :
    ∃ st', Returns (putEntry none value st) st' ∧ Rewritten pieces st'
      (out ++ (dropBody rest.tail).flatten) := by
  obtain ⟨st₁, _, flushed, after⟩ := cacheFlush_spec copy cachedReadable
  -- the first line is skipped, if there is one
  have first : ∃ front', Copying pieces st₁.read.tell front' [] rest.tail out ∧
      Behind st₁.read.tell front' := by
    cases rest with
    | nil =>
      have read : st₁.read = st₁ := by
        simp only [Rewrite.read, after.copy.ended (by simpa using after.behind)]
      rw [read]
      exact ⟨front ++ cached, after.copy.tell after.behind, after.behind⟩
    | cons line more =>
      obtain ⟨fits, free⟩ := readable line (by simp)
      have moved := after.copy.move (store st₁.buf 0 (line ++ [0]))
        (front ++ cached ++ ([] ++ [line])).flatten.length
      have read : st₁.read = { { st₁ with buf := store st₁.buf 0 (line ++ [0]) } with
          rfp := ⟨pieces.flatten, (front ++ cached ++ ([] ++ [line])).flatten.length⟩ } := by
        simp only [Rewrite.read, after.copy.read (by simpa using after.behind) fits]
      rw [read]
      exact ⟨front ++ cached ++ [line], moved.skip rfl, rfl⟩
  obtain ⟨front', copy', behind'⟩ := first
  have later : Readable rest.tail := fun l member => readable l (List.mem_of_mem_tail member)
  generalize rest.tail = body at copy' later
  have split := List.takeWhile_append_dropWhile (p := fun line => !opensSection line) (l := body)
  have passed : ∀ l ∈ body.takeWhile fun line => !opensSection line, ¬ opensSection l := by
    intro l member
    have := List.mem_takeWhile_imp member
    simpa using this
  generalize body.takeWhile (fun line => !opensSection line) = pre at split passed
  cases below : dropBody body with
  | nil =>
    rw [show body.dropWhile (fun line => !opensSection line) = dropBody body from rfl, below] at split
    rw [← split] at copy' later
    obtain ⟨st₂, passing, behind₂, onward⟩ :=
      keyLoop_skip copy' behind' (fun l member => later l (by simp [member])) passed
    have ended : Returns (loop (keyPass none) st₁.read.tell) (.ended st₂) := by
      refine onward _ (Returns.loop_done ?_)
      simp only [keyPass, passing.ended (by simpa using behind₂)]
      exact Returns.pure _
    obtain ⟨st₃, last, rewritten⟩ := putLast_spec
      (⟨_, passing, fun _ member => by simp at member, by simpa using behind₂⟩ : Advanced pieces
        st₂ [] [] out)
      (⟨putting.writable, fun bad => absurd rfl bad⟩ : Putting [] none value)
    refine ⟨st₃, Returns.bind flushed (Returns.bind ended last), ?_⟩
    simpa [lastText] using rewritten
  | cons line more =>
    have opens := dropBody_opens below
    rw [show body.dropWhile (fun line => !opensSection line) = dropBody body from rfl, below] at split
    rw [← split] at copy' later
    obtain ⟨st₂, passing, behind₂, onward⟩ :=
      keyLoop_skip copy' behind' (fun l member => later l (by simp [member])) passed
    obtain ⟨fits, free⟩ := later line (by simp)
    have content := str_line st₂.buf free fits
    have moved := passing.move (store st₂.buf 0 (line ++ [0]))
      (front' ++ pre ++ ([] ++ [line])).flatten.length
    obtain ⟨st₃, last, rewritten⟩ := putFound_spec moved (fun _ member => by simp at member)
      (fun l member => later l (by rw [List.mem_append]; exact .inr member)) putting true
    have ended : Returns (loop (keyPass none) st₁.read.tell)
        (.found { { st₂ with buf := store st₂.buf 0 (line ++ [0]) } with
          rfp := ⟨pieces.flatten, (front' ++ pre ++ ([] ++ [line])).flatten.length⟩ } true) := by
      refine onward _ (Returns.loop_done ?_)
      have bracket := (atSection_eq content).mpr opens
      simp only [keyPass, passing.read (by simpa using behind₂) fits, skipleading_eq content,
        bracket, or_true,
        if_true, decide_true]
      exact Returns.pure _
    refine ⟨st₃, Returns.bind flushed (Returns.bind ended last), ?_⟩
    simpa [settingText_none] using rewritten

theorem putEntry_spec (copy : Copying pieces st front cached rest out) (cachedReadable : Readable cached)
    (readable : Readable rest) (putting : Putting sectionName key value) :
    ∃ st', Returns (putEntry key value st) st' ∧ Rewritten pieces st' (out ++ match key with
      | some k => entryText k value rest
      | none => (dropBody rest.tail).flatten) := by
  cases key with
  | none => exact putEntry_none copy cachedReadable readable putting
  | some k => exact putEntry_some copy cachedReadable readable putting

end Entry

/-- The rewriting ends, whatever the text, with the file as it should be. -/
theorem rewriteSetting_spec {sectionName : List UInt8} {key value : Option (List UInt8)}
    {pieces : List (List UInt8)} (cut : Cut newline (INI_BUFFERSIZE - 1) pieces) (readable : Readable pieces)
    (putting : Putting sectionName key value) (buf : Chars INI_BUFFERSIZE) :
    ∃ st, Returns (rewriteSetting sectionName key value (.start buf pieces.flatten)) st ∧
      Rewritten pieces st (settingRewritten sectionName key value pieces) := by
  have start := start_advanced buf cut
  unfold rewriteSetting settingRewritten
  by_cases top : sectionName = []
  · rw [if_neg (not_not.mpr top), if_pos top]
    obtain ⟨front, copy, -, behind⟩ := start
    obtain ⟨st, returns, rewritten⟩ := putEntry_spec copy (fun _ member => by simp at member) readable putting
    refine ⟨st, returns, ?_⟩
    cases key <;> simpa [sectionRewritten] using rewritten
  rw [if_pos top, if_neg top]
  by_cases found : ∃ line ∈ pieces, isHead sectionName line
  · rw [if_pos found]
    obtain ⟨head, post, from_head, matched, split⟩ := linesFrom_split found
    rw [from_head]
    have absent : ∀ line ∈ linesBefore sectionName pieces, ¬ isHead sectionName line :=
      fun line member => not_isHead_before member
    generalize linesBefore sectionName pieces = pre at split absent
    nth_rewrite 3 [split] at start
    have all : Readable (pre ++ head :: post) := split ▸ readable
    obtain ⟨st₁, front, cached, returns, cachedReadable, copy⟩ := headerLoop_found start
      (fun l member => all l (by
        rw [List.mem_append, List.mem_singleton] at member
        rw [List.mem_append, List.mem_cons]
        tauto)) absent matched key.isNone
    have below : Readable (head :: post) := fun l member => all l (by rw [List.mem_append]; exact .inr member)
    cases key with
    | none =>
      obtain ⟨st₂, last, rewritten⟩ := putEntry_spec copy cachedReadable below putting
      exact ⟨st₂, Returns.bind returns last, by simpa [sectionRewritten] using rewritten⟩
    | some k =>
      obtain ⟨st₂, last, rewritten⟩ := putEntry_spec copy cachedReadable
        (fun l member => below l (List.mem_cons_of_mem _ member)) putting
      exact ⟨st₂, Returns.bind returns last, by simpa [sectionRewritten] using rewritten⟩
  · rw [if_neg found]
    have absent : ∀ line ∈ pieces, ¬ isHead sectionName line := fun line member matched =>
      found ⟨line, member, matched⟩
    obtain ⟨st₁, returns, advanced⟩ := headerLoop_missing start readable absent key.isNone
    obtain ⟨st₂, last, rewritten⟩ := putLast_spec advanced putting
    exact ⟨st₂, Returns.bind returns last, rewritten⟩

/-- A key that does not look like a comment. -/
structure Keylike (key : List UInt8) : Prop where
  semicolon : key.head? ≠ some ';'.toUInt8
  hash : key.head? ≠ some '#'.toUInt8

theorem upcase_eq {c d : UInt8} (same : upcase c = d) (small : d < 'A'.toUInt8) : c = d := by
  unfold upcase at same
  split at same
  · rename_i lower
    exfalso
    have low : 97 ≤ c.toNat := UInt8.le_iff_toNat_le.mp lower.1
    have high : c.toNat ≤ 122 := UInt8.le_iff_toNat_le.mp lower.2
    have less : d.toNat < 65 := UInt8.lt_iff_toNat_lt.mp small
    have shift : ('a'.toUInt8 - 'A'.toUInt8).toNat = 32 := rfl
    have value := congrArg UInt8.toNat same
    rw [UInt8.toNat_sub, shift] at value
    omega
  · exact same

theorem head_folded {left right : List UInt8} {c : UInt8} (same : folded left = folded right)
    (small : c < 'A'.toUInt8)
    (starts : left.head? = some c) : right.head? = some c := by
  have heads := congrArg List.head? same
  rw [folded, folded, List.head?_map, List.head?_map, starts, Option.map_some] at heads
  obtain ⟨d, shape, up⟩ := Option.map_eq_some_iff.mp heads.symm
  have lower : upcase c = c := by
    unfold upcase
    rw [if_neg]
    rintro ⟨low, -⟩
    exact absurd (UInt8.lt_of_lt_of_le small (by decide)) (UInt8.not_lt.mpr low)
  rw [shape, upcase_eq (up.trans lower) small]

theorem keyText_cuts {line raw back : List UInt8} {delimiter : UInt8} (cuts : Cuts line raw delimiter back) :
    keyText line = some (rtrim raw) := by
  unfold keyText
  have found := splitFirst_append cuts.free back
  rw [← cuts.text] at found
  rcases cuts.first with rfl | ⟨rfl, absent⟩
  · rw [found]
    rfl
  · rw [splitFirst_none.mpr absent, found]
    rfl

theorem keyText_comment {line key : List UInt8} {c : UInt8} (starts : (ltrim line).head? = some c)
    (comment : c = ';'.toUInt8 ∨ c = '#'.toUInt8) (text : keyText line = some key) : key.head? = some c := by
  rcases keyText_cases line with ⟨raw, delimiter, back, cuts, same⟩ | ⟨none, -, -⟩
  · obtain rfl := Option.some.inj (same.symm.trans text)
    obtain ⟨blanks, whole⟩ := rtrim_isPrefix raw
    have solid : ¬ blank c := by rcases comment with rfl | rfl <;> decide
    rw [cuts.text] at starts
    cases raw with
    | nil =>
      rw [List.nil_append, List.head?_cons, Option.some.injEq] at starts
      rcases cuts.first with rfl | ⟨rfl, -⟩ <;> rcases comment with rfl | rfl <;>
        exact absurd starts (by decide)
    | cons d rest =>
      rw [List.cons_append, List.head?_cons, Option.some.injEq] at starts
      subst starts
      cases stripped : rtrim (d :: rest) with
      | nil => exact absurd (List.rdropWhile_eq_nil_iff.mp stripped d (by simp)) solid
      | cons e t =>
        rw [stripped, List.cons_append, List.cons.injEq] at whole
        rw [List.head?_cons, whole.1]
  · rw [none] at text
    contradiction

/-- Outside comments the search of `ini_puts` for a key and that of `getkeystring` agree. -/
theorem namesKey_iff {key line : List UInt8} (keylike : Keylike key) (inner : ¬ opensSection line) :
    namesKey key line ↔ key ≠ [] ∧ isKey key line := by
  have names : namesKey key line ↔ key ≠ [] ∧ (keyText line).map folded = some (folded key) := by
    simp [namesKey]
  rw [names, isKey_iff]
  apply and_congr_right
  intro nonempty
  by_cases sets : ∃ k value, parseLine line = .entry k value
  · obtain ⟨k, value, parsed⟩ := sets
    obtain ⟨raw, delimiter, back, cuts, rfl, rfl, -, -⟩ := parseLine_entry parsed
    simp [keyText_cuts cuts, parsed]
  · have parsed : ∀ k value, parseLine line ≠ .entry k value := fun k v same => sets ⟨k, v, same⟩
    refine iff_of_false (fun same => ?_) (by simp [parsed])
    obtain ⟨k, text, equal⟩ := Option.map_eq_some_iff.mp same
    rcases parseLine_skip inner parsed with semicolon | hash | ⟨none, colon⟩
    · exact keylike.semicolon (head_folded equal (by decide) (keyText_comment semicolon (.inl rfl) text))
    · exact keylike.hash (head_folded equal (by decide) (keyText_comment hash (.inr rfl) text))
    · rw [keyText, splitFirst_none.mpr none, splitFirst_none.mpr colon] at text
      contradiction

theorem endsSearch_iff_isKey {key line : List UInt8} (keylike : Keylike key) (named : key ≠ []) :
    endsSearch (some key) line ↔ opensSection line ∨ isKey key line := by
  by_cases opens : opensSection line
  · simp [endsSearch, opens]
  · have same := namesKey_iff keylike opens
    simp only [named, ne_eq, not_false_eq_true, true_and] at same
    simp [endsSearch, opens, ← same]

end SysHelo.MinIni
