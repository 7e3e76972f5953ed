import SysHelo.MinIni.Format

/-! `ini_browse` hands every entry of a text to a callback. Section, key, value and the raw
line share one buffer: the section name stays at its start, and the rest of the line is
worked on behind it. -/
namespace SysHelo.MinIni
open CString Stdio Lines

variable {σ : Type}

/-- `Callback(Section, Key, Value, UserData)`, which returns false to stop browsing. -/
abbrev Callback (σ : Type) := (sectionName key value : List UInt8) → σ → σ × Bool

structure Browsing (σ : Type) where
  buf : Chars INI_BUFFERSIZE
  lenSec : Nat
  user : σ
  /-- Whether the loop goes on. -/
  more : Bool

/-- Strip the key at `sp` and move it to `lenSec`. -/
def browseKey (buf : Chars INI_BUFFERSIZE) (lenSec sp : Nat) : Chars INI_BUFFERSIZE :=
  iniStrncpy (striptrailing buf sp) lenSec (.here sp) (INI_BUFFERSIZE - lenSec) .none

/-- Clean up the value at `ep` and move it behind the key. -/
def browseValue (buf : Chars INI_BUFFERSIZE) (lenSec lenKey ep : Nat) : Chars INI_BUFFERSIZE :=
  let (buf, sp, quotes) := cleanstring buf (skipleading buf ep)
  iniStrncpy buf (lenSec + lenKey) (.here sp) (INI_BUFFERSIZE - lenSec - lenKey) quotes

/-- From splitting a line at `ep` to the end of the loop's body. -/
def browseEntry (callback : Callback σ) (buf : Chars INI_BUFFERSIZE) (lenSec sp ep : Nat) (user : σ) :
    Browsing σ :=
  let buf := browseKey (poke buf ep 0) lenSec sp
  let lenKey := strlen buf lenSec + 1
  let buf := browseValue buf lenSec lenKey (ep + 1)
  let (user, more) := callback (str buf 0) (str buf lenSec) (str buf (lenSec + lenKey)) user
  ⟨buf, lenSec, user, more⟩

/-- From the test for a key and a value on. -/
def browseSetting (callback : Callback σ) (buf : Chars INI_BUFFERSIZE) (lenSec sp : Nat) (user : σ) :
    Browsing σ :=
  match (strchr buf sp '='.toUInt8).or (strchr buf sp ':'.toUInt8) with
  | none => ⟨buf, lenSec, user, true⟩
  | some ep => browseEntry callback buf lenSec sp ep user

/-- The name of the section whose header at `sp` is closed at `ep` moves to the buffer's start. -/
def browseHeader (buf : Chars INI_BUFFERSIZE) (sp ep : Nat) : Chars INI_BUFFERSIZE :=
  iniStrncpy (poke buf ep 0) 0 (.here (sp + 1)) INI_BUFFERSIZE .none

/-- The loop's body once a line has been read to `lenSec`. -/
def browseLine (callback : Callback σ) (buf : Chars INI_BUFFERSIZE) (lenSec : Nat) (user : σ) :
    Browsing σ :=
  let sp := skipleading buf lenSec
  -- ignore empty strings and comments
  if peek buf sp = 0 ∨ peek buf sp = ';'.toUInt8 ∨ peek buf sp = '#'.toUInt8 then
    ⟨buf, lenSec, user, true⟩
  else match strrchr buf sp ']'.toUInt8, decide (peek buf sp = '['.toUInt8) with
    | some ep, true =>
      let buf := browseHeader buf sp ep
      ⟨buf, strlen buf 0 + 1, user, true⟩
    | _, _ => browseSetting callback buf lenSec sp user

/-- `for ( ;; )`: every pass reads on in the file, so the loop ends. -/
def browseLoop (callback : Callback σ) (buf : Chars INI_BUFFERSIZE) (lenSec : Nat) (user : σ)
    (fp : ReadFile) : σ :=
  match _read : fgets buf lenSec (INI_BUFFERSIZE - lenSec) fp with
  | none => user
  | some (buf, next) =>
    let after := browseLine callback buf lenSec user
    if after.more then browseLoop callback after.buf after.lenSec after.user next else after.user
  termination_by fp.remaining.length
  decreasing_by exact fgets_remaining _read

/-- `ini_browse`: the user data after the callbacks, and whether the file could be opened.
`stack` is what the uninitialised line buffer holds. -/
def iniBrowse (stack : Chars INI_BUFFERSIZE) (callback : Callback σ) (user : σ)
    (file : Option ReadFile) : σ × Bool :=
  match file with
  | none => (user, false)
  | some fp =>
    let buf := poke stack 0 0
    (browseLoop callback buf (strlen buf 0 + 1) user fp, true)

/-! The reference: the callback run over the entries of the text. -/

def runCallback (callback : Callback σ) : List Entry → σ → σ
  | [], user => user
  | e :: rest, user =>
    match callback e.sectionName e.key e.value user with
    | (user, true) => runCallback callback rest user
    | (user, false) => user

/-- What a line does to the section in force, the user data and the loop. -/
def Line.run (callback : Callback σ) (sectionName : List UInt8) (user : σ) : Line → List UInt8 × σ × Bool
  | .skip => (sectionName, user, true)
  | .header name => (name, user, true)
  | .entry key value => (sectionName, callback sectionName key value user)

/-- The buffer holds a section name, and `lenSec` is the room it takes. -/
structure InSection (after : Browsing σ) (expected : List UInt8 × σ × Bool) : Prop where
  sectionName : str after.buf 0 = expected.1
  lenSec : after.lenSec = expected.1.length + 1
  user : after.user = expected.2.1
  more : after.more = expected.2.2

section Body
variable {b : Chars INI_BUFFERSIZE} {lenSec sp : Nat} {key value : List UInt8}

/-- The key is stripped and moved down to `lenSec`, below the value. -/
theorem browseKey_spec (above : lenSec ≤ sp) (named : (str b 0).length < lenSec)
    (keyAt : str b sp = key) (valueAt : str b (sp + key.length + 1) = value)
    (fits : sp + key.length + 1 + value.length < INI_BUFFERSIZE) :
    str (browseKey b lenSec sp) 0 = str b 0 ∧ str (browseKey b lenSec sp) lenSec = rtrim key ∧
      str (browseKey b lenSec sp) (sp + key.length + 1) = value := by
  have trimmed := (rtrim_isPrefix key).length_le
  have stripped : str (striptrailing b sp) sp = rtrim key := by
    rw [str_striptrailing b (by rw [keyAt]; omega), keyAt]
  have nameLeft : str (striptrailing b sp) 0 = str b 0 := by
    rw [striptrailing_eq]
    exact str_poke_outside _ _ (by omega)
  have valueLeft : str (striptrailing b sp) (sp + key.length + 1) = value := by
    rw [striptrailing_eq, keyAt, str_poke_outside _ _ (by omega), valueAt]
  have moved : browseKey b lenSec sp = store (striptrailing b sp) lenSec (rtrim key ++ [0]) := by
    rw [browseKey, iniStrncpy_none_here _ above (by rw [stripped]; omega), stripped]
  rw [moved]
  refine ⟨?_, ?_, ?_⟩
  · rw [str_store_outside _ _ (by rw [nameLeft]; omega), nameLeft]
  · exact str_store _ (stripped ▸ zero_not_mem_str _ _) (by omega)
  · rw [str_store_outside _ _ (by
      rw [List.length_append, List.length_singleton]; omega), valueLeft]

theorem zero_not_mem_copied {option : QuoteOption} {s : List UInt8} (free : 0 ∉ s) :
    0 ∉ option.copied s := by
  cases option with
  | dequote => exact zero_not_mem_dequote free
  | none | enquote => exact free

theorem copied_length_le (option : QuoteOption) (s : List UInt8) :
    (option.copied s).length ≤ s.length := by
  cases option with
  | dequote => exact dequote_length_le s
  | none | enquote => exact Nat.le_refl _

theorem iniStrncpy_here (b : Chars n) {option : QuoteOption} (down : dest ≤ q)
    (fits : (str b q).length < maxlen) (copies : option ≠ .enquote) :
    iniStrncpy b dest (.here q) maxlen option = store b dest (option.copied (str b q) ++ [0]) := by
  cases option with
  | none => exact iniStrncpy_none_here b down fits
  | dequote => exact iniStrncpy_dequote_here b down fits
  | enquote => contradiction

theorem browseValue_spec {lenKey ep : Nat} (down : lenSec + lenKey ≤ ep) (valueAt : str b ep = value)
    (fits : ep + value.length < INI_BUFFERSIZE) :
    str (browseValue b lenSec lenKey ep) (lenSec + lenKey) = clean (ltrim value) ∧
      ∀ i, i < lenSec + lenKey → peek (browseValue b lenSec lenKey ep) i = peek b i := by
  have start := skipleading_le b ep
  have extent := skipleading_add b ep
  have trimmed := str_skipleading b ep
  rw [valueAt] at start extent trimmed
  have cleaned := cleanstring_spec b (skipleading b ep) (by omega)
  rw [browseValue]
  generalize cleanstring b (skipleading b ep) = result at cleaned
  obtain ⟨c, p, quotes⟩ := result
  obtain ⟨copied, copies, higher, within, frame⟩ := cleaned
  rw [trimmed] at copied
  simp only at copied copies higher within frame ⊢
  have short := copied_length_le quotes (str c p)
  have free : 0 ∉ quotes.copied (str c p) := zero_not_mem_copied (zero_not_mem_str c p)
  rw [iniStrncpy_here c (by omega) (by omega) copies, copied]
  rw [copied] at free short
  refine ⟨str_store _ free (by omega), fun i below => ?_⟩
  rw [peek_store_outside _ _ (.inl below)]
  exact frame i (by omega)

/-- Splitting, stripping and cleaning inside the buffer give the callback the key and the
value of the reference, and leave the section name alone. -/
theorem browseEntry_spec (callback : Callback σ) (user : σ) {c : UInt8}
    (named : (str b 0).length < lenSec) (above : lenSec ≤ sp)
    (content : str b sp = key ++ c :: value) (fits : sp + (str b sp).length < INI_BUFFERSIZE) :
    let after := browseEntry callback b lenSec sp (sp + key.length) user
    str after.buf 0 = str b 0 ∧ after.lenSec = lenSec ∧
      (after.user, after.more) = callback (str b 0) (rtrim key) (clean (ltrim value)) user := by
  rw [content, List.length_append, List.length_cons] at fits
  have trimmed := (rtrim_isPrefix key).length_le
  have keyAt := str_poke_nul b sp key.length (by simp [content]) (by omega)
  rw [content, List.take_left] at keyAt
  have valueAt : str (poke b (sp + key.length) 0) (sp + key.length + 1) = value := by
    rw [str_poke_outside _ _ (by omega), Nat.add_assoc,
      str_drop b sp (key.length + 1) (by rw [content]; simp), content, List.drop_append]
    simp
  have nameAt : str (poke b (sp + key.length) 0) 0 = str b 0 := str_poke_outside _ _ (by omega)
  obtain ⟨nameLeft, keyLeft, valueLeft⟩ := browseKey_spec above (by rw [nameAt]; exact named)
    keyAt valueAt (by omega)
  simp only [browseEntry, strlen, keyLeft]
  generalize browseKey (poke b (sp + key.length) 0) lenSec sp = d at *
  have below : lenSec + ((rtrim key).length + 1) ≤ sp + key.length + 1 := by omega
  obtain ⟨cleaned, frame⟩ := browseValue_spec below valueLeft (by omega)
  rw [nameAt] at nameLeft
  have nameStays := str_congr (b := d) (p := 0) (fun i h => frame (0 + i) (by
    rw [nameLeft] at h; omega))
  have keyStays := str_congr (b := d) (p := lenSec) (fun i h => frame (lenSec + i) (by
    rw [keyLeft] at h; omega))
  rw [nameStays, keyStays, cleaned, nameLeft, keyLeft]
  exact ⟨rfl, trivial, rfl⟩

theorem browseSetting_spec (callback : Callback σ) (user : σ)
    (named : (str b 0).length + 1 = lenSec) (above : lenSec ≤ sp)
    (fits : sp + (str b sp).length < INI_BUFFERSIZE) :
    InSection (browseSetting callback b lenSec sp user)
      ((parseEntry (str b sp)).run callback (str b 0) user) := by
  have entry {key value : List UInt8} {c : UInt8} (content : str b sp = key ++ c :: value) :
      InSection (browseEntry callback b lenSec sp (sp + key.length) user)
        ((Line.entry (rtrim key) (clean (ltrim value))).run callback (str b 0) user) := by
    obtain ⟨name, size, result⟩ := browseEntry_spec callback user (by omega) above content fits
    obtain ⟨user, more⟩ := Prod.mk.inj result
    exact ⟨name, by rw [size]; exact named.symm, user, more⟩
  unfold browseSetting parseEntry
  cases equal : splitFirst '='.toUInt8 (str b sp) with
  | some pair =>
    obtain ⟨content, free⟩ := splitFirst_some equal
    rw [strchr_some content free]
    exact entry content
  | none =>
    rw [strchr_none (by decide) (splitFirst_none.mp equal), Option.none_or, Option.none_or]
    cases colon : splitFirst ':'.toUInt8 (str b sp) with
    | some pair =>
      obtain ⟨content, free⟩ := splitFirst_some colon
      rw [strchr_some content free]
      exact entry content
    | none =>
      rw [strchr_none (by decide) (splitFirst_none.mp colon)]
      exact ⟨rfl, named.symm, rfl, rfl⟩

theorem browseHeader_spec {name back : List UInt8}
    (content : str b sp = '['.toUInt8 :: name ++ ']'.toUInt8 :: back)
    (fits : sp + (str b sp).length < INI_BUFFERSIZE) :
    str (browseHeader b sp (sp + ('['.toUInt8 :: name).length)) 0 = name := by
  have closed := str_poke_nul b sp ('['.toUInt8 :: name).length (by rw [content]; simp) (by
    rw [content, List.length_append] at fits; omega)
  rw [content, List.take_left] at closed
  have nameAt : str (poke b (sp + ('['.toUInt8 :: name).length) 0) (sp + 1) = name := by
    rw [str_drop _ _ _ (by rw [closed]; simp), closed]
    rfl
  rw [content, List.length_append, List.length_cons] at fits
  rw [browseHeader, iniStrncpy_none_here _ (Nat.zero_le _) (by rw [nameAt]; omega), nameAt]
  exact str_store _ (nameAt ▸ zero_not_mem_str _ _) (by omega)

/-- One pass of the loop does what the reference says of the line that was read. -/
theorem browseLine_spec (callback : Callback σ) (user : σ) {line : List UInt8}
    (named : (str b 0).length + 1 = lenSec) (lineAt : str b lenSec = line)
    (fits : lenSec + line.length < INI_BUFFERSIZE) :
    InSection (browseLine callback b lenSec user)
      ((parseLine line).run callback (str b 0) user) := by
  have above := (skipleading_le b lenSec).1
  have extent := skipleading_add b lenSec
  have content := str_skipleading b lenSec
  rw [lineAt] at extent content
  have setting := browseSetting_spec callback user named above (by omega)
  have first := head_str b (skipleading b lenSec)
  unfold browseLine parseLine
  dsimp only
  generalize skipleading b lenSec = sp at *
  rw [← content]
  cases text : str b sp with
  | nil =>
    rw [if_pos (.inl (str_eq_nil.mp text))]
    exact ⟨rfl, named.symm, rfl, rfl⟩
  | cons c s =>
    rw [text] at setting
    rw [text, List.headD_cons] at first
    have nonzero : c ≠ 0 := by
      intro zero
      exact zero_not_mem_str b sp (by rw [text, zero]; simp)
    rw [← first]
    dsimp only
    by_cases comment : c = ';'.toUInt8 ∨ c = '#'.toUInt8
    · rw [if_pos (.inr comment), if_pos comment]
      exact ⟨rfl, named.symm, rfl, rfl⟩
    rw [if_neg (by tauto), if_neg comment]
    by_cases bracket : c = '['.toUInt8
    · rw [if_pos bracket, decide_eq_true bracket]
      subst bracket
      cases close : splitLast ']'.toUInt8 s with
      | none =>
        have absent : ']'.toUInt8 ∉ str b sp := by
          rw [text, List.mem_cons, not_or]
          exact ⟨by decide, splitLast_none.mp close⟩
        rw [strrchr_none (by decide) absent]
        exact setting
      | some pair =>
        obtain ⟨rfl, free⟩ := splitLast_some close
        rw [← List.cons_append] at text
        have stored := browseHeader_spec text (by omega)
        rw [strrchr_some text (by decide) free]
        refine ⟨stored, ?_, rfl, rfl⟩
        dsimp only [strlen]
        rw [stored]
        rfl
    · rw [if_neg bracket, decide_eq_false bracket]
      cases strrchr b sp ']'.toUInt8 <;> exact setting

end Body

/-- The longest line, newline included, that always fits behind a section name. -/
def LINE_ROOM : Nat := INI_BUFFERSIZE / 2

/-- Every line of a text has at most so many bytes, newline included. -/
def Fits (limit : Nat) (text : List UInt8) : Prop :=
  ∀ line ∈ lines newline text, line.length ≤ limit

instance (limit : Nat) (text : List UInt8) : Decidable (Fits limit text) :=
  inferInstanceAs (Decidable (∀ line ∈ lines newline text, _))

theorem browseLoop_spec (callback : Callback σ) (rest : List (List UInt8))
    (short : ∀ line ∈ rest, line.length ≤ LINE_ROOM ∧ 0 ∉ line)
    {b : Chars INI_BUFFERSIZE} {lenSec : Nat} (user : σ) {fp : ReadFile}
    (named : (str b 0).length + 1 = lenSec) (room : lenSec < LINE_ROOM)
    (text : lines newline fp.remaining = rest) :
    browseLoop callback b lenSec user fp = runCallback callback (entries (str b 0) rest) user := by
  induction rest generalizing b lenSec user fp with
  | nil =>
    have ended := fgets_none ((lines_eq_nil newline).mp text) b lenSec (INI_BUFFERSIZE - lenSec)
    rw [browseLoop]
    split
    · rfl
    · rename_i read; rw [ended] at read; contradiction
  | cons line rest ih =>
    obtain ⟨fits, free⟩ := short line (by simp)
    have size : LINE_ROOM + LINE_ROOM = INI_BUFFERSIZE := rfl
    have short' : line.length < INI_BUFFERSIZE - lenSec := by omega
    have read := fgets_line text short' b lenSec
    have following : lines newline
        ({ fp with pos := fp.pos + line.length } : ReadFile).remaining = rest := by
      rw [remaining_next text]
      exact (lines_cons newline text).2.1
    have nameAt : str (store b lenSec (line ++ [0])) 0 = str b 0 :=
      str_store_outside _ _ (by omega)
    have pass := browseLine_spec callback user (by rw [nameAt]; exact named)
      (str_store b free (p := lenSec) (by omega)) (by omega)
    rw [nameAt] at pass
    rw [browseLoop]
    split
    · rename_i none; rw [read] at none; contradiction
    rename_i buf next some
    rw [read, Option.some.injEq, Prod.mk.injEq] at some
    obtain ⟨rfl, rfl⟩ := some
    obtain ⟨nameAfter, lenAfter, userAfter, moreAfter⟩ := pass
    have step (enough : (browseLine callback (store b lenSec (line ++ [0])) lenSec user).lenSec
        < LINE_ROOM) := ih (fun l member => short l (List.mem_cons_of_mem _ member))
      (browseLine callback (store b lenSec (line ++ [0])) lenSec user).user
      (by rw [nameAfter, lenAfter]) enough following
    rw [nameAfter] at step
    dsimp only
    cases parsed : parseLine line with
    | skip =>
      rw [parsed] at nameAfter lenAfter userAfter moreAfter step
      dsimp only [Line.run] at nameAfter lenAfter userAfter moreAfter step
      rw [moreAfter, if_pos rfl, step (by omega), userAfter, entries, parsed]
    | header name =>
      have bound := header_length parsed
      rw [parsed] at nameAfter lenAfter userAfter moreAfter step
      dsimp only [Line.run] at nameAfter lenAfter userAfter moreAfter step
      rw [moreAfter, if_pos rfl, step (by omega), userAfter, entries, parsed]
    | entry key value =>
      rw [parsed] at nameAfter lenAfter userAfter moreAfter step
      dsimp only [Line.run] at nameAfter lenAfter userAfter moreAfter step
      rw [entries, parsed, moreAfter, step (by omega), userAfter]
      dsimp only [runCallback]
      obtain ⟨after, more⟩ := callback (str b 0) key value user
      cases more <;> rfl

/-- `ini_browse` runs the callback over the entries of the text, whatever the order and the
length of its sections, keys, values and comments. -/
theorem iniBrowse_spec (stack : Chars INI_BUFFERSIZE) (callback : Callback σ) (user : σ)
    {text : List UInt8} (fits : Fits LINE_ROOM text) (free : 0 ∉ text) :
    iniBrowse stack callback user (some ⟨text, 0⟩) =
      (runCallback callback (readEntries text) user, true) := by
  have empty : str (poke stack 0 0) 0 = [] := str_poke_first stack (by decide)
  have named : (str (poke stack 0 0) 0).length + 1 = strlen (poke stack 0 0) 0 + 1 := rfl
  have whole : lines newline (⟨text, 0⟩ : ReadFile).remaining = lines newline text := rfl
  have loop := browseLoop_spec callback (lines newline text)
    (fun line member => ⟨fits line member, fun zero =>
      free ((mem_iff_lines newline).mpr ⟨line, member, zero⟩)⟩)
    user named (by rw [strlen, empty]; decide) whole
  rw [iniBrowse, readEntries, ← empty, ← loop]

/-- What one pass hands over, whatever the callback, as long as that does not stop the browsing. -/
def PassEntry (pass : ∀ {σ : Type}, Callback σ → σ → Browsing σ) (found : Option Entry) : Prop :=
  ∃ buf lenSec, ∀ (σ : Type) (callback : Callback σ) (user : σ),
    (∀ sectionName key value user, (callback sectionName key value user).2 = true) →
    pass callback user = ⟨buf, lenSec,
      found.elim user fun e => (callback e.sectionName e.key e.value user).1, true⟩

theorem browseSetting_passEntry (buf : Chars INI_BUFFERSIZE) (lenSec sp : Nat) :
    ∃ found, PassEntry (fun callback user => browseSetting callback buf lenSec sp user) found := by
  unfold browseSetting
  split
  · exact ⟨none, buf, lenSec, fun _ _ _ _ => rfl⟩
  · dsimp only [browseEntry]
    generalize browseKey _ _ _ = buf
    generalize browseValue _ _ _ _ = buf'
    refine ⟨some ⟨str buf' 0, str buf' lenSec, str buf' (lenSec + (strlen buf lenSec + 1))⟩, buf', lenSec,
      fun σ callback user goesOn => ?_⟩
    dsimp only
    rw [goesOn]
    rfl

theorem browseLine_passEntry (buf : Chars INI_BUFFERSIZE) (lenSec : Nat) :
    ∃ found, PassEntry (fun callback user => browseLine callback buf lenSec user) found := by
  unfold browseLine
  dsimp only
  split
  · exact ⟨none, buf, lenSec, fun _ _ _ _ => rfl⟩
  · split
    · exact ⟨none, _, _, fun _ _ _ _ => rfl⟩
    · exact browseSetting_passEntry buf lenSec _

section GoesOn
variable {callback : Callback σ}
  (goesOn : ∀ sectionName key value user, (callback sectionName key value user).2 = true)
include goesOn

theorem runCallback_cons (e : Entry) (es : List Entry) (user : σ) :
    runCallback callback (e :: es) user =
      runCallback callback es (callback e.sectionName e.key e.value user).1 := by
  have called : callback e.sectionName e.key e.value user =
      ((callback e.sectionName e.key e.value user).1, true) := Prod.ext rfl (goesOn ..)
  rw [runCallback, called]

end GoesOn

theorem browseLoop_calls (buf : Chars INI_BUFFERSIZE) (lenSec : Nat) (fp : ReadFile) :
    ∃ es, ∀ (σ : Type) (callback : Callback σ) (user : σ),
      (∀ sectionName key value user, (callback sectionName key value user).2 = true) →
      browseLoop callback buf lenSec user fp = runCallback callback es user := by
  induction remaining : fp.remaining.length using Nat.strongRecOn generalizing buf lenSec fp with
  | ind size ih =>
    cases read : fgets buf lenSec (INI_BUFFERSIZE - lenSec) fp with
    | none =>
      refine ⟨[], fun σ callback user goesOn => ?_⟩
      rw [browseLoop]
      split
      · rfl
      · rename_i some
        rw [read] at some
        contradiction
    | some pair =>
      obtain ⟨buf', next⟩ := pair
      obtain ⟨found, after, lenAfter, passes⟩ := browseLine_passEntry buf' lenSec
      obtain ⟨es, rest⟩ := ih _ (remaining ▸ fgets_remaining read) after lenAfter next rfl
      refine ⟨found.toList ++ es, fun σ callback user goesOn => ?_⟩
      rw [browseLoop]
      split
      · rename_i none
        rw [read] at none
        contradiction
      rename_i buf'' next' some
      rw [read, Option.some.injEq, Prod.mk.injEq] at some
      obtain ⟨rfl, rfl⟩ := some
      have pass := passes σ callback user goesOn
      dsimp only at pass ⊢
      rw [pass, if_pos rfl, rest σ callback _ goesOn]
      cases found with
      | none => rfl
      | some e => exact (runCallback_cons goesOn e es user).symm

/-- A callback that keeps what it is handed. -/
def collect : Callback (List Entry) := fun sectionName key value es =>
    (es ++ [⟨sectionName, key, value⟩], true)

/-- The entries that browsing a file hands over, however long its lines are. -/
def handedOver (stack : Chars INI_BUFFERSIZE) (file : Option ReadFile) : List Entry :=
  (iniBrowse stack collect [] file).1

theorem runCallback_collect (es front : List Entry) : runCallback collect es front = front ++ es := by
  induction es generalizing front with
  | nil => exact (List.append_nil front).symm
  | cons e es ih =>
    rw [runCallback, collect]
    dsimp only
    rw [ih, List.append_assoc, List.singleton_append]

theorem iniBrowse_calls {callback : Callback σ}
    (goesOn : ∀ sectionName key value user, (callback sectionName key value user).2 = true)
    (stack : Chars INI_BUFFERSIZE) (user : σ) (file : Option ReadFile) :
    (iniBrowse stack callback user file).1 = runCallback callback (handedOver stack file) user := by
  cases file with
  | none => rfl
  | some fp =>
    obtain ⟨es, browsed⟩ := browseLoop_calls (poke stack 0 0) (strlen (poke stack 0 0) 0 + 1) fp
    have handed : handedOver stack (some fp) = es :=
      (browsed _ collect [] fun _ _ _ _ => rfl).trans (runCallback_collect es [])
    rw [handed]
    exact browsed σ callback user goesOn

theorem handedOver_eq (stack : Chars INI_BUFFERSIZE) {text : List UInt8} (fits : Fits LINE_ROOM text)
    (free : 0 ∉ text) : handedOver stack (some ⟨text, 0⟩) = readEntries text := by
  rw [handedOver, iniBrowse_spec stack collect [] fits free]
  exact runCallback_collect _ []

end SysHelo.MinIni
