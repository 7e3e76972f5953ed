import SysHelo.MinIni.Putsection
import SysHelo.MinIni.Reread

/-! Values as `writekey` writes them, in quotes when they need it, and as they are read again. -/
namespace SysHelo.MinIni
open CString Stdio Lines

def escapeQuotes : List UInt8 → List UInt8
  | [] => []
  | c :: s => if c = '"'.toUInt8 then '\\'.toUInt8 :: c :: escapeQuotes s else c :: escapeQuotes s

/-- A value as it is written. -/
def quoted (value : List UInt8) : List UInt8 :=
  if checkEnquote value = .enquote then '"'.toUInt8 :: escapeQuotes value ++ ['"'.toUInt8] else value

/-- A value as it is read after it has been written. -/
def readBack (value : List UInt8) : List UInt8 :=
  if checkEnquote value = .enquote then value else rtrim (ltrim value)

example : quoted (bytes "a;\\\"b\" ") = bytes "\"a;\\\\\"b\\\" \"" ∧ readBack (bytes " a\t") = bytes "a" := by
  decide

theorem escapeQuotes_length_le (s : List UInt8) : s.length ≤ (escapeQuotes s).length := by
  induction s with
  | nil => exact Nat.le_refl _
  | cons c s ih =>
    unfold escapeQuotes
    split <;> simp only [List.length_cons] <;> omega

theorem copyEnquote_text (b : Chars n) (dest : Nat) (s : List UInt8) (maxlen left i d : Nat) (free : 0 ∉ s)
    (enough : (s.drop i).length ≤ left) (fits : d + (escapeQuotes (s.drop i)).length + 2 ≤ maxlen) :
    copyEnquote b dest (.text s) maxlen left i d =
      store b (dest + d) (escapeQuotes (s.drop i) ++ ['"'.toUInt8, 0]) := by
  induction left generalizing b i d with
  | zero =>
    have empty : s.drop i = [] := List.eq_nil_of_length_eq_zero (by omega)
    rw [empty]
    rfl
  | succ left ih =>
    by_cases inside : i < s.length
    · have nonzero : s[i] ≠ 0 := fun zero => free (zero ▸ List.getElem_mem inside)
      have more : (s.drop (i + 1)).length ≤ left := by
        rw [List.length_drop] at enough ⊢
        omega
      have get : Source.get b (.text s) i = s[i] := List.getD_eq_getElem _ _ inside
      rw [List.drop_eq_getElem_cons inside] at fits ⊢
      rw [escapeQuotes] at fits ⊢
      rw [copyEnquote]
      simp only [Source.get, List.getD_eq_getElem _ _ inside]
      by_cases quote : s[i] = '"'.toUInt8
      · rw [if_pos quote, List.length_cons, List.length_cons] at fits
        rw [if_neg (by simp only [nonzero, false_or, not_or, not_and]; omega), if_pos quote, if_pos quote,
          ih _ _ _ more (by omega)]
        rfl
      · rw [if_neg quote, List.length_cons] at fits
        rw [if_neg (by simp only [nonzero, quote, false_and, false_or, or_false]; omega), if_neg quote,
          if_neg quote, ih _ _ _ more (by omega)]
        rfl
    · have empty : s.drop i = [] := List.drop_eq_nil_of_le (by omega)
      have get : Source.get b (.text s) i = 0 := List.getD_eq_default _ _ (by omega)
      rw [copyEnquote, if_pos (.inl get), empty]
      rfl

theorem checkEnquote_copied (value : List UInt8) :
    checkEnquote value = .enquote ∨ checkEnquote value = .none := by
  unfold checkEnquote
  split
  · exact .inl rfl
  · exact .inr rfl

theorem iniStrncpy_quoted (b : Chars n) {value : List UInt8} (free : 0 ∉ value)
    (fits : (quoted value).length < maxlen) :
    iniStrncpy b dest (.text value) maxlen (checkEnquote value) = store b dest (quoted value ++ [0]) := by
  unfold quoted at fits ⊢
  rcases checkEnquote_copied value with enquote | none
  · rw [if_pos enquote, List.length_append, List.length_cons, List.length_singleton] at fits
    have long := escapeQuotes_length_le value
    have copied := copyEnquote_text (poke b dest '"'.toUInt8) dest value maxlen maxlen 0 1 free
      (by rw [List.drop_zero]; omega) (by rw [List.drop_zero]; omega)
    rw [List.drop_zero] at copied
    rw [enquote, if_pos rfl, iniStrncpy, if_neg (by omega)]
    dsimp only
    rw [copied, List.append_assoc]
    rfl
  · rw [none, if_neg (by decide)] at fits ⊢
    exact iniStrncpy_none_text b value free fits

theorem quoted_free {value : List UInt8} (free : 0 ∉ value) : 0 ∉ quoted value := by
  have escaped : 0 ∉ escapeQuotes value := by
    induction value with
    | nil => simp [escapeQuotes]
    | cons c s ih =>
      rw [List.mem_cons, not_or] at free
      unfold escapeQuotes
      split
      · simp only [List.mem_cons, not_or]
        exact ⟨by decide, free.1, ih free.2⟩
      · simp only [List.mem_cons, not_or]
        exact ⟨free.1, ih free.2⟩
  unfold quoted
  split
  · simp only [List.cons_append, List.mem_cons, List.mem_append, List.not_mem_nil, or_false, not_or]
    exact ⟨by decide, escaped, by decide⟩
  · exact free

/-- A key and a value that `writekey` writes on one line. -/
structure Writable (key value : List UInt8) : Prop where
  keyFree : 0 ∉ key
  valueFree : 0 ∉ value
  fits : key.length + (quoted value).length + 4 < INI_BUFFERSIZE

instance (key value : List UInt8) : Decidable (Writable key value) :=
  decidable_of_iff (0 ∉ key ∧ 0 ∉ value ∧ key.length + (quoted value).length + 4 < INI_BUFFERSIZE)
    ⟨fun all => ⟨all.1, all.2.1, all.2.2⟩, fun writable => ⟨writable.keyFree, writable.valueFree,
      writable.fits⟩⟩

theorem writekey_quoted (w : Writer) {key value : List UInt8} (writable : Writable key value) :
    (writekey w key value).wfp = w.wfp ++ [keyLine (key, quoted value)] ∧
      str (writekey w key value).buf 0 = keyLine (key, quoted value) := by
  obtain ⟨keyFree, valueFree, fits⟩ := writable
  have quotedFree := quoted_free valueFree
  have keyAt := str_store (p := 0) w.buf keyFree (by omega)
  have valueAt := str_poke_store (l := quoted value) (c := '='.toUInt8) keyAt
    (by decide) quotedFree (by omega)
  have terminated := strcpy_append (l := INI_LINETERM) valueAt (by decide) (by
    simp only [List.length_append, List.length_cons]; change _ + 1 < _; omega)
  have copied (b : Chars INI_BUFFERSIZE) (p : Nat) := @iniStrncpy_quoted INI_BUFFERSIZE
    (INI_BUFFERSIZE - (key.length + 1) - 2) p b value valueFree (by omega)
  simp only [writekey, Writer.write, strlen,
    iniStrncpy_none_text _ key keyFree (show key.length < INI_BUFFERSIZE - 3 by omega), keyAt,
      copied, valueAt,
    terminated]
  exact ⟨rfl, rfl⟩

theorem head_escapeQuotes (s : List UInt8) : (escapeQuotes s).head? ≠ some '"'.toUInt8 := by
  cases s with
  | nil => simp [escapeQuotes]
  | cons c s =>
    unfold escapeQuotes
    split
    · simp
      decide
    · simpa

theorem escapes_escaped {c : UInt8} (s : List UInt8) : escapes c ((escapeQuotes s).headD 0) = false := by
  cases both : escapes c ((escapeQuotes s).headD 0) with
  | false => rfl
  | true =>
    have quote := escapes_quote both
    have first := head_escapeQuotes s
    cases shape : escapeQuotes s with
    | nil => rw [shape] at quote; exact absurd quote (by decide)
    | cons d t =>
      rw [shape, List.headD_cons] at quote
      rw [shape, quote] at first
      exact absurd rfl first

theorem dequote_escapeQuotes (s : List UInt8) : dequote (escapeQuotes s) = s := by
  induction s with
  | nil => rfl
  | cons c s ih =>
    unfold escapeQuotes
    split
    · rename_i quote
      rw [dequote_cons, List.headD_cons, if_pos (by rw [quote]; decide), List.tail_cons, ih, quote]
    · rw [dequote_cons, escapes_escaped, if_neg (by decide), ih]

theorem uncomment_cons (isstring : Bool) (c : UInt8) (s : List UInt8) :
    uncomment isstring (c :: s) =
      if (c = ';'.toUInt8 ∨ c = '#'.toUInt8) ∧ !isstring then []
      else if escapes c (s.headD 0) then c :: '"'.toUInt8 :: uncomment isstring s.tail
      else c :: uncomment (if c = '"'.toUInt8 then !isstring else isstring) s := by
  cases s with
  | nil =>
    rw [List.headD_nil, escapes_zero, if_neg Bool.false_ne_true, uncomment]
    rfl
  | cons d s =>
    rw [uncomment, List.headD_cons, List.tail_cons]
    split
    · rfl
    · split
      · rename_i both
        rw [escapes_quote both]
      · rfl

/-- Inside the quotes nothing starts a comment, and the closing quote is found. -/
theorem uncomment_escapeQuotes (s : List UInt8) :
    uncomment true (escapeQuotes s ++ ['"'.toUInt8, newline]) = escapeQuotes s ++ ['"'.toUInt8, newline] := by
  induction s with
  | nil => decide
  | cons c s ih =>
    unfold escapeQuotes
    split
    · rename_i quote
      subst quote
      rw [List.cons_append, uncomment_cons, if_neg (by decide), List.cons_append, List.headD_cons,
        if_pos (by decide), List.tail_cons, ih]
    · rename_i plain
      rw [List.cons_append, uncomment_cons, if_neg (by simp), if_neg plain]
      cases s with
      | nil =>
        cases both : escapes c (([] ++ ['"'.toUInt8, newline] : List UInt8).headD 0) with
        | true =>
          have last : uncomment true [newline] = [newline] := by decide
          rw [escapeQuotes, both, if_pos rfl, List.nil_append, List.tail_cons, last]
        | false =>
          rw [escapeQuotes] at ih ⊢
          rw [both, if_neg Bool.false_ne_true, ih]
      | cons d s =>
        have shape : escapeQuotes (d :: s) ≠ [] := by
          intro empty
          have := escapeQuotes_length_le (d :: s)
          rw [empty] at this
          simp at this
        obtain ⟨e, t, split⟩ := List.exists_cons_of_ne_nil shape
        have free := @escapes_escaped c (d :: s)
        rw [split, List.headD_cons] at free
        rw [split] at ih ⊢
        rw [List.cons_append, List.headD_cons, free, if_neg Bool.false_ne_true, ← List.cons_append, ih]

theorem rtrim_append {s blanks : List UInt8} (all : ∀ c ∈ blanks, blank c) : rtrim
    (s ++ blanks) = rtrim s := by
  induction blanks using List.reverseRecOn with
  | nil => rw [List.append_nil]
  | append_singleton blanks c ih =>
    rw [← List.append_assoc, rtrim, List.rdropWhile_concat_pos _ _ _ (all c (by simp))]
    exact ih fun d member => all d (by simp [member])

theorem newline_blank : ∀ c ∈ [newline], blank c := by
  intro c member
  rw [List.mem_singleton.mp member]
  rfl

theorem rtrim_concat {c : UInt8} (solid : ¬ blank c) (s : List UInt8) : rtrim (s ++ [c]) = s ++ [c] := by
  rw [rtrim, List.rdropWhile_concat_neg _ _ _ solid]

theorem ltrim_append_newline (s : List UInt8) :
    ltrim (s ++ [newline]) = ltrim s ++ [newline] ∨ ltrim (s ++ [newline]) = [] ∧ ltrim s = [] := by
  unfold ltrim
  rw [List.dropWhile_append]
  split
  · rename_i empty
    exact .inr ⟨by decide, by simpa using empty⟩
  · exact .inl rfl

theorem checkEnquote_plain {value : List UInt8} (plain : checkEnquote value ≠ .enquote) :
    ∀ c ∈ value, c ≠ '"'.toUInt8 ∧ c ≠ ';'.toUInt8 ∧ c ≠ '#'.toUInt8 := by
  intro c member
  unfold checkEnquote at plain
  split at plain
  · contradiction
  · rename_i none
    rw [not_or] at none
    have special := none.1
    simp only [List.any_eq_true, decide_eq_true_eq, not_exists, not_and] at special
    have := special c member
    tauto

theorem clean_quoted {value : List UInt8} : clean (ltrim (quoted value ++ [newline])) = readBack value := by
  unfold quoted readBack
  by_cases enquote : checkEnquote value = .enquote
  · rw [if_pos enquote, if_pos enquote]
    have nonempty : value ≠ [] := by
      rintro rfl
      exact absurd enquote (by decide)
    have trimmed : ltrim ('"'.toUInt8 :: escapeQuotes value ++ ['"'.toUInt8] ++ [newline]) =
        '"'.toUInt8 :: (escapeQuotes value ++ ['"'.toUInt8, newline]) := by
      rw [List.append_assoc, List.cons_append, ltrim, List.dropWhile_cons_of_neg (by decide)]
      rfl
    have first : escapes '"'.toUInt8 ((escapeQuotes value ++ ['"'.toUInt8, newline]).headD 0) = false := by
      have shape : escapeQuotes value ≠ [] := by
        intro empty
        have := escapeQuotes_length_le value
        rw [empty] at this
        exact nonempty (List.eq_nil_of_length_eq_zero (by simpa using this))
      obtain ⟨c, t, split⟩ := List.exists_cons_of_ne_nil shape
      have free := @escapes_escaped '"'.toUInt8 value
      rw [split, List.headD_cons] at free
      rw [split, List.cons_append, List.headD_cons, free]
    have kept : uncomment false ('"'.toUInt8 :: (escapeQuotes value ++ ['"'.toUInt8, newline])) =
        ('"'.toUInt8 :: escapeQuotes value ++ ['"'.toUInt8]) ++ [newline] := by
      rw [uncomment_cons, if_neg (by decide), first, if_neg Bool.false_ne_true, if_pos rfl, Bool.not_false,
        uncomment_escapeQuotes]
      simp
    have stripped : rtrim (('"'.toUInt8 :: escapeQuotes value ++ ['"'.toUInt8]) ++ [newline]) =
        '"'.toUInt8 :: escapeQuotes value ++ ['"'.toUInt8] := by
      rw [rtrim_append newline_blank, rtrim_concat (by decide)]
    rw [trimmed, clean, kept, stripped, if_pos ⟨rfl, List.getLast?_concat ..⟩, List.cons_append,
      List.tail_cons,
      List.dropLast_concat, dequote_escapeQuotes]
  · rw [if_neg enquote, if_neg enquote]
    have plain := checkEnquote_plain enquote
    have inside : ∀ c ∈ ltrim value, c ≠ '"'.toUInt8 ∧ c ≠ ';'.toUInt8 ∧ c ≠ '#'.toUInt8 :=
      fun c member => plain c ((List.dropWhile_suffix blank).mem member)
    have unquoted : ¬ ((rtrim (ltrim value)).head? = some '"'.toUInt8 ∧
        (rtrim (ltrim value)).getLast? = some '"'.toUInt8) := by
      rintro ⟨quote, -⟩
      exact (inside _ ((rtrim_isPrefix _).mem (List.mem_of_head? quote))).1 rfl
    rcases ltrim_append_newline value with kept | ⟨blankLine, empty⟩
    · have whole : uncomment false (ltrim value ++ [newline]) = ltrim value ++ [newline] := by
        apply uncomment_self
        intro c member
        rcases List.mem_append.mp member with old | last
        · exact (inside c old).2
        · rw [List.mem_singleton.mp last]
          decide
      rw [kept, clean, whole, rtrim_append newline_blank, if_neg unquoted]
    · rw [blankLine, empty]
      rfl

/-- Exactly the values that are quoted, or have no blanks around them, are read as they were written. -/
theorem readBack_iff (value : List UInt8) :
    readBack value = value ↔ checkEnquote value = .enquote ∨ ltrim value = value ∧ rtrim value = value := by
  unfold readBack
  by_cases enquote : checkEnquote value = .enquote
  · simp [enquote]
  · rw [if_neg enquote]
    simp only [enquote, false_or]
    constructor
    · intro same
      have outer := (rtrim_isPrefix (ltrim value)).length_le
      have inner := ltrim_length_le value
      rw [same] at outer
      have size : (ltrim value).length = value.length := by omega
      have left : ltrim value = value := List.IsSuffix.eq_of_length (List.dropWhile_suffix blank) size
      exact ⟨left, by rwa [left] at same⟩
    · rintro ⟨left, right⟩
      rw [left, right]

end SysHelo.MinIni
