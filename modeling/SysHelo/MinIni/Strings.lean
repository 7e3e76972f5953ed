import SysHelo.Lib.Stdio
import Mathlib.Data.List.GetD

/-! The string functions of minIni, on the reused line buffer. -/
namespace SysHelo.MinIni
open CString Stdio

def INI_BUFFERSIZE : Nat := 512

def INI_LINETERM : List UInt8 := bytes "\n"

inductive QuoteOption where
  | none
  | enquote
  | dequote
  deriving DecidableEq

/-- A pointer into the buffer itself, or a string outside it. -/
inductive Source where
  | here (p : Nat)
  | text (s : List UInt8)

/-- `source[i]` -/
def Source.get (b : Chars n) : Source → Nat → UInt8
  | .here p, i => peek b (p + i)
  | .text s, i => s.getD i 0

/-- `'\0' < c && c <= ' '` -/
def blank (c : UInt8) : Bool := 0 < c && c ≤ ' '.toUInt8

def upcase (c : UInt8) : UInt8 :=
  if 'a'.toUInt8 ≤ c ∧ c ≤ 'z'.toUInt8 then c - ('a'.toUInt8 - 'A'.toUInt8) else c

def skipleading (b : Chars n) (p : Nat) : Nat := p + ((str b p).takeWhile blank).length

def skiptrailing (b : Chars n) (base : Nat) : Nat → Nat
  | 0 => 0
  | p + 1 => if base < p + 1 ∧ blank (peek b p) then skiptrailing b base p else p + 1

def striptrailing (b : Chars n) (p : Nat) : Chars n :=
  poke b (skiptrailing b p (p + strlen b p)) 0

/-- `QUOTE_NONE`, from index `d` on, with room for `left` more characters. -/
def copyNone (b : Chars n) (dest : Nat) (source : Source) : (left d : Nat) → Chars n
  | 0, d => poke b (dest + d) 0
  | left + 1, d =>
    if source.get b d = 0 then poke b (dest + d) 0
    else copyNone (poke b (dest + d) (source.get b d)) dest source left (d + 1)

/-- `QUOTE_ENQUOTE`, from `source[s]` to `dest[d]`; each pass stores at least one character. -/
def copyEnquote (b : Chars n) (dest : Nat) (source : Source) (maxlen : Nat) :
    (left s d : Nat) → Chars n
  | 0, _, d => poke (poke b (dest + d) '"'.toUInt8) (dest + d + 1) 0
  | left + 1, s, d =>
    if source.get b s = 0 ∨ maxlen - 2 ≤ d ∨ source.get b s = '"'.toUInt8 ∧ maxlen - 3 ≤ d then
      poke (poke b (dest + d) '"'.toUInt8) (dest + d + 1) 0
    else if source.get b s = '"'.toUInt8 then
      let escaped := poke b (dest + d) '\\'.toUInt8
      copyEnquote (poke escaped (dest + d + 1) (source.get escaped s)) dest source maxlen
        left (s + 1) (d + 2)
    else copyEnquote (poke b (dest + d) (source.get b s)) dest source maxlen left (s + 1) (d + 1)

/-- `\"` or `""` -/
def escapes (c d : UInt8) : Bool := (c = '"'.toUInt8 || c = '\\'.toUInt8) && d = '"'.toUInt8

/-- `QUOTE_DEQUOTE`: a `\"` or `""` of the source is one `"`. -/
def copyDequote (b : Chars n) (dest : Nat) (source : Source) : (left d s : Nat) → Chars n
  | 0, d, _ => poke b (dest + d) 0
  | left + 1, d, s =>
    if source.get b s = 0 then poke b (dest + d) 0
    else
      let s := if escapes (source.get b s) (source.get b (s + 1)) then s + 1 else s
      copyDequote (poke b (dest + d) (source.get b s)) dest source left (d + 1) (s + 1)

def iniStrncpy (b : Chars n) (dest : Nat) (source : Source) (maxlen : Nat) (option : QuoteOption) :
    Chars n :=
  -- two quotes and a terminating zero need three characters
  match if option = .enquote ∧ maxlen < 3 then .none else option with
  | .none => copyNone b dest source (maxlen - 1) 0
  | .enquote => copyEnquote (poke b dest '"'.toUInt8) dest source maxlen maxlen 0 1
  | .dequote => copyDequote b dest source (maxlen - 1) 0 0

/-- Where a trailing comment starts in a value, or its length. -/
def commentStart : (isstring : Bool) → List UInt8 → Nat
  | _, [] => 0
  | isstring, [c] => if (c = ';'.toUInt8 ∨ c = '#'.toUInt8) ∧ !isstring then 0 else 1
  | isstring, c :: d :: s =>
    if (c = ';'.toUInt8 ∨ c = '#'.toUInt8) ∧ !isstring then 0
    else if escapes c d then 2 + commentStart isstring s
    else 1 + commentStart (if c = '"'.toUInt8 then !isstring else isstring) (d :: s)

/-- The cleaned buffer, the new start of the string, and how to copy it. -/
def cleanstring (b : Chars n) (string : Nat) : Chars n × Nat × QuoteOption :=
  let b := poke b (string + commentStart false (str b string)) 0
  let b := striptrailing b string
  let ep := string + strlen b string
  if peek b string = '"'.toUInt8 ∧ peek b (ep - 1) = '"'.toUInt8 then
    (poke b (ep - 1) 0, string + 1, .dequote)
  else (b, string, .none)

def ltrim (s : List UInt8) : List UInt8 := s.dropWhile blank

def rtrim (s : List UInt8) : List UInt8 := s.rdropWhile blank

/-- A value up to the first `;` or `#` outside double quotes. -/
def uncomment : (isstring : Bool) → List UInt8 → List UInt8
  | _, [] => []
  | isstring, [c] => if (c = ';'.toUInt8 ∨ c = '#'.toUInt8) ∧ !isstring then [] else [c]
  | isstring, c :: d :: s =>
    if (c = ';'.toUInt8 ∨ c = '#'.toUInt8) ∧ !isstring then []
    else if escapes c d then
      c :: d :: uncomment isstring s
    else c :: uncomment (if c = '"'.toUInt8 then !isstring else isstring) (d :: s)

/-- A quoted string with its `\"` and `""` read as `"`. -/
def dequote : List UInt8 → List UInt8
  | [] => []
  | [c] => [c]
  | c :: d :: s =>
    if escapes c d then d :: dequote s
    else c :: dequote (d :: s)

/-- A value without its comment, the blanks around it and its quotes. -/
def clean (s : List UInt8) : List UInt8 :=
  let s := rtrim (uncomment false s)
  if s.head? = some '"'.toUInt8 ∧ s.getLast? = some '"'.toUInt8 then
    dequote s.tail.dropLast
  else s

theorem str_skipleading (b : Chars n) (p : Nat) :
    str b (skipleading b p) = ltrim (str b p) := by
  have front := List.takeWhile_prefix blank (l := str b p)
  have whole := congrArg (List.drop ((str b p).takeWhile blank).length)
    (List.takeWhile_append_dropWhile (p := blank) (l := str b p))
  rw [List.drop_left] at whole
  rw [skipleading, str_drop _ _ _ front.length_le, ltrim, whole]

theorem skipleading_le (b : Chars n) (p : Nat) :
    p ≤ skipleading b p ∧ skipleading b p ≤ p + (str b p).length := by
  have front := (List.takeWhile_prefix blank (l := str b p)).length_le
  simp only [skipleading]
  omega

theorem skipleading_add (b : Chars n) (p : Nat) :
    skipleading b p + (str b (skipleading b p)).length = p + (str b p).length := by
  have whole := congrArg List.length (List.takeWhile_append_dropWhile (p := blank) (l := str b p))
  rw [List.length_append] at whole
  rw [str_skipleading, ltrim, skipleading]
  omega

theorem rtrim_isPrefix (s : List UInt8) : rtrim s <+: s := List.rdropWhile_prefix _ _

theorem skiptrailing_eq (b : Chars n) (base : Nat) (s : List UInt8)
    (content : ∀ i (h : i < s.length), peek b (base + i) = s[i]) :
    skiptrailing b base (base + s.length) = base + (rtrim s).length := by
  induction s using List.reverseRecOn with
  | nil =>
    cases base with
    | zero => rfl
    | succ base => simp [skiptrailing, rtrim]
  | append_singleton s c ih =>
    have last : peek b (base + s.length) = c := by
      simpa using content s.length (by simp)
    rw [List.length_append, List.length_singleton, ← Nat.add_assoc, skiptrailing, last, rtrim,
      List.rdropWhile_concat]
    by_cases trailing : blank c
    · rw [if_pos ⟨by omega, trailing⟩, if_pos trailing]
      apply ih
      intro i h
      have := content i (by simp; omega)
      rwa [List.getElem_append_left h] at this
    · rw [if_neg (fun both => trailing both.2), if_neg trailing]
      simp [Nat.add_assoc]

theorem striptrailing_eq (b : Chars n) (p : Nat) :
    striptrailing b p = poke b (p + (rtrim (str b p)).length) 0 := by
  rw [striptrailing, strlen, skiptrailing_eq b p (str b p) (fun i h => peek_str b p i h)]

theorem str_striptrailing (b : Chars n) (terminated : p + (str b p).length < n) :
    str (striptrailing b p) p = rtrim (str b p) := by
  have front := rtrim_isPrefix (str b p)
  rw [striptrailing_eq, str_poke_nul b p _ front.length_le (by have := front.length_le; omega)]
  exact (List.prefix_iff_eq_take.mp front).symm

theorem copyNone_here (b : Chars n) (dest q left d : Nat) (down : dest ≤ q)
    (fits : (str b (q + d)).length ≤ left) :
    copyNone b dest (.here q) left d = store b (dest + d) (str b (q + d) ++ [0]) := by
  induction left generalizing b d with
  | zero =>
    have empty : str b (q + d) = [] := List.eq_nil_of_length_eq_zero (by omega)
    simp [copyNone, empty, store]
  | succ left ih =>
    by_cases ends : peek b (q + d) = 0
    · simp [copyNone, Source.get, ends, str_eq_nil.mpr ends, store]
    · have content := str_eq_cons ends
      have rest : str (poke b (dest + d) (peek b (q + d))) (q + (d + 1)) = str b (q + d + 1) :=
        str_poke_outside _ _ (by omega)
      rw [copyNone, Source.get, if_neg ends, ih _ _ (by
        rw [rest]; rw [content] at fits; simpa using fits), rest, content]
      rfl

theorem escapes_quote (both : escapes c d) : d = '"'.toUInt8 := by
  simp only [escapes, Bool.and_eq_true, decide_eq_true_eq] at both
  exact both.2

theorem escapes_zero (c : UInt8) : escapes c 0 = false := by
  cases both : escapes c 0 with
  | false => rfl
  | true => exact absurd (escapes_quote both) (by decide)

theorem dequote_cons (c : UInt8) (s : List UInt8) :
    dequote (c :: s) =
      if escapes c (s.headD 0) then '"'.toUInt8 :: dequote s.tail else c :: dequote s := by
  cases s with
  | nil => simp only [dequote, List.headD_nil, escapes_zero, Bool.false_eq_true, if_false]
  | cons d s =>
    cases both : escapes c d with
    | true =>
      simp only [dequote, List.headD_cons, List.tail_cons, both, if_true]
      rw [escapes_quote both]
    | false => simp only [dequote, List.headD_cons, both, Bool.false_eq_true, if_false]

theorem copyDequote_here (b : Chars n) (dest q left d s : Nat) (down : dest ≤ q) (behind : d ≤ s)
    (fits : (str b (q + s)).length ≤ left) :
    copyDequote b dest (.here q) left d s =
      store b (dest + d) (dequote (str b (q + s)) ++ [0]) := by
  induction left generalizing b d s with
  | zero =>
    have empty : str b (q + s) = [] := List.eq_nil_of_length_eq_zero (by omega)
    simp [copyDequote, empty, dequote, store]
  | succ left ih =>
    by_cases ends : peek b (q + s) = 0
    · simp [copyDequote, Source.get, ends, str_eq_nil.mpr ends, dequote, store]
    · have content := str_eq_cons ends
      have second : (str b (q + s + 1)).headD 0 = peek b (q + (s + 1)) := head_str _ _
      have after (k : Nat) (c : UInt8) (later : s < k) :
          str (poke b (dest + d) c) (q + k) = str b (q + k) := str_poke_outside _ _ (by omega)
      rw [content, List.length_cons] at fits
      rw [content, dequote_cons, second]
      cases escape : escapes (peek b (q + s)) (peek b (q + (s + 1))) with
      | true =>
        have quote := escapes_quote escape
        have inner : str b (q + (s + 1)) = '"'.toUInt8 :: str b (q + (s + 2)) := by
          have := str_eq_cons (b := b) (p := q + (s + 1)) (by rw [quote]; decide)
          rwa [quote] at this
        have tail : (str b (q + s + 1)).tail = str b (q + (s + 2)) := by
          rw [show q + s + 1 = q + (s + 1) by omega, inner]; rfl
        have short : (str b (q + (s + 2))).length ≤ left := by
          rw [show q + s + 1 = q + (s + 1) by omega, inner, List.length_cons] at fits
          omega
        simp only [copyDequote, Source.get, ends, escape, if_true, if_false, tail]
        rw [ih _ _ _ (by omega) (by rw [after _ _ (by omega)]; exact short), after _ _ (by omega),
          quote]
        rfl
      | false =>
        simp only [copyDequote, Source.get, ends, escape, Bool.false_eq_true, if_false]
        rw [ih _ _ _ (by omega) (by rw [after _ _ (by omega), ← Nat.add_assoc]; omega),
          after _ _ (by omega), ← Nat.add_assoc]
        rfl

theorem dequote_length_le (s : List UInt8) : (dequote s).length ≤ s.length := by
  induction s using dequote.induct with
  | case1 => exact Nat.le_refl _
  | case2 c => exact Nat.le_refl _
  | case3 c d s both ih => simp only [dequote, if_pos both, List.length_cons]; omega
  | case4 c d s other ih =>
    simp only [dequote, if_neg other, List.length_cons] at ih ⊢
    omega

theorem zero_not_mem_dequote {s : List UInt8} (free : 0 ∉ s) : 0 ∉ dequote s := by
  induction s using dequote.induct with
  | case1 => exact free
  | case2 c => exact free
  | case3 c d s both ih =>
    simp only [List.mem_cons, not_or] at free
    simp only [dequote, if_pos both, List.mem_cons, not_or]
    exact ⟨free.2.1, ih free.2.2⟩
  | case4 c d s other ih =>
    rw [List.mem_cons, not_or] at free
    simp only [dequote, if_neg other, List.mem_cons, not_or]
    exact ⟨free.1, ih free.2⟩

theorem iniStrncpy_none_here (b : Chars n) (down : dest ≤ q)
    (fits : (str b q).length < maxlen) :
    iniStrncpy b dest (.here q) maxlen .none = store b dest (str b q ++ [0]) := by
  have copied := copyNone_here b dest q (maxlen - 1) 0 down (by rw [Nat.add_zero]; omega)
  simpa [iniStrncpy] using copied

theorem iniStrncpy_dequote_here (b : Chars n) (down : dest ≤ q)
    (fits : (str b q).length < maxlen) :
    iniStrncpy b dest (.here q) maxlen .dequote = store b dest (dequote (str b q) ++ [0]) := by
  have copied := copyDequote_here b dest q (maxlen - 1) 0 0 down (Nat.le_refl _)
    (by rw [Nat.add_zero]; omega)
  simpa [iniStrncpy] using copied

theorem copyNone_text (b : Chars n) (dest left : Nat) (s : List UInt8) (d : Nat)
    (free : 0 ∉ s) (fits : (s.drop d).length ≤ left) :
    copyNone b dest (.text s) left d = store b (dest + d) (s.drop d ++ [0]) := by
  induction left generalizing b d with
  | zero =>
    have empty : s.drop d = [] := List.eq_nil_of_length_eq_zero (by omega)
    simp [copyNone, empty, store]
  | succ left ih =>
    by_cases inside : d < s.length
    · have nonzero : s[d] ≠ 0 := fun zero => free (zero ▸ List.getElem_mem inside)
      rw [copyNone, Source.get, List.getD_eq_getElem _ _ inside, if_neg nonzero,
        ih _ _ (by simp at fits ⊢; omega), List.drop_eq_getElem_cons inside]
      rfl
    · have empty : s.drop d = [] := List.drop_eq_nil_of_le (by omega)
      rw [copyNone, Source.get, List.getD_eq_default _ _ (by omega), if_pos rfl, empty]
      rfl

theorem iniStrncpy_none_text (b : Chars n) (s : List UInt8) (free : 0 ∉ s)
    (fits : s.length < maxlen) :
    iniStrncpy b dest (.text s) maxlen .none = store b dest (s ++ [0]) := by
  have copied := copyNone_text b dest (maxlen - 1) s 0 free (by rw [List.drop_zero]; omega)
  simpa [iniStrncpy] using copied

theorem commentStart_le (isstring : Bool) (s : List UInt8) :
    commentStart isstring s ≤ s.length := by
  induction isstring, s using commentStart.induct with
  | case1 => exact Nat.le_refl _
  | case2 isstring c comment => simp [commentStart, comment]
  | case3 isstring c plain => rw [commentStart, if_neg plain]; rfl
  | case4 isstring c d s comment => rw [commentStart, if_pos comment]; omega
  | case5 isstring c d s plain both ih =>
    rw [commentStart, if_neg plain, if_pos both, List.length_cons, List.length_cons]
    omega
  | case6 isstring c d s plain other ih =>
    rw [List.length_cons] at ih
    rw [commentStart, if_neg plain, if_neg other, List.length_cons, List.length_cons]
    omega

theorem uncomment_eq_take (isstring : Bool) (s : List UInt8) :
    uncomment isstring s = s.take (commentStart isstring s) := by
  induction isstring, s using commentStart.induct with
  | case1 => rfl
  | case2 isstring c comment => rw [uncomment, commentStart, if_pos comment, if_pos comment]; rfl
  | case3 isstring c plain => rw [uncomment, commentStart, if_neg plain, if_neg plain]; rfl
  | case4 isstring c d s comment =>
    rw [uncomment, commentStart, if_pos comment, if_pos comment]; rfl
  | case5 isstring c d s plain both ih =>
    rw [uncomment, commentStart, if_neg plain, if_neg plain, if_pos both, if_pos both, ih,
      Nat.add_comm 2]
    rfl
  | case6 isstring c d s plain other ih =>
    rw [uncomment, commentStart, if_neg plain, if_neg plain, if_neg other, if_neg other, ih,
      Nat.add_comm 1]
    rfl

theorem head_str_iff (b : Chars n) (p : Nat) (nonzero : c ≠ 0) :
    (str b p).head? = some c ↔ peek b p = c := by
  rw [← head_str b p]
  cases str b p with
  | nil => simpa using Ne.symm nonzero
  | cons d s => simp

theorem getLast_str {b : Chars n} (content : str b p = d :: s) :
    (str b p).getLast? = some (peek b (p + s.length)) := by
  rw [peek_str b p s.length (by simp [content]), List.getLast?_eq_getElem?]
  simp [content]

theorem str_unquote {b : Chars n} (content : str b p = d :: s) (inside : p + s.length < n) :
    str (poke b (p + s.length) 0) (p + 1) = s.dropLast := by
  have tail : str b (p + 1) = s := by rw [str_drop b p 1 (by simp [content]), content]; rfl
  cases s with
  | nil => rw [str_poke_outside _ _ (by simp), tail]; rfl
  | cons e s =>
    have cut := str_poke_nul b (p + 1) s.length (by simp [tail]) (by
      rw [List.length_cons] at inside; omega)
    rw [tail] at cut
    rw [List.length_cons, show p + (s.length + 1) = p + 1 + s.length by omega, cut,
      List.dropLast_eq_take]
    simp

/-- What `iniStrncpy` makes of a string that fits. -/
def QuoteOption.copied (option : QuoteOption) (s : List UInt8) : List UInt8 :=
  match option with
  | .dequote => MinIni.dequote s
  | _ => s

/-- The cleaned value is the string at the returned pointer, once copied as returned. It lies
inside the old value, and nothing below that has changed. -/
structure Cleaned (b : Chars n) (string : Nat) (after : Chars n × Nat × QuoteOption) : Prop where
  value : after.2.2.copied (str after.1 after.2.1) = clean (str b string)
  copies : after.2.2 ≠ .enquote
  above : string ≤ after.2.1
  within : after.2.1 + (str after.1 after.2.1).length ≤ string + (str b string).length
  frame : ∀ i, i < string → peek after.1 i = peek b i

theorem str_uncommented (b : Chars n) (p : Nat) (terminated : p + (str b p).length < n) :
    str (striptrailing (poke b (p + commentStart false (str b p)) 0) p) p =
      rtrim (uncomment false (str b p)) := by
  have bound := commentStart_le false (str b p)
  have cut := str_poke_nul b p _ bound (by omega)
  rw [← uncomment_eq_take] at cut
  rw [str_striptrailing, cut]
  rw [cut, uncomment_eq_take, List.length_take]
  omega

theorem cleanstring_spec (b : Chars n) (string : Nat)
    (terminated : string + (str b string).length < n) :
    Cleaned b string (cleanstring b string) := by
  have content := str_uncommented b string terminated
  have shorter : (rtrim (uncomment false (str b string))).length ≤ (str b string).length := by
    apply (rtrim_isPrefix _).length_le.trans
    rw [uncomment_eq_take, List.length_take]
    omega
  have frame : ∀ i, i < string →
      peek (striptrailing (poke b (string + commentStart false (str b string)) 0) string) i =
        peek b i := by
    intro i below
    rw [striptrailing_eq, peek_poke_ne _ _ (by omega), peek_poke_ne _ _ (by omega)]
  simp only [cleanstring]
  generalize striptrailing (poke b (string + commentStart false (str b string)) 0) string = c at *
  rw [← content] at shorter
  cases split : str c string with
  | nil =>
    -- nothing is left of the value, so it cannot be quoted
    have first : peek c string ≠ '"'.toUInt8 := by rw [str_eq_nil.mp split]; decide
    rw [if_neg (fun both => first both.1)]
    exact ⟨by simp [QuoteOption.copied, clean, ← content, split], by simp, Nat.le_refl _,
      by simp [split], frame⟩
  | cons d s =>
    have size : strlen c string = s.length + 1 := by simp [strlen, split]
    rw [split, List.length_cons] at shorter
    have quoted : ((str c string).head? = some '"'.toUInt8 ∧
        (str c string).getLast? = some '"'.toUInt8) ↔
        (peek c string = '"'.toUInt8 ∧ peek c (string + strlen c string - 1) = '"'.toUInt8) := by
      rw [head_str_iff c string (by decide), getLast_str split, size, Option.some.injEq,
        show string + (s.length + 1) - 1 = string + s.length by omega]
    by_cases both : (str c string).head? = some '"'.toUInt8 ∧
        (str c string).getLast? = some '"'.toUInt8
    · rw [if_pos (quoted.mp both), size, show string + (s.length + 1) - 1 = string + s.length by omega]
      have inner := str_unquote split (by omega)
      refine ⟨?_, by simp, Nat.le_succ _, ?_, fun i below => ?_⟩
      · simp only [QuoteOption.copied, inner, clean, ← content, if_pos both]
        rw [split]
        rfl
      · dsimp only
        rw [inner, List.length_dropLast]
        omega
      · rw [peek_poke_ne _ _ (by omega)]
        exact frame i below
    · rw [if_neg (fun found => both (quoted.mpr found))]
      refine ⟨?_, by simp, Nat.le_refl _, ?_, frame⟩
      · simp only [QuoteOption.copied, clean, ← content, if_neg both]
      · dsimp only
        rw [split, List.length_cons]
        omega

end SysHelo.MinIni
