import Mathlib.Data.List.TakeWhile
import Mathlib.Data.List.DropRight

/-! Arrays of `char` and the NUL-terminated strings in them. A pointer is an offset
into its array. Reads past the end give NUL and writes past it are lost, so what is
proved to be in an array was written inside its bounds. -/
namespace SysHelo.CString

abbrev Chars (n : Nat) := Vector UInt8 n

variable {n : Nat}

/-- `*p` -/
def peek (b : Chars n) (p : Nat) : UInt8 := b[p]?.getD 0

/-- `*p = c` -/
def poke (b : Chars n) (p : Nat) (c : UInt8) : Chars n := b.setIfInBounds p c

/-- The string at `p`, without its terminator. -/
def str (b : Chars n) (p : Nat) : List UInt8 := (b.toList.drop p).takeWhile (· != 0)

/-- `memcpy(p, s, |s|)` from outside the array. -/
def store (b : Chars n) (p : Nat) : List UInt8 → Chars n
  | [] => b
  | c :: s => store (poke b p c) (p + 1) s

def strlen (b : Chars n) (p : Nat) : Nat := (str b p).length

/-- The first `c` of the string, its terminator included. -/
def strchr (b : Chars n) (p : Nat) (c : UInt8) : Option Nat :=
  let front := ((str b p).takeWhile (· != c)).length
  if peek b (p + front) = c then some (p + front) else none

/-- The last `c` of the string, its terminator included. -/
def strrchr (b : Chars n) (p : Nat) (c : UInt8) : Option Nat :=
  let back := ((str b p ++ [0]).reverse.takeWhile (· != c)).length
  if back ≤ strlen b p then some (p + (strlen b p - back)) else none

/-- `strcpy(p, s)` from outside the array. -/
def strcpy (b : Chars n) (p : Nat) (s : List UInt8) : Chars n := store b p (s ++ [0])

theorem peek_eq_toList (b : Chars n) (p : Nat) : peek b p = b.toList[p]?.getD 0 := by
  simp [peek]

theorem peek_poke (b : Chars n) (p q : Nat) (c : UInt8) :
    peek (poke b p c) q = if p = q ∧ p < n then c else peek b q := by
  simp only [peek, poke, Vector.getElem?_setIfInBounds]
  by_cases same : p = q
  · subst q
    by_cases inside : p < n
    · simp [inside]
    · rw [Vector.getElem?_eq_none (by omega)]
      simp [inside]
  · simp [same]

theorem peek_poke_self (b : Chars n) (inside : p < n) (c : UInt8) :
    peek (poke b p c) p = c := by
  simp [peek_poke, inside]

theorem peek_poke_ne (b : Chars n) (c : UInt8) (other : p ≠ q) :
    peek (poke b p c) q = peek b q := by
  simp [peek_poke, other]

theorem peek_store_outside (b : Chars n) (s : List UInt8) (outside : q < p ∨ p + s.length ≤ q) :
    peek (store b p s) q = peek b q := by
  induction s generalizing b p with
  | nil => rfl
  | cons c s ih =>
    rw [List.length_cons] at outside
    rw [store, ih _ (by omega), peek_poke_ne _ _ (by omega)]

theorem peek_store_inside (b : Chars n) (s : List UInt8) (i : Nat) (within : i < s.length)
    (inside : p + i < n) : peek (store b p s) (p + i) = s[i] := by
  induction s generalizing b p i with
  | nil => simp at within
  | cons c s ih =>
    rw [store]
    cases i with
    | zero =>
      rw [peek_store_outside _ _ (by omega), Nat.add_zero, peek_poke_self _ (by omega)]
      rfl
    | succ i =>
      have rest := ih (poke b p c) (p := p + 1) i (by simpa using within) (by omega)
      rw [show p + (i + 1) = p + 1 + i by omega, rest]
      rfl

private theorem takeWhile_ne_zero {l s : List UInt8}
    (within : ∀ i (h : i < s.length), l[i]?.getD 0 = s[i]) (ends : l[s.length]?.getD 0 = 0)
    (free : 0 ∉ s) : l.takeWhile (· != 0) = s := by
  induction s generalizing l with
  | nil =>
    cases l with
    | nil => rfl
    | cons c l => simp_all
  | cons c s ih =>
    simp only [List.mem_cons, not_or] at free
    have first := within 0 (by simp)
    cases l with
    | nil => simp_all
    | cons d l =>
      obtain rfl : d = c := by simpa using first
      have rest := ih (l := l) (fun i h => within (i + 1) (by simpa using h)) ends free.2
      rw [List.takeWhile_cons, if_pos (by simpa using Ne.symm free.1), rest]

private theorem getD_drop (b : Chars n) (p i : Nat) :
    (b.toList.drop p)[i]?.getD 0 = peek b (p + i) := by
  rw [List.getElem?_drop, peek_eq_toList]

theorem str_eq {b : Chars n} {s : List UInt8}
    (within : ∀ i (h : i < s.length), peek b (p + i) = s[i]) (ends : peek b (p + s.length) = 0)
    (free : 0 ∉ s) : str b p = s :=
  takeWhile_ne_zero (fun i h => by rw [getD_drop, within i h]) (by rw [getD_drop, ends]) free

theorem zero_not_mem_str (b : Chars n) (p : Nat) : 0 ∉ str b p := by
  intro member
  simpa using List.mem_takeWhile_imp member

theorem str_isPrefix (b : Chars n) (p : Nat) : str b p <+: b.toList.drop p :=
  List.takeWhile_prefix _

theorem peek_str (b : Chars n) (p i : Nat) (within : i < (str b p).length) :
    peek b (p + i) = (str b p)[i] := by
  have front := str_isPrefix b p
  rw [← getD_drop, List.getElem?_eq_getElem (Nat.lt_of_lt_of_le within front.length_le),
    Option.getD_some]
  exact (front.getElem within).symm

theorem peek_str_end (b : Chars n) (p : Nat) : peek b (p + (str b p).length) = 0 := by
  have whole : str b p ++ (b.toList.drop p).dropWhile (· != 0) = b.toList.drop p :=
    List.takeWhile_append_dropWhile
  rw [← getD_drop, ← whole, List.getElem?_append_right (Nat.le_refl _), Nat.sub_self]
  cases rest : (b.toList.drop p).dropWhile (· != 0) with
  | nil => rfl
  | cons c l =>
    have stop := List.head_dropWhile_not (· != 0) (l := b.toList.drop p) (by rw [rest]; simp)
    simpa [rest] using stop

theorem str_congr {b c : Chars n} (same : ∀ i, i ≤ (str b p).length → peek c (p + i) = peek b (p + i)) :
    str c p = str b p :=
  str_eq (fun i h => by rw [same i (by omega), peek_str b p i h])
    (by rw [same _ (Nat.le_refl _), peek_str_end]) (zero_not_mem_str b p)

theorem str_store (b : Chars n) {s : List UInt8} (free : 0 ∉ s) (fits : p + s.length < n) :
    str (store b p (s ++ [0])) p = s := by
  refine str_eq (fun i h => ?_) ?_ free
  · rw [peek_store_inside _ _ i (by simp; omega) (by omega), List.getElem_append_left h]
  · rw [peek_store_inside _ _ s.length (by simp) fits]
    simp

/-- A string ends at its first NUL, whatever is stored behind that. -/
theorem str_store_cut (b : Chars n) (s : List UInt8) (fits : p + s.length < n) :
    str (store b p (s ++ [0])) p = s.takeWhile (· != 0) := by
  have shorter : (s.takeWhile (· != 0)).length ≤ s.length := (List.takeWhile_prefix _).length_le
  refine str_eq (fun i h => ?_) ?_ (fun member => by simpa using List.mem_takeWhile_imp member)
  · have inner : i < s.length := by omega
    rw [peek_store_inside _ _ i (by simp; omega) (by omega), List.getElem_append_left inner,
      (List.takeWhile_prefix _).getElem h]
  · rw [peek_store_inside _ _ _ (by simp; omega) (by omega)]
    by_cases inner : (s.takeWhile (· != 0)).length < s.length
    · rw [List.getElem_append_left inner]
      have stops := List.head?_dropWhile_not (· != 0) s
      have behind : s.dropWhile (· != 0) = s.drop (s.takeWhile (· != 0)).length :=
        List.drop_left.symm.trans (congrArg (List.drop _) List.takeWhile_append_dropWhile)
      rw [behind, List.head?_drop, List.getElem?_eq_getElem inner] at stops
      simpa using stops
    · have all : (s.takeWhile (· != 0)).length = s.length := by omega
      simp [all]

theorem str_store_outside (b : Chars n) (s : List UInt8)
    (outside : p + (str b p).length < q ∨ q + s.length ≤ p) :
    str (store b q s) p = str b p :=
  str_congr (fun i h => peek_store_outside b s (by omega))

theorem str_poke_outside (b : Chars n) (c : UInt8)
    (outside : p + (str b p).length < q ∨ q < p) : str (poke b q c) p = str b p :=
  str_congr (fun i h => peek_poke_ne b c (by omega))

theorem str_drop (b : Chars n) (p i : Nat) (within : i ≤ (str b p).length) :
    str b (p + i) = (str b p).drop i := by
  refine str_eq (fun j h => ?_) ?_ (fun member => zero_not_mem_str b p (List.mem_of_mem_drop member))
  · rw [List.length_drop] at h
    rw [Nat.add_assoc, peek_str b p (i + j) (by omega), List.getElem_drop]
  · rw [List.length_drop, Nat.add_assoc, show i + ((str b p).length - i) = (str b p).length by omega,
      peek_str_end]

theorem str_poke_nul (b : Chars n) (p i : Nat) (within : i ≤ (str b p).length) (inside : p + i < n) :
    str (poke b (p + i) 0) p = (str b p).take i := by
  refine str_eq (fun j h => ?_) ?_ (fun member => zero_not_mem_str b p (List.mem_of_mem_take member))
  · rw [List.length_take] at h
    rw [peek_poke_ne _ _ (by omega), peek_str b p j (by omega), List.getElem_take]
  · rw [List.length_take, Nat.min_eq_left within, peek_poke_self _ inside]

theorem str_store_append {b : Chars n} {s l : List UInt8} (content : str b p = s) (free : 0 ∉ l)
    (fits : p + s.length + l.length < n) : str (store b (p + s.length) (l ++ [0])) p = s ++ l := by
  subst content
  refine str_eq (fun i h => ?_) ?_ (fun member => ?_)
  · rw [List.length_append] at h
    by_cases front : i < (str b p).length
    · rw [peek_store_outside _ _ (by omega), peek_str b p i front, List.getElem_append_left front]
    · obtain ⟨j, rfl⟩ : ∃ j, i = (str b p).length + j := ⟨i - (str b p).length, by omega⟩
      rw [← Nat.add_assoc, peek_store_inside _ _ j (by simp; omega) (by omega),
        List.getElem_append_left (by omega), List.getElem_append_right (by omega)]
      simp
  · rw [List.length_append, ← Nat.add_assoc,
      peek_store_inside _ _ l.length (by simp) (by omega)]
    simp
  · rcases List.mem_append.mp member with old | new
    · exact zero_not_mem_str b p old
    · exact free new

theorem strcpy_append {b : Chars n} {s l : List UInt8} (content : str b 0 = s) (free : 0 ∉ l)
    (fits : s.length + l.length < n) : str (strcpy b s.length l) 0 = s ++ l := by
  have := str_store_append (p := 0) content free (by omega)
  rwa [Nat.zero_add] at this

theorem str_poke_store {b : Chars n} {s l : List UInt8} {c : UInt8} (content : str b 0 = s)
    (nonzero : c ≠ 0) (free : 0 ∉ l) (fits : s.length + 1 + l.length < n) :
    str (store (poke b s.length c) (s.length + 1) (l ++ [0])) 0 = s ++ c :: l := by
  have := str_store_append (p := 0) (l := c :: l) content
    (by simpa [Ne.symm nonzero] using free) (by simp; omega)
  simpa [store] using this

theorem str_poke_first (b : Chars n) (inside : p < n) : str (poke b p 0) p = [] := by
  simpa using str_poke_nul b p 0 (Nat.zero_le _) (by omega)

theorem str_eq_nil {b : Chars n} : str b p = [] ↔ peek b p = 0 := by
  constructor
  · intro empty
    simpa [empty] using peek_str_end b p
  · intro first
    exact str_eq (by simp) (by simpa using first) (by simp)

theorem str_eq_cons {b : Chars n} (first : peek b p ≠ 0) :
    str b p = peek b p :: str b (p + 1) := by
  have nonempty : 0 < (str b p).length :=
    List.length_pos_iff.mpr (fun empty => first (str_eq_nil.mp empty))
  have head := peek_str b p 0 nonempty
  rw [str_drop b p 1 nonempty]
  cases content : str b p with
  | nil => simp [content] at nonempty
  | cons c s =>
    simp only [content, Nat.add_zero, List.getElem_cons_zero] at head
    simp [head]

theorem head_str (b : Chars n) (p : Nat) : (str b p).headD 0 = peek b p := by
  by_cases first : peek b p = 0
  · rw [str_eq_nil.mpr first, first]; rfl
  · rw [str_eq_cons first]; rfl

theorem takeWhile_ne_all {l : List UInt8} (absent : c ∉ l) : l.takeWhile (· != c) = l := by
  rw [List.takeWhile_eq_self_iff]
  intro d member
  have : d ≠ c := by
    intro same
    exact absent (same ▸ member)
  simpa using this

theorem takeWhile_ne_append {front : List UInt8} (free : c ∉ front) (back : List UInt8) :
    (front ++ c :: back).takeWhile (· != c) = front := by
  rw [List.takeWhile_append, takeWhile_ne_all free]
  simp

theorem strchr_some {b : Chars n} {front back : List UInt8} (content : str b p = front ++ c :: back)
    (free : c ∉ front) : strchr b p c = some (p + front.length) := by
  have found : peek b (p + front.length) = c := by
    rw [peek_str b p _ (by rw [content]; simp)]
    simp [content]
  simp only [strchr, content, takeWhile_ne_append free, found, if_true]

theorem strchr_none {b : Chars n} (nonzero : c ≠ 0) (absent : c ∉ str b p) :
    strchr b p c = none := by
  simp only [strchr, takeWhile_ne_all absent, peek_str_end, Ne.symm nonzero, if_false]

theorem strrchr_some {b : Chars n} {front back : List UInt8}
    (content : str b p = front ++ c :: back) (nonzero : c ≠ 0) (free : c ∉ back) :
    strrchr b p c = some (p + front.length) := by
  have backwards : (str b p ++ [0]).reverse = (0 :: back.reverse) ++ c :: front.reverse := by
    simp [content]
  have scan : ((0 :: back.reverse) ++ c :: front.reverse).takeWhile (· != c) = 0 :: back.reverse :=
    takeWhile_ne_append (by simp [free, nonzero]) front.reverse
  have size : strlen b p = front.length + (back.length + 1) := by simp [strlen, content]
  simp only [strrchr, backwards, scan, size, List.length_cons, List.length_reverse]
  rw [if_pos (by omega)]
  congr 1
  omega

theorem strrchr_none {b : Chars n} (nonzero : c ≠ 0) (absent : c ∉ str b p) :
    strrchr b p c = none := by
  have scan := takeWhile_ne_all (l := (str b p ++ [0]).reverse) (c := c) (by simp [absent, nonzero])
  simp only [strrchr, scan, strlen, List.length_reverse, List.length_append, List.length_singleton]
  rw [if_neg (by omega)]

end SysHelo.CString
