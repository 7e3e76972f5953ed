import SysHelo.Lib.Stdio
import Mathlib.Tactic.IntervalCases

/-! Numbers as text: `strtoul` with base 0 and `%ld`, for a 64-bit `long`. -/
namespace SysHelo.Numeral
open Stdio

def isspace (c : UInt8) : Bool := c = ' '.toUInt8 || (9 ≤ c && c ≤ 13)

/-- The value of a digit of a base up to 36. -/
def digit (c : UInt8) : Option Nat :=
  if '0'.toUInt8 ≤ c ∧ c ≤ '9'.toUInt8 then some (c.toNat - '0'.toNat)
  else if 'a'.toUInt8 ≤ c ∧ c ≤ 'z'.toUInt8 then some (c.toNat - 'a'.toNat + 10)
  else if 'A'.toUInt8 ≤ c ∧ c ≤ 'Z'.toUInt8 then some (c.toNat - 'A'.toNat + 10)
  else none

/-- The number of the digits a string starts with. -/
def magnitude (base : Nat) : (acc : Nat) → List UInt8 → Nat
  | acc, [] => acc
  | acc, c :: s =>
    match digit c with
    | some d => if d < base then magnitude base (acc * base + d) s else acc
    | none => acc

/-- The base that a prefix asks for. -/
def radix : List UInt8 → Nat × List UInt8
  | [] => (10, [])
  | c :: s =>
    if c = '0'.toUInt8 then
      if s.head? = some 'x'.toUInt8 ∨ s.head? = some 'X'.toUInt8 then (16, s.tail) else (8, s)
    else (10, c :: s)

def sign : List UInt8 → Bool × List UInt8
  | [] => (false, [])
  | c :: s =>
    if c = '-'.toUInt8 then (true, s) else if c = '+'.toUInt8 then (false, s) else (false, c :: s)

/-- `strtoul(s, NULL, 0)`: too large a number gives the largest one, whatever its sign. -/
def strtoul (s : List UInt8) : UInt64 :=
  let (negative, s) := sign (s.dropWhile isspace)
  let (base, s) := radix s
  let n := magnitude base 0 s
  if 2 ^ 64 ≤ n then 0xffffffffffffffff
  else if negative then -UInt64.ofNat n else UInt64.ofNat n

/-- Behind the `0x` that a number in base 16 may start with. -/
def behindHex (s : List UInt8) : List UInt8 :=
  if s.head? = some '0'.toUInt8 ∧ (s.tail.head? = some 'x'.toUInt8 ∨ s.tail.head? =
    some 'X'.toUInt8) then s.drop 2
  else s

/-- `strtol(s, NULL, base)`: too large a number gives the largest one of its sign. -/
def strtol (base : Nat) (s : List UInt8) : Int :=
  let (negative, s) := sign (s.dropWhile isspace)
  let n := magnitude base 0 (if base = 16 then behindHex s else s)
  if negative then max (-2 ^ 63) (-(n : Int)) else min (2 ^ 63 - 1) (n : Int)

def decimal (n : Nat) : List UInt8 := (Nat.toDigits 10 n).map Char.toUInt8

/-- A number with its sign. -/
def signedDecimal (v : Int) : List UInt8 :=
  if v < 0 then '-'.toUInt8 :: decimal v.natAbs else decimal v.natAbs

/-- `"%ld"` on an unsigned argument: from 2^63 on it is taken for a negative number. -/
def formatLong (v : UInt64) : List UInt8 :=
  if v.toNat < 2 ^ 63 then decimal v.toNat else '-'.toUInt8 :: decimal (2 ^ 64 - v.toNat)

/-- `snprintf(s, size, "%ld", v)` -/
def snprintfLong (size : Nat) (v : UInt64) : List UInt8 := (formatLong v).take (size - 1)

example : strtoul (bytes " 0x1F, a") = 31 ∧ strtoul (bytes "017") = 15 ∧ strtoul (bytes "-1") = -1 := by
  decide

/-- A decimal digit. -/
def Decimal (c : UInt8) : Prop := ∃ d, d < 10 ∧ c = d.digitChar.toUInt8

theorem decimal_small {n : Nat} (small : n < 10) : decimal n = [n.digitChar.toUInt8] := by
  rw [decimal, Nat.toDigits_of_lt_base small, List.map_singleton]

theorem decimal_large {n : Nat} (large : 10 ≤ n) :
    decimal n = decimal (n / 10) ++ [(n % 10).digitChar.toUInt8] := by
  rw [decimal, Nat.toDigits_of_base_le (by decide) large, List.map_append, List.map_singleton, decimal]

theorem decimal_digits (n : Nat) : ∀ c ∈ decimal n, Decimal c := by
  induction n using Nat.strongRecOn with
  | ind n ih =>
    intro c member
    by_cases small : n < 10
    · rw [decimal_small small, List.mem_singleton] at member
      exact ⟨n, small, member⟩
    · rw [decimal_large (by omega), List.mem_append, List.mem_singleton] at member
      rcases member with front | last
      · exact ih (n / 10) (by omega) c front
      · exact ⟨n % 10, by omega, last⟩

theorem digit_digitChar {d : Nat} (small : d < 10) : digit d.digitChar.toUInt8 = some d := by
  interval_cases d <;> rfl

theorem magnitude_digit {s : List UInt8} (digits : ∀ c ∈ s, Decimal c) (acc : Nat) {d : Nat}
    (small : d < 10) :
    magnitude 10 acc (s ++ [d.digitChar.toUInt8]) = magnitude 10 acc s * 10 + d := by
  induction s generalizing acc with
  | nil => simp [magnitude, digit_digitChar small, small]
  | cons c s ih =>
    obtain ⟨e, inside, rfl⟩ := digits c (by simp)
    simp only [List.cons_append, magnitude, digit_digitChar inside, if_pos inside]
    exact ih (fun c member => digits c (by simp [member])) _

theorem magnitude_decimal (n : Nat) : magnitude 10 0 (decimal n) = n := by
  induction n using Nat.strongRecOn with
  | ind n ih =>
    by_cases small : n < 10
    · simp [decimal_small small, magnitude, digit_digitChar small, small]
    · rw [decimal_large (by omega), magnitude_digit (decimal_digits _) 0 (by omega), ih _ (by omega)]
      omega

theorem decimal_head {n : Nat} (positive : 0 < n) :
    ∃ d s, 0 < d ∧ d < 10 ∧ decimal n = d.digitChar.toUInt8 :: s := by
  induction n using Nat.strongRecOn with
  | ind n ih =>
    by_cases small : n < 10
    · exact ⟨n, [], positive, small, decimal_small small⟩
    · obtain ⟨d, s, nonzero, inside, shape⟩ := ih (n / 10) (by omega) (by omega)
      refine ⟨d, s ++ [(n % 10).digitChar.toUInt8], nonzero, inside, ?_⟩
      rw [decimal_large (by omega), shape, List.cons_append]

theorem radix_decimal {n : Nat} (positive : 0 < n) : radix (decimal n) = (10, decimal n) := by
  obtain ⟨d, s, nonzero, inside, shape⟩ := decimal_head positive
  have first : d.digitChar.toUInt8 ≠ '0'.toUInt8 := by
    interval_cases d <;> decide
  rw [shape, radix, if_neg first]

/-- What is printed has no characters that a sign, a blank or a comment starts with. -/
theorem formatLong_chars (v : UInt64) : ∀ c ∈ formatLong v, c = '-'.toUInt8 ∨ Decimal c := by
  intro c member
  unfold formatLong at member
  split at member
  · exact .inr (decimal_digits _ c member)
  · rcases List.mem_cons.mp member with minus | rest
    · exact .inl minus
    · exact .inr (decimal_digits _ c rest)

theorem decimal_length {n : Nat} (bound : n < 10 ^ 20) : (decimal n).length ≤ 20 := by
  rw [decimal, List.length_map]
  exact (Nat.length_toDigits_le_iff (by decide) (by decide)).mpr bound

theorem formatLong_length (v : UInt64) : (formatLong v).length ≤ 21 := by
  have bound := v.toNat_lt
  unfold formatLong
  split
  · have := decimal_length (n := v.toNat) (by omega)
    omega
  · have := decimal_length (n := 2 ^ 64 - v.toNat) (by omega)
    rw [List.length_cons]
    omega

theorem formatLong_ne_nil (v : UInt64) : formatLong v ≠ [] := by
  unfold formatLong
  split
  · rw [decimal, ne_eq, List.map_eq_nil_iff]
    exact Nat.toDigits_ne_nil
  · simp

theorem snprintfLong_eq (v : UInt64) (size : Nat) (enough : 22 ≤ size) :
    snprintfLong size v = formatLong v := by
  have := formatLong_length v
  exact List.take_of_length_le (by omega)

theorem sign_decimal {n : Nat} (positive : 0 < n) : sign (decimal n) = (false, decimal n) := by
  obtain ⟨d, s, -, inside, shape⟩ := decimal_head positive
  have minus : d.digitChar.toUInt8 ≠ '-'.toUInt8 := by interval_cases d <;> decide
  have plus : d.digitChar.toUInt8 ≠ '+'.toUInt8 := by interval_cases d <;> decide
  rw [shape, sign, if_neg minus, if_neg plus]

theorem dropWhile_decimal {n : Nat} (positive : 0 < n) :
    (decimal n).dropWhile isspace = decimal n := by
  obtain ⟨d, s, -, inside, shape⟩ := decimal_head positive
  have first : isspace d.digitChar.toUInt8 = false := by interval_cases d <;> decide
  rw [shape, List.dropWhile_cons_of_neg (by simp [first])]

/-- Every positive value is read as it was printed, also where it was printed as negative. -/
theorem strtoul_formatLong {v : UInt64} (positive : 0 < v) : strtoul (formatLong v) = v := by
  have bound := v.toNat_lt
  have nonzero : 0 < v.toNat := positive
  unfold formatLong
  split
  · rename_i small
    simp only [strtoul, dropWhile_decimal nonzero, sign_decimal nonzero, radix_decimal nonzero,
      magnitude_decimal, if_neg (Nat.not_le.mpr bound), Bool.false_eq_true, if_false]
    exact UInt64.ofNat_toNat
  · rename_i large
    have rest : 0 < 2 ^ 64 - v.toNat := by omega
    have minus : ('-'.toUInt8 :: decimal (2 ^ 64 - v.toNat)).dropWhile isspace =
        '-'.toUInt8 :: decimal (2 ^ 64 - v.toNat) := List.dropWhile_cons_of_neg (by decide)
    simp only [strtoul, minus, sign, if_true, radix_decimal rest, magnitude_decimal,
      if_neg (show ¬ 2 ^ 64 ≤ 2 ^ 64 - v.toNat by omega)]
    rw [← UInt64.toNat_inj, UInt64.toNat_neg, UInt64.toNat_ofNat']
    change (2 ^ 64 - (2 ^ 64 - v.toNat) % 2 ^ 64) % 2 ^ 64 = v.toNat
    omega

theorem signedDecimal_chars (v : Int) : ∀ c ∈ signedDecimal v, c = '-'.toUInt8 ∨ Decimal c := by
  intro c member
  unfold signedDecimal at member
  split at member
  · rcases List.mem_cons.mp member with minus | rest
    · exact .inl minus
    · exact .inr (decimal_digits _ c rest)
  · exact .inr (decimal_digits _ c member)

theorem signedDecimal_length {v : Int} (bound : v.natAbs < 10 ^ 20) : (signedDecimal v).length ≤ 21 := by
  have digits := decimal_length bound
  unfold signedDecimal
  split
  · rw [List.length_cons]
    omega
  · omega

theorem decimal_ne_nil (n : Nat) : decimal n ≠ [] := by
  rw [decimal, ne_eq, List.map_eq_nil_iff]
  exact Nat.toDigits_ne_nil

/-- Every 64-bit number is read as it was printed. -/
theorem strtol_signedDecimal {v : Int} (low : -2 ^ 63 ≤ v) (high : v < 2 ^ 63) :
    strtol 10 (signedDecimal v) = v := by
  unfold signedDecimal
  split
  · rename_i negative
    have minus : ('-'.toUInt8 :: decimal v.natAbs).dropWhile isspace = '-'.toUInt8 :: decimal v.natAbs :=
      List.dropWhile_cons_of_neg (by decide)
    simp only [strtol, minus, sign, if_true, magnitude_decimal, Nat.reduceEqDiff, if_false]
    omega
  · rename_i natural
    have shape : (decimal v.natAbs).dropWhile isspace = decimal v.natAbs ∧
        sign (decimal v.natAbs) = (false, decimal v.natAbs) := by
      by_cases zero : v.natAbs = 0
      · rw [zero]
        decide
      · exact ⟨dropWhile_decimal (by omega), sign_decimal (by omega)⟩
    simp only [strtol, shape.1, shape.2, magnitude_decimal, Nat.reduceEqDiff, if_false, Bool.false_eq_true]
    omega

end SysHelo.Numeral
