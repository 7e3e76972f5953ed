import Mathlib.Data.List.GetD
import Mathlib.Data.Nat.Digits.Defs

/-! Memory as a byte at every address, and the numbers in it, with their lowest byte first. -/
namespace SysHelo

abbrev Memory := Nat → UInt8

namespace Memory
variable {mem mem' : Memory} {start : Nat}

/-- So many bytes from an address on. -/
def load (mem : Memory) (start : Nat) : Nat → List UInt8
  | 0 => []
  | size + 1 => mem start :: mem.load (start + 1) size

def store (mem : Memory) (start : Nat) (s : List UInt8) : Memory := fun i =>
  if start ≤ i then s.getD (i - start) (mem i) else mem i

@[simp] theorem length_load (size : Nat) : (mem.load start size).length = size := by
  induction size generalizing start with
  | zero => rfl
  | succ size ih => rw [load, List.length_cons, ih]

@[simp] theorem getElem_load {size i : Nat} (below : i < (mem.load start size).length) :
    (mem.load start size)[i] = mem (start + i) := by
  induction size generalizing start i with
  | zero => simp [load] at below
  | succ size ih =>
    cases i with
    | zero => rfl
    | succ i =>
      simp only [load, List.getElem_cons_succ, ih]
      congr 1
      omega

theorem load_eq {s : List UInt8} (same : ∀ i (h : i < s.length), mem (start + i) = s[i]) :
    mem.load start s.length = s := by
  apply List.ext_getElem (length_load _)
  intro i below inside
  rw [getElem_load, same i inside]

theorem load_congr {size : Nat} (same : ∀ i, i < size → mem (start + i) = mem' (start + i)) :
    mem.load start size = mem'.load start size := by
  apply List.ext_getElem (by simp)
  intro i below inside
  rw [getElem_load, getElem_load, same i (by simpa using below)]

theorem load_shift (start' size : Nat) :
    load (fun i => mem (start + i)) start' size = mem.load (start + start') size := by
  apply List.ext_getElem (by simp)
  intro i below inside
  rw [getElem_load, getElem_load, Nat.add_assoc]

theorem load_add (size size' : Nat) :
    mem.load start (size + size') = mem.load start size ++ mem.load (start + size) size' := by
  induction size generalizing start with
  | zero => rw [Nat.zero_add]; rfl
  | succ size ih => rw [Nat.succ_add, load, load, ih, List.cons_append, Nat.add_assoc, Nat.add_comm 1]

theorem store_inside {s : List UInt8} {i : Nat} (inside : i < s.length) :
    mem.store start s (start + i) = s[i] := by
  rw [store, if_pos (Nat.le_add_right ..), Nat.add_sub_cancel_left, List.getD_eq_getElem _ _ inside]

theorem store_outside {s : List UInt8} {i : Nat} (outside : i < start ∨ start + s.length ≤ i) :
    mem.store start s i = mem i := by
  unfold store
  split
  · exact List.getD_eq_default _ _ (by omega)
  · rfl

/-- What is stored over a byte does not depend on it. -/
theorem store_congr {i : Nat} {s : List UInt8}
    (same : start ≤ i ∧ i < start + s.length ∨ mem i = mem' i) : mem.store start s i = mem'.store start s i := by
  rcases same with ⟨above, below⟩ | same
  · obtain ⟨n, rfl⟩ := Nat.exists_eq_add_of_le above
    rw [store_inside (by omega), store_inside (by omega)]
  · unfold store
    rw [same]

theorem load_store (front s back : List UInt8) :
    (mem.store start (front ++ s ++ back)).load (start + front.length) s.length = s := by
  apply load_eq
  intro i inside
  rw [Nat.add_assoc, store_inside (by simp; omega)]
  simp [inside]

theorem load_store_outside {s : List UInt8} {start' size : Nat}
    (outside : start' + size ≤ start ∨ start + s.length ≤ start') :
    (mem.store start s).load start' size = mem.load start' size := by
  apply load_congr
  intro i below
  exact store_outside (by omega)

end Memory

/-! Numbers in bytes. -/

def littleEndian : (width n : Nat) → List UInt8
  | 0, _ => []
  | width + 1, n => UInt8.ofNat n :: littleEndian width (n / 256)

def number (s : List UInt8) : Nat := Nat.ofDigits 256 (s.map UInt8.toNat)

@[simp] theorem length_littleEndian (width n : Nat) : (littleEndian width n).length = width := by
  induction width generalizing n with
  | zero => rfl
  | succ width ih => rw [littleEndian, List.length_cons, ih]

theorem number_cons (c : UInt8) (s : List UInt8) : number (c :: s) = c.toNat + 256 * number s := by
  rw [number, List.map_cons, Nat.ofDigits_cons]
  rfl

theorem number_lt (s : List UInt8) : number s < 256 ^ s.length := by
  have bound := Nat.ofDigits_lt_base_pow_length (b := 256) (l := s.map UInt8.toNat) (by decide) (by
    intro x member
    obtain ⟨c, -, rfl⟩ := List.mem_map.mp member
    exact c.toNat_lt)
  rwa [List.length_map] at bound

theorem number_littleEndian {width n : Nat} (fits : n < 256 ^ width) : number (littleEndian width n) = n := by
  induction width generalizing n with
  | zero =>
    have : n = 0 := by simpa using fits
    rw [this]
    rfl
  | succ width ih =>
    have smaller : n / 256 < 256 ^ width := Nat.div_lt_of_lt_mul (by rwa [Nat.pow_succ'] at fits)
    rw [littleEndian, number_cons, ih smaller, UInt8.toNat_ofNat']
    exact Nat.mod_add_div n 256

theorem littleEndian_add (width width' n : Nat) :
    littleEndian (width + width') n = littleEndian width n ++ littleEndian width' (n / 256 ^ width) := by
  induction width generalizing n with
  | zero => rw [Nat.zero_add, Nat.pow_zero, Nat.div_one]; rfl
  | succ width ih =>
    rw [Nat.succ_add, littleEndian, littleEndian, ih, List.cons_append, Nat.div_div_eq_div_mul,
      ← Nat.pow_succ']

theorem littleEndian_widen {width n : Nat} (fits : n < 256 ^ width) (width' : Nat) :
    littleEndian width n ++ littleEndian width' 0 = littleEndian (width + width') n := by
  rw [littleEndian_add, Nat.div_eq_of_lt fits]

theorem number_append (s s' : List UInt8) : number (s ++ s') = number s + 256 ^ s.length * number s' := by
  rw [number, List.map_append, Nat.ofDigits_append, List.length_map]
  rfl

namespace Memory

def loadU32 (mem : Memory) (start : Nat) : UInt32 := .ofNat (number (mem.load start 4))

def loadU64 (mem : Memory) (start : Nat) : UInt64 := .ofNat (number (mem.load start 8))

variable {mem : Memory} {start : Nat}

theorem toNat_loadU32 : (mem.loadU32 start).toNat = number (mem.load start 4) := by
  have bound := number_lt (mem.load start 4)
  rw [length_load] at bound
  rw [loadU32, UInt32.toNat_ofNat']
  exact Nat.mod_eq_of_lt bound

theorem toNat_loadU64 : (mem.loadU64 start).toNat = number (mem.load start 8) := by
  have bound := number_lt (mem.load start 8)
  rw [length_load] at bound
  rw [loadU64, UInt64.toNat_ofNat']
  exact Nat.mod_eq_of_lt bound

theorem toNat_loadU64_halves :
    (mem.loadU64 start).toNat = (mem.loadU32 start).toNat + 2 ^ 32 * (mem.loadU32 (start + 4)).toNat := by
  have halves := number_append (mem.load start 4) (mem.load (start + 4) 4)
  rw [← load_add 4 4, length_load] at halves
  have base : 256 ^ 4 = 2 ^ 32 := by decide
  rw [toNat_loadU64, toNat_loadU32, toNat_loadU32, halves, base]

theorem toUInt32_loadU64 : (mem.loadU64 start).toUInt32 = mem.loadU32 start := by
  rw [← UInt32.toNat_inj, UInt64.toNat_toUInt32, toNat_loadU64_halves, Nat.add_mul_mod_self_left]
  exact Nat.mod_eq_of_lt (mem.loadU32 start).toNat_lt

theorem loadU32_of_load {v : UInt32} (bytes : mem.load start 4 = littleEndian 4 v.toNat) :
    mem.loadU32 start = v := by
  rw [← UInt32.toNat_inj, toNat_loadU32, bytes, number_littleEndian v.toNat_lt]

theorem loadU64_of_load {v : UInt64} (bytes : mem.load start 8 = littleEndian 8 v.toNat) :
    mem.loadU64 start = v := by
  rw [← UInt64.toNat_inj, toNat_loadU64, bytes, number_littleEndian v.toNat_lt]

end Memory

end SysHelo
