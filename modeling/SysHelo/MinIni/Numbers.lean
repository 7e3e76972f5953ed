import SysHelo.MinIni.Requests

/-! Numbers as settings: `ini_putl` and what `ini_getl` reads afterwards. -/
namespace SysHelo.MinIni
open CString Stdio Lines Loop Sections Numeral

/-- `for (…; i < j; i++, j--)` of `strreverse`. -/
def strreverseFrom (b : Chars n) (i j : Nat) : Chars n :=
  if i < j then
    let t := peek b i
    strreverseFrom (poke (poke b i (peek b j)) j t) (i + 1) (j - 1)
  else b
  termination_by j - i

def strreverse (b : Chars n) : Chars n := strreverseFrom b 0 (strlen b 0 - 1)

/-- The digits from the last one on, and the index behind them; `/` and `%` cut towards zero. -/
def digitsReversed (b : Chars n) (i : Nat) (value : Int) : Chars n × Nat :=
  let b := poke b i (UInt8.ofNat ((value.tmod 10).natAbs + '0'.toNat))
  if value.tdiv 10 ≠ 0 then digitsReversed b (i + 1) (value.tdiv 10) else (b, i + 1)
  termination_by value.natAbs
  decreasing_by
    rename_i more
    rw [Int.natAbs_tdiv]
    have : value ≠ 0 := by
      rintro rfl
      exact more rfl
    exact Nat.div_lt_self (Int.natAbs_pos.mpr this) (by decide)

def long2str (b : Chars n) (value : Int) : Chars n :=
  let digits := digitsReversed b 0 value
  let (b, i) := if value < 0 then (poke digits.1 digits.2 '-'.toUInt8, digits.2 + 1) else digits
  strreverse (poke b i 0)

/-- `ini_putl`, for a 64-bit `long`. -/
def iniPutl (stack inner : Chars INI_BUFFERSIZE) (localBuffer : Chars 32) (o : Outcomes) (fopenUpdate : Bool)
    (sectionName key : Option (List UInt8)) (value : Int) (filename : Path) (files : Files) :
    Program (Files × Bool) :=
  iniPuts stack inner o fopenUpdate sectionName key (some (str (long2str localBuffer value) 0)) filename files

theorem digit_byte {d : Nat} (small : d < 10) : UInt8.ofNat (d + '0'.toNat) = d.digitChar.toUInt8 := by
  interval_cases d <;> rfl

theorem digitsReversed_eq (b : Chars n) (i : Nat) (value : Int) :
    digitsReversed b i value =
      (store b i (decimal value.natAbs).reverse, i + (decimal value.natAbs).length) := by
  induction b, i, value using digitsReversed.induct with
  | case1 b i value b' more ih =>
    have large : 10 ≤ value.natAbs := by
      by_contra small
      exact more (Int.natAbs_eq_zero.mp
        (by rw [Int.natAbs_tdiv]; exact Nat.div_eq_of_lt (by simpa using small)))
    have last : (value.tmod 10).natAbs = value.natAbs % 10 := Int.natAbs_tmod value 10
    have front : (value.tdiv 10).natAbs = value.natAbs / 10 := Int.natAbs_tdiv value 10
    rw [digitsReversed, if_pos more, ih, front, decimal_large large, List.reverse_concat, store,
      List.length_append,
      List.length_singleton, ← digit_byte (Nat.mod_lt _ (by decide)), ← last]
    congr 1
    omega
  | case2 b i value ended =>
    have small : value.natAbs < 10 := by
      rw [not_not] at ended
      have zero := congrArg Int.natAbs ended
      rw [Int.natAbs_tdiv] at zero
      exact Nat.lt_of_div_eq_zero (by decide) zero
    have last : (value.tmod 10).natAbs = value.natAbs := by
      rw [Int.natAbs_tmod]
      exact Nat.mod_eq_of_lt small
    rw [digitsReversed, if_neg ended, decimal_small small, last, digit_byte small]
    rfl

theorem peek_strreverseFrom (b : Chars n) (i j : Nat) (inside : j < n) (k : Nat) :
    peek (strreverseFrom b i j) k = if i ≤ k ∧ k ≤ j then peek b (i + j - k) else peek b k := by
  induction b, i, j using strreverseFrom.induct with
  | case1 b i j less t ih =>
    rw [strreverseFrom, if_pos less, ih (by omega)]
    simp only [peek_poke]
    by_cases first : k = i
    · subst first
      have mirror : k + j - k = j := by omega
      rw [if_neg (by omega), if_neg (by omega), if_pos ⟨rfl, by omega⟩, if_pos ⟨le_rfl, by omega⟩, mirror]
    by_cases last : k = j
    · subst last
      have mirror : i + k - k = i := by omega
      rw [if_neg (by omega), if_pos ⟨rfl, inside⟩, if_pos ⟨by omega, le_rfl⟩, mirror]
    · by_cases between : i ≤ k ∧ k ≤ j
      · have mirror : i + 1 + (j - 1) - k = i + j - k := by omega
        rw [if_pos (by omega), if_pos between, mirror, if_neg (by omega), if_neg (by omega)]
      · rw [if_neg (by omega), if_neg between, if_neg (by omega), if_neg (by omega)]
  | case2 b i j done =>
    rw [strreverseFrom, if_neg done]
    split
    · have same : i + j - k = k := by omega
      rw [same]
    · rfl

theorem str_strreverse (b : Chars n) (terminated : (str b 0).length < n) :
    str (strreverse b) 0 = (str b 0).reverse := by
  have inside : strlen b 0 - 1 < n := by
    rw [strlen]
    omega
  apply str_eq
  · intro i within
    rw [List.length_reverse] at within
    rw [strreverse, peek_strreverseFrom b 0 _ inside, strlen, if_pos (by omega), List.getElem_reverse,
      ← peek_str b 0 _ (by omega)]
    congr 1
    omega
  · rw [List.length_reverse, strreverse, peek_strreverseFrom b 0 _ inside]
    split
    · rename_i within
      rw [strlen] at within ⊢
      have empty : (str b 0).length = 0 := by omega
      have ends := peek_str_end b 0
      rw [empty] at ends ⊢
      exact ends
    · exact peek_str_end b 0
  · intro member
    exact zero_not_mem_str b 0 (List.mem_reverse.mp member)

theorem store_append (b : Chars n) (p : Nat) (s l : List UInt8) :
    store b p (s ++ l) = store (store b p s) (p + s.length) l := by
  induction s generalizing b p with
  | nil => rfl
  | cons c s ih =>
    rw [List.cons_append, store, store, ih, List.length_cons]
    congr 1
    omega

theorem decimal_nonzero {c : UInt8} (digit : Decimal c) : c ≠ 0 := by
  obtain ⟨d, small, rfl⟩ := digit
  interval_cases d <;> decide

theorem long2str_eq (b : Chars n) {value : Int} (bound : value.natAbs < 10 ^ 20) (room : 22 ≤ n) :
    str (long2str b value) 0 = signedDecimal value := by
  have digits := decimal_length bound
  have nonzero : 0 ∉ (decimal value.natAbs).reverse := by
    intro member
    exact decimal_nonzero (decimal_digits _ 0 (List.mem_reverse.mp member)) rfl
  unfold long2str signedDecimal
  rw [digitsReversed_eq]
  by_cases negative : value < 0
  · have minus : (0 : UInt8) ≠ '-'.toUInt8 := by decide
    have whole : str (store b 0 (((decimal value.natAbs).reverse ++ ['-'.toUInt8]) ++ [0])) 0 =
        (decimal value.natAbs).reverse ++ ['-'.toUInt8] :=
      str_store b (by simp [nonzero, minus]) (by simp; omega)
    have content := str_strreverse (store b 0 (((decimal value.natAbs).reverse ++ ['-'.toUInt8]) ++ [0]))
      (by rw [whole]; simp; omega)
    rw [whole] at content
    simpa [negative, store_append, store] using content
  · have whole : str (store b 0 ((decimal value.natAbs).reverse ++ [0])) 0 = (decimal value.natAbs).reverse :=
      str_store b nonzero (by simp; omega)
    have content := str_strreverse (store b 0 ((decimal value.natAbs).reverse ++ [0]))
      (by rw [whole]; simp; omega)
    rw [whole] at content
    simpa [negative, store_append, store] using content

theorem signedDecimal_byte {value : Int} {c : UInt8} (member : c ∈ signedDecimal value) :
    ¬ blank c ∧ c ≠ newline ∧ c ≠ 0 ∧ c ≠ '"'.toUInt8 ∧ c ≠ ';'.toUInt8 ∧ c ≠ '#'.toUInt8 ∧
      upcase c ≠ 'X'.toUInt8 := by
  rcases signedDecimal_chars value c member with rfl | ⟨d, small, rfl⟩
  · decide
  · interval_cases d <;> decide

theorem checkEnquote_number (value : Int) : checkEnquote (signedDecimal value) = .none := by
  unfold checkEnquote
  rw [if_neg]
  rintro (special | trailing)
  · obtain ⟨c, member, quote⟩ := List.any_eq_true.mp special
    obtain ⟨-, -, -, quotes, semicolon, hash, -⟩ := signedDecimal_byte member
    simp [quotes, semicolon, hash] at quote
  · exact (signedDecimal_byte (List.mem_of_getLast? trailing)).1 (by decide)

theorem readBack_number (value : Int) : readBack (signedDecimal value) = signedDecimal value := by
  rw [readBack_iff]
  right
  constructor
  · rw [ltrim, List.dropWhile_eq_self_iff]
    intro nonempty
    exact (signedDecimal_byte (List.getElem_mem nonempty)).1
  · rw [rtrim, List.rdropWhile_eq_self_iff]
    intro nonempty
    exact (signedDecimal_byte (List.getLast_mem nonempty)).1

/-- A key that a number can be put under: there is room for every number behind it. -/
structure NumberKey (key : List UInt8) : Prop where
  legible : LegibleKey key
  free : 0 ∉ key
  fits : key.length + 26 ≤ INI_BUFFERSIZE

theorem legible_number {name : Option (List UInt8)} (named : ∀ n, name = some n → LegibleName n)
    {key : List UInt8} (given : NumberKey key) {value : Int} (bound : value.natAbs < 10 ^ 20) :
    IniRequest.Legible (.put name key (signedDecimal value)) := by
  have short := signedDecimal_length bound
  have fits := given.fits
  have plain := checkEnquote_number value
  refine ⟨named, ⟨given.legible, ?_, given.free, ?_, ?_⟩, readBack_number value⟩
  · exact fun member => (signedDecimal_byte member).2.1 rfl
  · exact fun member => (signedDecimal_byte member).2.2.1 rfl
  · rw [quoted, plain, if_neg (by decide)]
    omega

section Numbers
variable {sectionName : Option (List UInt8)} {key : List UInt8} {filename : Path} {files : Files}

/-- Every 64-bit number is read as it was put, the lowest one too. -/
theorem iniPutl_getl (free : ∀ text ∈ files filename, 0 ∉ text) (named : Filename filename)
    (legible : ∀ n, sectionName = some n → LegibleName n) (given : NumberKey key) {value : Int}
    (low : -2 ^ 63 ≤ value) (high : value < 2 ^ 63) (stack inner : Chars INI_BUFFERSIZE)
      (localBuffer : Chars 32) :
    ∃ files', Returns (iniPutl stack inner localBuffer .ok true sectionName (some key) value filename files)
        (files', true) ∧
      ∀ (stack : Chars INI_BUFFERSIZE) (defValue : Int) (localBuffer : Chars 64),
        iniGetl stack sectionName (some key) defValue localBuffer
          (Files.fopenRead .ok files' filename) = value := by
  have bound : value.natAbs < 10 ^ 20 := by omega
  have request := legible_number legible given bound
  obtain ⟨files', returns, content, -⟩ := iniPuts_spec rfl free named request.putting stack inner
  have printed := long2str_eq localBuffer bound (by decide)
  change files' filename = putContent sectionName (some key) (some (signedDecimal value))
    (files filename) at content
  have after : ∀ text ∈ putContent sectionName (some key) (some (signedDecimal value))
      (files filename), 0 ∉ text :=
    putContent_free request free
  have there := putContent_put request (files filename)
  rw [← content] at after there
  refine ⟨files', by rw [iniPutl, printed]; exact returns, fun stack defValue localBuffer => ?_⟩
  have pointer : sectionOf sectionName = sectionName := request.sectionOf
  have read := iniGets_content (by decide) le_rfl after stack sectionName given.legible.named
    (show (0 : UInt8) ∉ (some ([] : List UInt8)).getD [] by simp) localBuffer
  have short := signedDecimal_length bound
  rw [pointer, there, Option.getD_some, List.take_of_length_le (by omega)] at read
  obtain ⟨text, size⟩ := read
  have nonempty : signedDecimal value ≠ [] := by
    unfold signedDecimal
    split
    · simp
    · exact decimal_ne_nil _
  have some_digit : (signedDecimal value).length ≠ 0 := by simpa using nonempty
  have second (long : 2 ≤ (signedDecimal value).length) :
      upcase (peek (iniGets stack sectionName (some key) (some []) localBuffer 64
        (Files.fopenRead .ok files' filename)).1 1) ≠ 'X'.toUInt8 := by
    have inside : 1 < (str (iniGets stack sectionName (some key) (some []) localBuffer 64
        ((files' filename).map (⟨·, 0⟩))).1 0).length := by
      rw [text]
      omega
    have byte := peek_str _ 0 1 inside
    rw [Nat.zero_add] at byte
    have member := List.getElem_mem inside
    rw [← byte, text] at member
    exact (signedDecimal_byte member).2.2.2.2.2.2
  have opened : Files.fopenRead .ok files' filename = (files' filename).map (⟨·, 0⟩) := rfl
  rw [opened] at second ⊢
  simp only [iniGetl, size, some_digit, if_false]
  rw [if_neg (fun both => second both.1 both.2), text, strtol_signedDecimal low high]

end Numbers

theorem iniPutl_getl_lowest : ∃ files',
    Returns (iniPutl (.replicate _ 0) (.replicate _ 0) (.replicate _ 0) .ok true (some (bytes "S"))
      (some (bytes "a"))
      (-2 ^ 63) (bytes "x.ini") fun _ => some (bytes "[S]\n")) (files', true) ∧
    iniGetl (.replicate _ 0) (some (bytes "S")) (some (bytes "a")) 0 (.replicate _ 0)
      (Files.fopenRead .ok files' (bytes "x.ini")) = -2 ^ 63 := by
  have named : Filename (bytes "x.ini") := by decide
  have free : ∀ text ∈ some (bytes "[S]\n"), 0 ∉ text := by simp; decide
  have legible : ∀ n, some (bytes "S") = some n → LegibleName n := by
    intro n same
    obtain rfl := Option.some.inj same
    decide
  have given : NumberKey (bytes "a") := ⟨by decide, by decide, by decide⟩
  obtain ⟨files', returns, gets⟩ := @iniPutl_getl _ _ _ (fun _ => some (bytes "[S]\n")) free named
    legible given
    (-2 ^ 63) le_rfl (by decide) (.replicate _ 0) (.replicate _ 0) (.replicate _ 0)
  exact ⟨files', returns, gets _ _ _⟩

/-- What a value counts as, from its first character. -/
def truth (value : List UInt8) (defValue : Int) : Int :=
  let first := upcase (value.headD 0)
  if first = 'Y'.toUInt8 ∨ first = '1'.toUInt8 ∨ first = 'T'.toUInt8 then 1
  else if first = 'N'.toUInt8 ∨ first = '0'.toUInt8 ∨ first = 'F'.toUInt8 then 0
  else defValue

/-- `ini_getbool` reads the table of the file, and only the first character of a value. -/
theorem iniGetbool_content {content : Option (List UInt8)} (free : ∀ text ∈ content, 0 ∉ text)
    (stack : Chars INI_BUFFERSIZE) (sectionName : Option (List UInt8)) {key : List UInt8} (given : key ≠ [])
    (defValue : Int) : iniGetbool stack sectionName (some key) defValue (content.map (⟨·, 0⟩)) =
      truth ((contentTable content (sectionOf sectionName) key).getD []) defValue := by
  have read := iniGets_content (by decide) le_rfl free stack sectionName given
    (show (0 : UInt8) ∉ (some ([] : List UInt8)).getD [] by simp) (Vector.replicate 2 0)
  have first : peek (iniGets stack sectionName (some key) (some []) (Vector.replicate 2 0) 2
      (content.map (⟨·, 0⟩))).1 0 = ((contentTable content (sectionOf sectionName) key).getD []).headD 0 := by
    rw [← head_str, read.1, Option.getD_some]
    cases (contentTable content (sectionOf sectionName) key).getD [] <;> rfl
  unfold iniGetbool truth
  rw [← first]

end SysHelo.MinIni
