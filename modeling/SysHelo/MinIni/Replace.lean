import SysHelo.MinIni.Format

/-! Replacing a section of a text: what is before its header, the new section, and what
comes from the next line that begins with `[` on. -/
namespace SysHelo.MinIni
open Stdio Lines

/-- A header of the section, ignoring ASCII case. -/
def isHead (sectionName line : List UInt8) : Bool :=
  match parseLine line with
  | .header name => name.map upcase = sectionName.map upcase
  | _ => false

/-- The first non-blank character is `[`, closed or not. -/
def opensSection (line : List UInt8) : Bool := (ltrim line).head? = some '['.toUInt8

def HasSection (sectionName text : List UInt8) : Prop :=
  ∃ line ∈ lines newline text, isHead sectionName line

instance (sectionName text : List UInt8) : Decidable (HasSection sectionName text) :=
  inferInstanceAs (Decidable (∃ line ∈ lines newline text, _))

def linesBefore (sectionName : List UInt8) (ls : List (List UInt8)) : List (List UInt8) :=
  ls.takeWhile fun line => !isHead sectionName line

/-- The first header of the section and everything after it. -/
def linesFrom (sectionName : List UInt8) (ls : List (List UInt8)) : List (List UInt8) :=
  ls.dropWhile fun line => !isHead sectionName line

/-- From the next section on. -/
def dropBody (ls : List (List UInt8)) : List (List UInt8) :=
  ls.dropWhile fun line => !opensSection line

def linesAfter (sectionName : List UInt8) (ls : List (List UInt8)) : List (List UInt8) :=
  dropBody (linesFrom sectionName ls).tail

theorem dropBody_opens {line : List UInt8} {ls rest : List (List UInt8)}
    (split : dropBody ls = line :: rest) : opensSection line := by
  have opens := List.head?_dropWhile_not (fun line => !opensSection line) ls
  unfold dropBody at split
  rw [split] at opens
  simpa using opens

theorem linesAfter_isSuffix (sectionName : List UInt8) (ls : List (List UInt8)) :
    linesAfter sectionName ls <:+ ls :=
  (List.dropWhile_suffix _).trans ((List.tail_suffix _).trans (List.dropWhile_suffix _))

/-- The text above the section's first header. -/
def before (sectionName text : List UInt8) : List UInt8 :=
  (linesBefore sectionName (lines newline text)).flatten

/-- The text below the section. -/
def after (sectionName text : List UInt8) : List UInt8 :=
  (linesAfter sectionName (lines newline text)).flatten

/-- How many blanks a line starts with. -/
def margin (line : List UInt8) : Nat := (line.takeWhile blank).length

/-- The section's first header is the last line of the text, and it is indented. -/
def IndentedLast (sectionName text : List UInt8) : Prop :=
  ∃ head, linesFrom sectionName (lines newline text) = [head] ∧ 0 < margin head

instance (sectionName text : List UInt8) : Decidable (IndentedLast sectionName text) :=
  match split : linesFrom sectionName (lines newline text) with
  | [head] => decidable_of_iff (0 < margin head) (by simp [IndentedLast, split])
  | [] => isFalse (by simp [IndentedLast, split])
  | _ :: _ :: _ => isFalse (by simp [IndentedLast, split])

def keyLine (setting : List UInt8 × List UInt8) : List UInt8 :=
  setting.1 ++ '='.toUInt8 :: setting.2 ++ [newline]

/-- A section as it is written: nothing at all when it has no settings. -/
def sectionText (sectionName : List UInt8) (settings : List (List UInt8 × List UInt8)) : List UInt8 :=
  if settings = [] then []
  else '['.toUInt8 :: sectionName ++ [']'.toUInt8, newline] ++ (settings.map keyLine).flatten ++ [newline]

/-- The strings a section is written with. -/
def sectionLog (sectionName : List UInt8) (settings : List (List UInt8 × List UInt8)) :
    List (List UInt8) :=
  if settings = [] then []
  else ('['.toUInt8 :: sectionName ++ [']'.toUInt8, newline]) :: settings.map keyLine ++ [[newline]]

/-- The section is replaced where its first header is. A text without one gets it at the end,
behind a newline when the text does not end with one, and sometimes when it does. -/
structure Replaced (sectionName : List UInt8) (settings : List (List UInt8 × List UInt8))
    (text out : List UInt8) : Prop where
  found : HasSection sectionName text →
    out = before sectionName text ++ sectionText sectionName settings ++ after sectionName text
  missing : ¬ HasSection sectionName text →
    ∃ n, out = text ++ n ++ sectionText sectionName settings ∧
      (n = [newline] ∨ n = [] ∧ text.getLast? = some newline)

theorem flatten_sectionLog (sectionName : List UInt8) (settings : List (List UInt8 × List UInt8)) :
    (sectionLog sectionName settings).flatten = sectionText sectionName settings := by
  unfold sectionLog sectionText
  split
  · rfl
  · simp

theorem isHead_iff {sectionName line : List UInt8} : isHead sectionName line ↔
    ∃ name, parseLine line = .header name ∧ name.map upcase = sectionName.map upcase := by
  unfold isHead
  cases parseLine line <;> simp

theorem header_opens {line name : List UInt8} (parsed : parseLine line = .header name) :
    opensSection line := by
  obtain ⟨back, content, -⟩ := parseLine_header.mp parsed
  simp [opensSection, content]

theorem linesFrom_split {sectionName : List UInt8} {ls : List (List UInt8)}
    (found : ∃ line ∈ ls, isHead sectionName line) :
    ∃ head rest, linesFrom sectionName ls = head :: rest ∧ isHead sectionName head ∧
      ls = linesBefore sectionName ls ++ head :: rest := by
  obtain ⟨line, member, matched⟩ := found
  have nonempty : linesFrom sectionName ls ≠ [] := by
    intro empty
    have := List.dropWhile_eq_nil_iff.mp empty line member
    simp [matched] at this
  obtain ⟨head, rest, split⟩ := List.exists_cons_of_ne_nil nonempty
  refine ⟨head, rest, split, ?_, ?_⟩
  · have first := List.head_dropWhile_not (fun line => !isHead sectionName line) (l := ls) nonempty
    unfold linesFrom at split
    simpa [split] using first
  · rw [← split]
    exact (List.takeWhile_append_dropWhile).symm

/-- A text that has the section is what is before its first header, the header, and the rest. -/
theorem linesFrom_cons {sectionName text : List UInt8} (found : HasSection sectionName text) :
    ∃ head rest, linesFrom sectionName (lines newline text) = head :: rest ∧
      isHead sectionName head ∧
      lines newline text = linesBefore sectionName (lines newline text) ++ head :: rest :=
  linesFrom_split found

theorem not_isHead_before {sectionName line : List UInt8} {ls : List (List UInt8)}
    (member : line ∈ linesBefore sectionName ls) : ¬ isHead sectionName line := by
  have := List.mem_takeWhile_imp member
  simpa using this

end SysHelo.MinIni
