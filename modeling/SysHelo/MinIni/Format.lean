import SysHelo.MinIni.Strings

/-! What an INI text says: the entries of its sections, line by line. -/
namespace SysHelo.MinIni
open CString Stdio Lines

/-- What one line stands for. -/
inductive Line where
  | skip
  | header (name : List UInt8)
  | entry (key value : List UInt8)
  deriving DecidableEq

structure Entry where
  sectionName : List UInt8
  key : List UInt8
  value : List UInt8
  deriving DecidableEq

/-- A key and its value, cut at the first `=`, or without one at the first `:`. -/
def parseEntry (s : List UInt8) : Line :=
  match (splitFirst '='.toUInt8 s).or (splitFirst ':'.toUInt8 s) with
  | none => .skip
  | some (key, value) => .entry (rtrim key) (clean (ltrim value))

def parseLine (line : List UInt8) : Line :=
  match ltrim line with
  | [] => .skip
  | c :: s =>
    if c = ';'.toUInt8 ∨ c = '#'.toUInt8 then .skip
    else if c = '['.toUInt8 then
      match splitLast ']'.toUInt8 s with
      | some (name, _) => .header name
      | none => parseEntry (c :: s)
    else parseEntry (c :: s)

/-- The section in force after some lines. -/
def sectionAfter (sectionName : List UInt8) : List (List UInt8) → List UInt8
  | [] => sectionName
  | line :: rest =>
    match parseLine line with
    | .header name => sectionAfter name rest
    | _ => sectionAfter sectionName rest

def entries (sectionName : List UInt8) : List (List UInt8) → List Entry
  | [] => []
  | line :: rest =>
    match parseLine line with
    | .skip => entries sectionName rest
    | .header name => entries name rest
    | .entry key value => ⟨sectionName, key, value⟩ :: entries sectionName rest

/-- The entries of a text, in order; those above the first header have an empty section. -/
def readEntries (text : List UInt8) : List Entry := entries [] (lines newline text)

example : readEntries (bytes "a=1\n[ s ]x]\n k : \"2;\"\"\" ; c\n;k=3\n") =
    [⟨[], bytes "a", bytes "1"⟩, ⟨bytes " s ]x", bytes "k", bytes "2;\""⟩] := by decide

theorem entries_append (sectionName : List UInt8) (front back : List (List UInt8)) :
    entries sectionName (front ++ back) =
      entries sectionName front ++ entries (sectionAfter sectionName front) back := by
  induction front generalizing sectionName with
  | nil => rfl
  | cons line front ih =>
    simp only [List.cons_append, entries, sectionAfter]
    cases parseLine line <;> simp [ih]

theorem ltrim_length_le (s : List UInt8) : (ltrim s).length ≤ s.length :=
  (List.dropWhile_suffix blank).length_le

theorem parseEntry_ne_header (s name : List UInt8) : parseEntry s ≠ .header name := by
  unfold parseEntry
  split <;> simp

/-- The header lines: `[`, the name, and the last `]`. -/
theorem parseLine_header {line name : List UInt8} : parseLine line = .header name ↔
    ∃ back, ltrim line = '['.toUInt8 :: name ++ ']'.toUInt8 :: back ∧ ']'.toUInt8 ∉ back := by
  unfold parseLine
  cases content : ltrim line with
  | nil => simp
  | cons c s =>
    dsimp only
    by_cases bracket : c = '['.toUInt8
    · subst bracket
      rw [if_neg (by decide), if_pos rfl]
      cases close : splitLast ']'.toUInt8 s with
      | none =>
        apply iff_of_false (parseEntry_ne_header _ _)
        rintro ⟨back, same, -⟩
        have absent := splitLast_none.mp close
        rw [List.cons_append, List.cons.injEq] at same
        simp [same.2] at absent
      | some pair =>
        obtain ⟨front, rest⟩ := pair
        obtain ⟨rfl, free⟩ := splitLast_some close
        dsimp only
        constructor
        · rintro parsed
          cases parsed
          exact ⟨rest, rfl, free⟩
        · rintro ⟨back, same, other⟩
          rw [List.cons_append, List.cons.injEq] at same
          have := splitLast_unique free other same.2
          rw [this.1]
    · refine iff_of_false ?_ ?_
      · rw [if_neg bracket]
        split
        · simp
        · exact parseEntry_ne_header _ _
      · rintro ⟨back, same, -⟩
        exact bracket (List.cons.inj same).1

theorem header_length {line name : List UInt8} (parsed : parseLine line = .header name) :
    name.length + 2 ≤ line.length := by
  obtain ⟨back, content, -⟩ := parseLine_header.mp parsed
  have trimmed := ltrim_length_le line
  rw [content, List.cons_append, List.length_cons, List.length_append, List.length_cons] at trimmed
  omega

end SysHelo.MinIni
