import SysHelo.Lib.Sections
import SysHelo.MinIni.Replace

/-! An INI text as a document: the settings above the first section, and those of each section.
Every line that begins with `[` ends a section; one without a `]` starts a section that has no name. -/
namespace SysHelo.MinIni
open Stdio Lines Sections

abbrev Doc := Document (List UInt8) (List UInt8)

/-- Names and keys are compared without regard to ASCII case. -/
def folded (s : List UInt8) : List UInt8 := s.map upcase

def headerName (line : List UInt8) : Option (List UInt8) :=
  match parseLine line with
  | .header name => some name
  | _ => none

def document : List (List UInt8) → Doc
  | [] => ⟨[], []⟩
  | line :: rest =>
    let doc := document rest
    if opensSection line then ⟨[], (headerName line, doc.top) :: doc.sections⟩
    else match parseLine line with
      | .entry key value => { doc with top := (key, value) :: doc.top }
      | _ => doc

/-- A text in the pieces in which it is read into a whole line buffer. -/
def readPieces (text : List UInt8) : List (List UInt8) := chop newline (INI_BUFFERSIZE - 1) text

def readDocument (text : List UInt8) : Doc := document (readPieces text)

/-- The section that a pointer argument names: none for NULL and for an empty string. -/
def sectionOf (sectionName : Option (List UInt8)) : Option (List UInt8) :=
  sectionName.filter (· ≠ [])

/-- A line that sets the key. -/
def isKey (key line : List UInt8) : Bool :=
  match parseLine line with
  | .entry k _ => folded k = folded key
  | _ => false

/-- The setting of a line. -/
def entryOf (line : List UInt8) : Option (List UInt8 × List UInt8) :=
  match parseLine line with
  | .entry key value => some (key, value)
  | _ => none

example : readDocument (bytes "a=1\n[S]\n;b=2\n[x\nc=3\n b : 2") =
    ⟨[(bytes "a", bytes "1")],
      [(some (bytes "S"), []), (none, [(bytes "c", bytes "3"), (bytes "b", bytes "2")])]⟩ := by decide

theorem headerName_iff {line name : List UInt8} :
    headerName line = some name ↔ parseLine line = .header name := by
  unfold headerName
  cases parseLine line <;> simp

theorem headerName_opens {line name : List UInt8} (named : headerName line = some name) :
    opensSection line :=
  header_opens (headerName_iff.mp named)

theorem isKey_iff {key line : List UInt8} :
    isKey key line ↔ ∃ k value, parseLine line = .entry k value ∧ folded k = folded key := by
  unfold isKey
  cases parseLine line <;> simp

theorem isHead_eq (name line : List UInt8) (settings : Settings (List UInt8) (List UInt8)) :
    isHead name line = isNamed folded name (headerName line, settings) := by
  unfold isHead headerName isNamed
  cases parseLine line <;> simp [folded]

theorem entryOf_iff {key line value : List UInt8} :
    entryOf line = some (key, value) ↔ parseLine line = .entry key value := by
  unfold entryOf
  cases parseLine line <;> simp

section Lines
variable {line : List UInt8} {rest : List (List UInt8)}

theorem document_opens (opens : opensSection line) :
    document (line :: rest) = ⟨[], (headerName line, (document rest).top) :: (document rest).sections⟩ := by
  simp only [document, if_pos opens]

theorem document_entry {key value : List UInt8} (inner : ¬ opensSection line)
    (parsed : parseLine line = .entry key value) :
    document (line :: rest) = { document rest with top := (key, value) :: (document rest).top } := by
  simp only [document, if_neg inner, parsed]

theorem document_skip (inner : ¬ opensSection line)
    (parsed : ∀ key value, parseLine line ≠ .entry key value) :
    document (line :: rest) = document rest := by
  simp only [document, if_neg inner]

theorem document_inner (inner : ¬ opensSection line) (rest : List (List UInt8)) :
    (document (line :: rest)).sections = (document rest).sections ∧
      (document (line :: rest)).top = (document [line]).top ++ (document rest).top := by
  cases parsed : parseLine line with
  | entry key value =>
    rw [document_entry inner parsed, document_entry inner parsed]
    exact ⟨rfl, rfl⟩
  | skip | header =>
    rw [document_skip inner (by simp [parsed]), document_skip inner (by simp [parsed])]
    exact ⟨rfl, rfl⟩

end Lines

section Parts
variable {front : List (List UInt8)} {line : List UInt8} {rest : List (List UInt8)}

theorem document_body (inner : ∀ line ∈ front, ¬ opensSection line) (rest : List (List UInt8)) :
    (document (front ++ rest)).sections = (document rest).sections ∧
      (document (front ++ rest)).top = (document front).top ++ (document rest).top := by
  induction front with
  | nil => exact ⟨rfl, rfl⟩
  | cons line front ih =>
    obtain ⟨sections, top⟩ := ih fun l member => inner l (by simp [member])
    have first := inner line (by simp)
    obtain ⟨sections', top'⟩ := document_inner first (front ++ rest)
    rw [List.cons_append, sections', top', sections, top, (document_inner first front).2,
      List.append_assoc]
    exact ⟨rfl, rfl⟩

theorem settings_absent {name : List UInt8} {ls : List (List UInt8)}
    (absent : ∀ line ∈ ls, ¬ isHead name line) :
    (document ls).settings folded (some name) = none := by
  rw [Document.settings, Option.map_eq_none_iff]
  induction ls with
  | nil => rfl
  | cons line rest ih =>
    have later := ih fun l member => absent l (by simp [member])
    by_cases opens : opensSection line
    · have other := absent line (by simp)
      rw [isHead_eq name line (document rest).top] at other
      rw [document_opens opens, List.find?_cons_of_neg other, later]
    · rw [(document_inner opens _).1, later]

/-- The settings of a section are those at the top of what is below its first header. -/
theorem settings_found {name head : List UInt8} (absent : ∀ line ∈ front, ¬ isHead name line)
    (matched : isHead name head) (rest : List (List UInt8)) :
    (document (front ++ head :: rest)).settings folded (some name) = some (document rest).top := by
  rw [Document.settings, Option.map_eq_some_iff]
  refine ⟨(headerName head, (document rest).top), ?_, rfl⟩
  induction front with
  | nil =>
    obtain ⟨n, parsed, -⟩ := isHead_iff.mp matched
    rw [List.nil_append, document_opens (header_opens parsed)]
    rw [isHead_eq name head (document rest).top] at matched
    exact List.find?_cons_of_pos matched
  | cons line front ih =>
    have later := ih fun l member => absent l (by simp [member])
    rw [List.cons_append]
    by_cases opens : opensSection line
    · have other := absent line (by simp)
      rw [isHead_eq name line (document (front ++ head :: rest)).top] at other
      rw [document_opens opens, List.find?_cons_of_neg other, later]
    · rw [(document_inner opens _).1, later]

theorem lookup_passed {key : List UInt8} (inner : ∀ line ∈ front, ¬ opensSection line)
    (absent : ∀ line ∈ front, ¬ isKey key line) :
    lookup folded key (document front).top = none := by
  induction front with
  | nil => rfl
  | cons line front ih =>
    have later := ih (fun l member => inner l (by simp [member])) fun l member => absent l (by simp [member])
    have first := inner line (by simp)
    cases parsed : parseLine line with
    | entry k value =>
      have other : folded k ≠ folded key := fun same => absent line (by simp)
        (isKey_iff.mpr ⟨k, value, parsed, same⟩)
      rw [document_entry first parsed, lookup_cons, if_neg other, later]
    | skip | header => rw [document_skip first (by simp [parsed]), later]

/-- Where a search for a key at the top ends: at the first line that sets it or opens a section. -/
theorem search_split (key : List UInt8) (ls : List (List UInt8)) :
    ((∀ line ∈ ls, ¬ opensSection line ∧ ¬ isKey key line) ∧ lookup folded key (document ls).top = none) ∨
    ∃ front line rest, ls = front ++ line :: rest ∧ (∀ l ∈ front, ¬ opensSection l ∧ ¬ isKey key l) ∧
      (opensSection line ∧ lookup folded key (document ls).top = none ∨
        ¬ opensSection line ∧ ∃ k value, parseLine line = .entry k value ∧ folded k = folded key ∧
          lookup folded key (document ls).top = some value) := by
  induction ls with
  | nil => exact .inl ⟨by simp, rfl⟩
  | cons line rest ih =>
    by_cases opens : opensSection line
    · refine .inr ⟨[], line, rest, rfl, by simp, .inl ⟨opens, ?_⟩⟩
      rw [document_opens opens]
      rfl
    by_cases found : isKey key line
    · obtain ⟨k, value, parsed, same⟩ := isKey_iff.mp found
      refine .inr ⟨[], line, rest, rfl, by simp, .inr ⟨opens, k, value, parsed, same, ?_⟩⟩
      rw [document_entry opens parsed, lookup_cons, if_pos same]
    · have first : lookup folded key (document [line]).top = none :=
        lookup_passed (by simp [opens]) (by simp [found])
      have onward : lookup folded key (document (line :: rest)).top = lookup folded key
          (document rest).top := by
        rw [(document_inner opens _).2, lookup_append first]
      rw [onward]
      rcases ih with ⟨none, absent⟩ | ⟨front, l, rest, rfl, passed, ends⟩
      · exact .inl ⟨by simpa [opens, found] using none, absent⟩
      · exact .inr ⟨line :: front, l, rest, rfl, by simpa [opens, found] using passed, ends⟩

end Parts

/-- A section that is opened ends the one before it. -/
theorem document_split {head : List UInt8} (opens : opensSection head) (front rest : List (List UInt8)) :
    document (front ++ head :: rest) = ⟨(document front).top,
      (document front).sections ++ (headerName head, (document rest).top) :: (document rest).sections⟩ := by
  induction front with
  | nil => rw [List.nil_append, document_opens opens]; rfl
  | cons line front ih =>
    by_cases first : opensSection line
    · rw [List.cons_append, document_opens first, document_opens first, ih]
      rfl
    · obtain ⟨sections, top⟩ := document_inner first (front ++ head :: rest)
      obtain ⟨sections', top'⟩ := document_inner first front
      rw [List.cons_append, sections', top', Document.ext_iff]
      rw [sections, top, ih]
      exact ⟨rfl, rfl⟩

/-! The names and the keys in their order. -/

theorem document_names (ls : List (List UInt8)) :
    ((document ls).sections.filterMap fun s => s.1) = ls.filterMap headerName := by
  induction ls with
  | nil => rfl
  | cons line rest ih =>
    rw [List.filterMap_cons]
    by_cases opens : opensSection line
    · rw [document_opens opens, List.filterMap_cons, ih]
    · have none : headerName line = none := by
        cases named : headerName line with
        | none => rfl
        | some name => exact absurd (headerName_opens named) opens
      rw [(document_inner opens _).1, none, ih]

theorem document_top (ls : List (List UInt8)) :
    (document ls).top = (ls.takeWhile fun line => !opensSection line).filterMap entryOf := by
  induction ls with
  | nil => rfl
  | cons line rest ih =>
    by_cases opens : opensSection line
    · rw [document_opens opens, List.takeWhile_cons_of_neg (by simp [opens])]
      rfl
    · rw [List.takeWhile_cons_of_pos (by simp [opens]), List.filterMap_cons, ← ih]
      cases parsed : parseLine line with
      | entry key value => rw [document_entry opens parsed, entryOf_iff.mpr parsed]
      | skip | header =>
        rw [document_skip opens (by simp [parsed])]
        simp only [entryOf, parsed]

theorem filterMap_split {α β : Type} {f : α → Option β} {as : List α} {i : Nat} {b : β}
    (there : (as.filterMap f)[i]? = some b) :
    ∃ front a back, as = front ++ a :: back ∧ f a = some b ∧ (front.filterMap f).length = i := by
  induction as generalizing i with
  | nil => simp at there
  | cons a as ih =>
    cases taken : f a with
    | none =>
      rw [List.filterMap_cons_none taken] at there
      obtain ⟨front, c, back, rfl, same, count⟩ := ih there
      exact ⟨a :: front, c, back, rfl, same, by rw [List.filterMap_cons_none taken, count]⟩
    | some c =>
      rw [List.filterMap_cons_some taken] at there
      cases i with
      | zero =>
        obtain rfl := Option.some.inj there
        exact ⟨[], a, as, rfl, taken, rfl⟩
      | succ i =>
        obtain ⟨front, d, back, rfl, same, count⟩ := ih (by simpa using there)
        exact ⟨a :: front, d, back, rfl,
          same, by rw [List.filterMap_cons_some taken, List.length_cons, count]⟩

end SysHelo.MinIni
