import Mathlib.Data.List.Basic

/-! Texts as sequences of lines. A line keeps its terminator; only the last line
of a text may lack one. The alphabet and the terminator are arbitrary. -/
namespace SysHelo.Lines
variable {α : Type} (sep : α)

/-- A text after which a new line starts. -/
def Closed (text : List α) : Prop := text = [] ∨ text.getLast? = some sep

@[simp] theorem closed_nil : Closed sep ([] : List α) := .inl rfl

theorem closed_cons {c : α} {text : List α} (nonempty : text ≠ []) :
    Closed sep (c :: text) ↔ Closed sep text := by
  obtain ⟨d, rest, rfl⟩ := List.exists_cons_of_ne_nil nonempty
  simp [Closed, List.getLast?_cons_cons]

theorem closed_append {front back : List α} (nonempty : back ≠ []) :
    Closed sep (front ++ back) ↔ Closed sep back := by
  induction front with
  | nil => rfl
  | cons c front ih => rw [List.cons_append, closed_cons sep (by simp [nonempty]), ih]

theorem Closed.append {front back : List α} (left : Closed sep front) (right : Closed sep back) :
    Closed sep (front ++ back) := by
  by_cases empty : back = []
  · simpa [empty] using left
  · exact (closed_append sep empty).mpr right

variable [DecidableEq α]

instance (text : List α) : Decidable (Closed sep text) := inferInstanceAs (Decidable (_ ∨ _))

def lines : List α → List (List α)
  | [] => []
  | c :: rest =>
    if c = sep then [c] :: lines rest
    else match lines rest with
      | [] => [[c]]
      | line :: more => (c :: line) :: more

/-- The part of the first line that fits in `size` characters. -/
def takeLine : Nat → List α → List α
  | 0, _ => []
  | _ + 1, [] => []
  | size + 1, c :: rest => if c = sep then [c] else c :: takeLine size rest

@[simp] theorem lines_nil : lines sep [] = [] := rfl

theorem lines_eq_nil {text : List α} : lines sep text = [] ↔ text = [] := by
  cases text with
  | nil => simp
  | cons c rest =>
    simp only [lines, reduceCtorEq, iff_false]
    split
    · simp
    · split <;> simp

@[simp] theorem flatten_lines (text : List α) : (lines sep text).flatten = text := by
  induction text with
  | nil => rfl
  | cons c rest ih =>
    simp only [lines]
    split
    · simp [ih]
    · split <;> simp_all

theorem mem_iff_lines {c : α} {text : List α} : c ∈ text ↔ ∃ line ∈ lines sep text, c ∈ line := by
  rw [← List.mem_flatten, flatten_lines]

theorem line_ne_nil {text line : List α} (member : line ∈ lines sep text) : line ≠ [] := by
  induction text generalizing line with
  | nil => simp at member
  | cons c rest ih =>
    simp only [lines] at member
    split at member
    · rcases List.mem_cons.mp member with rfl | member
      · simp
      · exact ih member
    · split at member
      · simp_all
      · rename_i first more split
        rcases List.mem_cons.mp member with rfl | member
        · simp
        · exact ih (by rw [split]; exact List.mem_cons_of_mem _ member)

theorem lines_append {front : List α} (closed : Closed sep front) (back : List α) :
    lines sep (front ++ back) = lines sep front ++ lines sep back := by
  induction front with
  | nil => rfl
  | cons c front ih =>
    by_cases empty : front = []
    · subst front
      obtain rfl : c = sep := by simpa [Closed] using closed
      simp [lines]
    · have inner := ih ((closed_cons sep empty).mp closed)
      have some_line : lines sep front ≠ [] := (lines_eq_nil sep).not.mpr empty
      obtain ⟨line, more, split⟩ := List.exists_cons_of_ne_nil some_line
      rw [List.cons_append, lines, inner, lines, split]
      split <;> rfl

theorem lines_line {body : List α} (inside : sep ∉ body) (rest : List α) :
    lines sep (body ++ sep :: rest) = (body ++ [sep]) :: lines sep rest := by
  induction body with
  | nil => simp [lines]
  | cons c body ih =>
    simp only [List.mem_cons, not_or] at inside
    simp only [List.cons_append, lines, if_neg (Ne.symm inside.1), ih inside.2]

theorem lines_last {body : List α} (inside : sep ∉ body) (nonempty : body ≠ []) :
    lines sep body = [body] := by
  induction body with
  | nil => contradiction
  | cons c body ih =>
    simp only [List.mem_cons, not_or] at inside
    by_cases empty : body = []
    · subst body
      simp [lines, Ne.symm inside.1]
    · simp only [lines, if_neg (Ne.symm inside.1), ih inside.2 empty]

/-- The first line is closed and free of inner terminators, or it is the whole text. -/
theorem lines_cons {text line : List α} {more : List (List α)}
    (split : lines sep text = line :: more) :
    text = line ++ more.flatten ∧ lines sep more.flatten = more ∧
      ((∃ body, sep ∉ body ∧ line = body ++ [sep]) ∨ (sep ∉ line ∧ more = [])) := by
  induction text generalizing line more with
  | nil => simp at split
  | cons c rest ih =>
    simp only [lines] at split
    by_cases terminator : c = sep
    · rw [if_pos terminator] at split
      obtain ⟨rfl, rfl⟩ := List.cons.inj split
      refine ⟨by simp, by simp, .inl ⟨[], by simp, by simp [terminator]⟩⟩
    · rw [if_neg terminator] at split
      cases inner : lines sep rest with
      | nil =>
        rw [inner] at split
        obtain ⟨rfl, rfl⟩ := List.cons.inj split
        obtain rfl := (lines_eq_nil sep).mp inner
        exact ⟨by simp, by simp, .inr ⟨by simpa using Ne.symm terminator, rfl⟩⟩
      | cons first others =>
        rw [inner] at split
        obtain ⟨rfl, rfl⟩ := List.cons.inj split
        obtain ⟨text, again, shape⟩ := ih inner
        refine ⟨by rw [text]; rfl, again, ?_⟩
        obtain ⟨body, free, rfl⟩ | ⟨free, last⟩ := shape
        · exact .inl ⟨c :: body, by simp [free, Ne.symm terminator], rfl⟩
        · exact .inr ⟨by simp [free, Ne.symm terminator], last⟩

theorem lines_cut {text : List α} {front back : List (List α)}
    (split : lines sep text = front ++ back) :
    lines sep front.flatten = front ∧ lines sep back.flatten = back ∧
      (back ≠ [] → Closed sep front.flatten) := by
  induction front generalizing text with
  | nil =>
    rw [List.nil_append] at split
    refine ⟨rfl, ?_, fun _ => closed_nil sep⟩
    rw [← split, flatten_lines]
  | cons line front ih =>
    obtain ⟨_, again, shape⟩ := lines_cons sep split
    obtain ⟨inner, tail, closed⟩ := ih again
    obtain ⟨body, free, rfl⟩ | ⟨free, last⟩ := shape
    · refine ⟨?_, tail, fun nonempty => ?_⟩
      · rw [List.flatten_cons, List.append_assoc, List.singleton_append, lines_line sep free, inner]
      · rw [List.flatten_cons]
        exact Closed.append sep (.inr (by simp)) (closed nonempty)
    · obtain ⟨rfl, rfl⟩ := List.append_eq_nil_iff.mp last
      refine ⟨?_, rfl, fun nonempty => absurd rfl nonempty⟩
      have member : line ∈ lines sep text := by rw [split]; simp
      have nonempty := line_ne_nil sep member
      simpa using lines_last sep free nonempty

/-- A line has one separator at most, its last element. -/
theorem line_shape {text line : List α} (member : line ∈ lines sep text) :
    ∃ body, sep ∉ body ∧ (line = body ++ [sep] ∨ line = body) := by
  obtain ⟨front, more, split⟩ := List.append_of_mem member
  obtain ⟨-, rest, -⟩ := lines_cut sep split
  obtain ⟨-, -, ⟨body, inside, shape⟩ | ⟨inside, -⟩⟩ := lines_cons sep rest
  · exact ⟨body, inside, .inl shape⟩
  · exact ⟨line, inside, .inr rfl⟩

theorem lines_flatten {ls : List (List α)} (whole : ∀ line ∈ ls, ∃ body, sep ∉ body ∧ line = body ++ [sep])
    (rest : List α) : lines sep (ls.flatten ++ rest) = ls ++ lines sep rest := by
  induction ls with
  | nil => rfl
  | cons line ls ih =>
    obtain ⟨body, free, rfl⟩ := whole line (by simp)
    have inner := ih (fun l member => whole l (by simp [member]))
    rw [List.flatten_cons, List.append_assoc, List.append_assoc, List.singleton_append,
      lines_line sep free, inner, List.cons_append]

/-- A terminator at the end of a text is a line of its own, or ends the last one. -/
theorem lines_append_sep {text line : List α} (member : line ∈ lines sep (text ++ [sep])) :
    line ∈ lines sep text ∨ line = [sep] ∨ ∃ last ∈ lines sep text, sep ∉ last ∧ line = last ++ [sep] := by
  induction split : lines sep text generalizing text with
  | nil =>
    obtain rfl := (lines_eq_nil sep).mp split
    simp [lines] at member
    exact .inr (.inl member)
  | cons first more ih =>
    obtain ⟨whole, again, shape⟩ := lines_cons sep split
    obtain ⟨body, free, rfl⟩ | ⟨free, rfl⟩ := shape
    · rw [whole, List.append_assoc, List.append_assoc, List.singleton_append, lines_line sep free,
        List.mem_cons] at member
      rcases member with rfl | member
      · exact .inl (by simp)
      · rcases ih member again with old | alone | ⟨last, old, unclosed, ends⟩
        · exact .inl (List.mem_cons_of_mem _ old)
        · exact .inr (.inl alone)
        · exact .inr (.inr ⟨last, List.mem_cons_of_mem _ old, unclosed, ends⟩)
    · rw [whole, List.flatten_nil, List.append_nil, lines_line sep free, lines_nil,
        List.mem_singleton] at member
      exact .inr (.inr ⟨first, by simp, free, member⟩)

theorem takeLine_of_lines {text line : List α} {more : List (List α)}
    (split : lines sep text = line :: more) (fits : line.length ≤ size) :
    takeLine sep size text = line := by
  obtain ⟨rfl, _, shape⟩ := lines_cons sep split
  clear split
  obtain ⟨body, free, rfl⟩ | ⟨free, rfl⟩ := shape
  · induction body generalizing size with
    | nil =>
      obtain ⟨size, rfl⟩ : ∃ k, size = k + 1 := ⟨size - 1, by simp at fits; omega⟩
      simp [takeLine]
    | cons c body ih =>
      simp only [List.mem_cons, not_or] at free
      obtain ⟨size, rfl⟩ : ∃ k, size = k + 1 := ⟨size - 1, by simp at fits; omega⟩
      simp only [List.cons_append, takeLine, if_neg (Ne.symm free.1), List.cons.injEq, true_and]
      exact ih free.2 (by simpa using fits)
  · induction line generalizing size with
    | nil => cases size <;> rfl
    | cons c body ih =>
      simp only [List.mem_cons, not_or] at free
      obtain ⟨size, rfl⟩ : ∃ k, size = k + 1 := ⟨size - 1, by simp at fits; omega⟩
      simp only [List.cons_append, takeLine, if_neg (Ne.symm free.1), List.cons.injEq, true_and]
      exact ih (by simpa using fits) free.2

theorem takeLine_nil (size : Nat) : takeLine sep size [] = [] := by
  cases size <;> rfl

theorem takeLine_length_le_text (size : Nat) (text : List α) :
    (takeLine sep size text).length ≤ text.length := by
  induction size generalizing text with
  | zero => simp [takeLine]
  | succ size ih =>
    cases text with
    | nil => simp [takeLine]
    | cons c rest =>
      simp only [takeLine]
      split
      · simp
      · simpa using ih rest

theorem takeLine_length_le (size : Nat) (text : List α) : (takeLine sep size text).length ≤ size := by
  induction size generalizing text with
  | zero => simp [takeLine]
  | succ size ih =>
    cases text with
    | nil => simp [takeLine]
    | cons c rest =>
      simp only [takeLine]
      split
      · simp
      · simpa using ih rest

theorem takeLine_take {small size : Nat} (less : small ≤ size) (text : List α) :
    takeLine sep small text = (takeLine sep size text).take small := by
  induction text generalizing small size with
  | nil => simp [takeLine_nil]
  | cons c rest ih =>
    cases small with
    | zero => rfl
    | succ small =>
      obtain ⟨size, rfl⟩ : ∃ k, size = k + 1 := ⟨size - 1, by omega⟩
      simp only [takeLine]
      by_cases terminator : c = sep
      · simp only [if_pos terminator, List.take_succ_cons, List.take_nil]
      · simp only [if_neg terminator, List.take_succ_cons, ih (Nat.le_of_succ_le_succ less)]

/-- Each piece is what is read of it and all that is behind it. -/
inductive Cut (size : Nat) : List (List α) → Prop where
  | nil : Cut size []
  | cons {piece : List α} {more : List (List α)} : piece ≠ [] → takeLine sep size
      (piece ++ more.flatten) = piece →
      Cut size more → Cut size (piece :: more)

/-- A piece that ends whatever is behind it. -/
def Ended (size : Nat) (piece : List α) : Prop := piece.getLast? = some sep ∨ piece.length = size

section Cut
variable {sep} {size : Nat}

theorem Cut.lines {text : List α} (fits : ∀ line ∈ lines sep text, line.length ≤ size) :
    Cut sep size (lines sep text) := by
  generalize split : Lines.lines sep text = pieces at fits
  induction pieces generalizing text with
  | nil => exact .nil
  | cons line more ih =>
    obtain ⟨whole, again, -⟩ := lines_cons sep split
    constructor
    · exact line_ne_nil sep (show line ∈ Lines.lines sep text by rw [split]; simp)
    · rw [← whole]
      exact takeLine_of_lines sep split (fits line (by simp))
    · exact ih again fun l member => fits l (by simp [member])

theorem Cut.right {front back : List (List α)} (cut : Cut sep size (front ++ back)) : Cut sep size back := by
  induction front with
  | nil => exact cut
  | cons piece front ih =>
    cases cut with
    | cons _ _ more => exact ih more

theorem Cut.ne_nil {piece : List α} {pieces : List (List α)} (cut : Cut sep size pieces)
    (member : piece ∈ pieces) : piece ≠ [] := by
  obtain ⟨front, back, rfl⟩ := List.append_of_mem member
  cases cut.right with
  | cons nonempty _ _ => exact nonempty

theorem Cut.length_le {piece : List α} {pieces : List (List α)} (cut : Cut sep size pieces)
    (member : piece ∈ pieces) : piece.length ≤ size := by
  obtain ⟨front, back, rfl⟩ := List.append_of_mem member
  cases cut.right with
  | cons _ read _ =>
    rw [← read]
    exact takeLine_length_le ..

theorem Cut.read {piece : List α} {more : List (List α)} (cut : Cut sep size (piece :: more)) {room : Nat}
    (fits : piece.length ≤ room) (less : room ≤ size) : takeLine sep room
      (piece ++ more.flatten) = piece := by
  cases cut with
  | cons _ read _ => rw [takeLine_take sep less, read, List.take_of_length_le fits]

theorem takeLine_cons_iff {c : α} {piece text : List α} :
    takeLine sep size (c :: text) = c :: piece ↔
      ∃ room, size = room + 1 ∧ (c = sep ∧ piece = [] ∨ c ≠ sep ∧ takeLine sep room text = piece) := by
  cases size with
  | zero => simp [takeLine]
  | succ room =>
    by_cases terminator : c = sep
    · simp [takeLine, terminator, eq_comm]
    · simp [takeLine, terminator]

omit [DecidableEq α] in
theorem ended_cons {c : α} {piece : List α} (ended : Ended sep size piece) (nonempty : piece ≠ []) :
    Ended sep (size + 1) (c :: piece) := by
  obtain ⟨d, rest, rfl⟩ := List.exists_cons_of_ne_nil nonempty
  rcases ended with last | full
  · exact .inl (by rwa [List.getLast?_cons_cons])
  · exact .inr (congrArg (· + 1) full)

theorem ended_of_takeLine {piece more : List α} (nonempty : more ≠ [])
    (read : takeLine sep size (piece ++ more) = piece) (some : piece ≠ []) : Ended sep size piece := by
  induction piece generalizing size with
  | nil => contradiction
  | cons c piece ih =>
    obtain ⟨room, rfl, ⟨rfl, rfl⟩ | ⟨-, inner⟩⟩ := takeLine_cons_iff.mp read
    · exact .inl rfl
    · by_cases last : piece = []
      · subst last
        obtain ⟨d, more, rfl⟩ := List.exists_cons_of_ne_nil nonempty
        cases room with
        | zero => exact .inr rfl
        | succ room =>
          have none : takeLine sep (room + 1) (d :: more) = [] := inner
          simp only [takeLine] at none
          split at none <;> contradiction
      · exact ended_cons (ih inner last) last

/-- What is behind a piece that has ended does not matter. -/
theorem takeLine_of_ended {piece rest : List α} (ended : Ended sep size piece)
    (read : takeLine sep size (piece ++ rest) = piece) (some : piece ≠ []) (more : List α) :
    takeLine sep size (piece ++ more) = piece := by
  induction piece generalizing size with
  | nil => contradiction
  | cons c piece ih =>
    obtain ⟨room, rfl, ⟨terminator, rfl⟩ | ⟨other, inner⟩⟩ := takeLine_cons_iff.mp read
    · exact takeLine_cons_iff.mpr ⟨room, rfl, .inl ⟨terminator, rfl⟩⟩
    · refine takeLine_cons_iff.mpr ⟨room, rfl, .inr ⟨other, ?_⟩⟩
      by_cases last : piece = []
      · subst last
        rcases ended with last | full
        · exact absurd (Option.some.inj last) other
        · obtain rfl : room = 0 := (Nat.succ.inj full).symm
          rfl
      · refine ih ?_ inner last
        obtain ⟨d, rest, rfl⟩ := List.exists_cons_of_ne_nil last
        rcases ended with last | full
        · exact .inl (by rwa [List.getLast?_cons_cons] at last)
        · exact .inr (Nat.succ.inj full)

/-- Texts that are read one after the other, when the first one has ended. -/
theorem Cut.append {front back : List (List α)} (left : Cut sep size front) (right : Cut sep size back)
    (ended : ∀ last, front.getLast? = some last → Ended sep size last) : Cut sep size (front ++ back) := by
  induction front with
  | nil => exact right
  | cons piece more ih =>
    cases left with
    | cons nonempty read rest =>
      have behind : ∀ last, more.getLast? = some last → Ended sep size last := by
        intro last same
        apply ended
        rw [List.getLast?_cons, same, Option.getD_some]
      have full : Ended sep size piece := by
        by_cases last : more = []
        · exact ended piece (by rw [last]; rfl)
        · refine ended_of_takeLine ?_ read nonempty
          intro empty
          obtain ⟨next, others, rfl⟩ := List.exists_cons_of_ne_nil last
          exact rest.ne_nil List.mem_cons_self (by simp at empty; exact empty.1)
      refine .cons nonempty ?_ (ih rest behind)
      exact takeLine_of_ended full read nonempty _

theorem takeLine_free {piece rest : List α} (read : takeLine sep size (piece ++ rest) = piece)
    (last : piece.getLast? ≠ some sep) : sep ∉ piece := by
  induction piece generalizing size with
  | nil => simp
  | cons c piece ih =>
    obtain ⟨room, rfl, ⟨rfl, rfl⟩ | ⟨other, inner⟩⟩ := takeLine_cons_iff.mp read
    · exact absurd rfl last
    · rw [List.mem_cons, not_or]
      refine ⟨Ne.symm other, ?_⟩
      cases piece with
      | nil => simp
      | cons d piece => exact ih inner (by simpa using last)

theorem Cut.free {piece : List α} {pieces : List (List α)} (cut : Cut sep size pieces)
    (member : piece ∈ pieces)
    (last : piece.getLast? ≠ some sep) : sep ∉ piece := by
  obtain ⟨front, back, rfl⟩ := List.append_of_mem member
  cases cut.right with
  | cons _ read _ => exact takeLine_free read last

theorem Cut.line {body : List α} {ps : List (List α)} (inside : sep ∉ body) (fits : body.length < size)
    (cut : Cut sep size ps) : Cut sep size ((body ++ [sep]) :: ps) := by
  have split := lines_line sep inside ps.flatten
  refine .cons (by simp) ?_ cut
  rw [List.append_assoc, List.singleton_append]
  exact takeLine_of_lines sep split (by rw [List.length_append, List.length_singleton]; omega)

theorem Cut.left {front back : List (List α)} (cut : Cut sep size (front ++ back)) : Cut sep size front := by
  induction front with
  | nil => exact .nil
  | cons piece front ih =>
    cases cut with
    | cons nonempty read more =>
      refine .cons nonempty ?_ (ih more)
      by_cases last : (front ++ back).flatten = []
      · have none : front.flatten = [] := by
          rw [List.flatten_append, List.append_eq_nil_iff] at last
          exact last.1
        rw [none, ← last]
        exact read
      · exact takeLine_of_ended (ended_of_takeLine last read nonempty) read nonempty _

theorem Cut.ended {front back : List (List α)} (cut : Cut sep size (front ++ back)) (more : back ≠ [])
    {last : List α}
    (member : front.getLast? = some last) : Ended sep size last := by
  obtain ⟨before, rfl⟩ := List.getLast?_eq_some_iff.mp member
  rw [List.append_assoc, List.singleton_append] at cut
  obtain ⟨piece, rest, rfl⟩ := List.exists_cons_of_ne_nil more
  have some := cut.ne_nil (by simp : piece ∈ before ++ last :: piece :: rest)
  cases cut.right with
  | cons nonempty read _ =>
    refine ended_of_takeLine (fun empty => ?_) read nonempty
    rw [List.flatten_cons, List.append_eq_nil_iff] at empty
    exact some empty.1

/-- A text as it is read with `room` left for the first piece. -/
def chopFrom (sep : α) (size : Nat) : (room : Nat) → List α → List (List α)
  | _, [] => []
  | room, c :: rest =>
    if c = sep ∨ room ≤ 1 then [c] :: chopFrom sep size size rest
    else match chopFrom sep size (room - 1) rest with
      | [] => [[c]]
      | piece :: more => (c :: piece) :: more

/-- A text in the pieces in which it is read. -/
def chop (sep : α) (size : Nat) (text : List α) : List (List α) := chopFrom sep size size text

theorem chopFrom_cons {room : Nat} (some : 0 < room) {text : List α} (nonempty : text ≠ []) :
    chopFrom sep size room text = takeLine sep room text ::
      chop sep size (text.drop (takeLine sep room text).length) := by
  induction text generalizing room with
  | nil => contradiction
  | cons c rest ih =>
    obtain ⟨room, rfl⟩ : ∃ k, room = k + 1 := ⟨room - 1, by omega⟩
    by_cases terminator : c = sep
    · simp [chopFrom, takeLine, terminator, chop]
    · cases room with
      | zero => simp [chopFrom, takeLine, terminator, chop]
      | succ room =>
        have onward : ¬ (c = sep ∨ room + 1 + 1 ≤ 1) := by simp [terminator]
        by_cases last : rest = []
        · simp [chopFrom, takeLine, terminator, last, chop]
        · simp only [chopFrom, if_neg onward, Nat.add_sub_cancel, ih (Nat.succ_pos room) last, takeLine,
            if_neg terminator, List.length_cons, List.drop_succ_cons]

theorem takeLine_eq_nil {room : Nat} (some : 0 < room) {text : List α} :
    takeLine sep room text = [] ↔ text = [] := by
  constructor
  · intro none
    obtain ⟨room, rfl⟩ : ∃ k, room = k + 1 := ⟨room - 1, by omega⟩
    cases text with
    | nil => rfl
    | cons c rest =>
      simp only [takeLine] at none
      split at none <;> contradiction
  · rintro rfl
    exact takeLine_nil ..

theorem takeLine_append_drop (room : Nat) (text : List α) :
    takeLine sep room text ++ text.drop (takeLine sep room text).length = text := by
  induction room generalizing text with
  | zero => rfl
  | succ room ih =>
    cases text with
    | nil => rfl
    | cons c rest =>
      simp only [takeLine]
      split
      · rfl
      · rw [List.length_cons, List.drop_succ_cons, List.cons_append, ih]

/-- Every text is read in pieces, -/
theorem cut_chop (some : 0 < size) (text : List α) :
    Cut sep size (chop sep size text) ∧ (chop sep size text).flatten = text := by
  induction bound : text.length using Nat.strongRecOn generalizing text with
  | ind length ih =>
    by_cases last : text = []
    · subst last
      exact ⟨.nil, rfl⟩
    · have first : takeLine sep size text ≠ [] := fun none => last ((takeLine_eq_nil some).mp none)
      have shorter : (text.drop (takeLine sep size text).length).length < length := by
        have := List.length_pos_iff.mpr first
        have := List.length_pos_iff.mpr last
        rw [List.length_drop]
        omega
      obtain ⟨cut, whole⟩ := ih _ shorter _ rfl
      rw [chop, chopFrom_cons some last]
      constructor
      · refine .cons first ?_ cut
        rw [whole, takeLine_append_drop]
      · rw [List.flatten_cons, whole, takeLine_append_drop]

/-- and in these only. -/
theorem Cut.eq_chop (some : 0 < size) {ps : List (List α)} (cut : Cut sep size ps) :
    chop sep size ps.flatten = ps := by
  induction cut with
  | nil => rfl
  | cons nonempty read more ih =>
    rw [chop, List.flatten_cons, chopFrom_cons some (by simp [nonempty]), read, List.drop_left, ih]

end Cut

def splitFirst (c : α) : List α → Option (List α × List α)
  | [] => none
  | d :: s =>
    if d = c then some ([], s) else (splitFirst c s).map fun (front, back) => (d :: front, back)

def splitLast (c : α) : List α → Option (List α × List α)
  | [] => none
  | d :: s =>
    match splitLast c s with
    | some (front, back) => some (d :: front, back)
    | none => if d = c then some ([], s) else none

theorem splitFirst_none {c : α} {s : List α} : splitFirst c s = none ↔ c ∉ s := by
  induction s with
  | nil => simp [splitFirst]
  | cons d s ih =>
    by_cases same : d = c
    · simp [splitFirst, same]
    · simp [splitFirst, same, ih, Ne.symm same]

theorem splitFirst_some {c : α} {s front back : List α}
    (split : splitFirst c s = some (front, back)) : s = front ++ c :: back ∧ c ∉ front := by
  induction s generalizing front with
  | nil => simp [splitFirst] at split
  | cons d s ih =>
    by_cases same : d = c
    · simp only [splitFirst, if_pos same, Option.some.injEq, Prod.mk.injEq] at split
      obtain ⟨rfl, rfl⟩ := split
      simp [same]
    · simp only [splitFirst, if_neg same, Option.map_eq_some_iff, Prod.mk.injEq] at split
      obtain ⟨⟨inner, rest⟩, found, rfl, rfl⟩ := split
      obtain ⟨rfl, free⟩ := ih found
      simp [free, Ne.symm same]

theorem splitFirst_append {c : α} {front : List α} (free : c ∉ front) (back : List α) :
    splitFirst c (front ++ c :: back) = some (front, back) := by
  induction front with
  | nil => simp [splitFirst]
  | cons d front ih =>
    simp only [List.mem_cons, not_or] at free
    rw [List.cons_append, splitFirst, if_neg (Ne.symm free.1), ih free.2]
    rfl

theorem splitLast_none {c : α} {s : List α} : splitLast c s = none ↔ c ∉ s := by
  induction s with
  | nil => simp [splitLast]
  | cons d s ih =>
    rw [splitLast]
    cases found : splitLast c s with
    | none =>
      have absent := ih.mp found
      by_cases same : d = c
      · simp [same]
      · simp [same, absent, Ne.symm same]
    | some pair =>
      have present : c ∈ s := by
        by_contra absent
        rw [ih.mpr absent] at found
        contradiction
      simp [present]

theorem splitLast_some {c : α} {s front back : List α}
    (split : splitLast c s = some (front, back)) : s = front ++ c :: back ∧ c ∉ back := by
  induction s generalizing front with
  | nil => simp [splitLast] at split
  | cons d s ih =>
    rw [splitLast] at split
    cases found : splitLast c s with
    | none =>
      by_cases same : d = c
      · simp only [found, if_pos same, Option.some.injEq, Prod.mk.injEq] at split
        obtain ⟨rfl, rfl⟩ := split
        exact ⟨by simp [same], (splitLast_none).mp found⟩
      · simp [found, same] at split
    | some pair =>
      obtain ⟨inner, rest⟩ := pair
      simp only [found, Option.some.injEq, Prod.mk.injEq] at split
      obtain ⟨rfl, rfl⟩ := split
      obtain ⟨rfl, free⟩ := ih found
      exact ⟨rfl, free⟩

theorem splitLast_append {c : α} {back : List α} (free : c ∉ back) (front : List α) :
    splitLast c (front ++ c :: back) = some (front, back) := by
  induction front with
  | nil => rw [List.nil_append, splitLast, splitLast_none.mpr free]; simp
  | cons d front ih => rw [List.cons_append, splitLast, ih]

theorem splitLast_unique {c : α} {front back front' back' : List α} (free : c ∉ back)
    (free' : c ∉ back') (same : front ++ c :: back = front' ++ c :: back') :
    front = front' ∧ back = back' := by
  have left := splitLast_append free front
  rw [same, splitLast_append free' front', Option.some.injEq, Prod.mk.injEq] at left
  exact ⟨left.1.symm, left.2.symm⟩

end SysHelo.Lines
