import SysHelo.Lib.CString
import SysHelo.Lib.Lines
import Mathlib.Data.List.TakeDrop
import Mathlib.Logic.Function.Basic

/-! Files and the C library's streams. A stream opened for reading is a position in the
content the file had then; a stream opened for writing is the list of strings handed to
`fputs`, and what of them is in the file is settled when the stream is closed. -/
namespace SysHelo.Stdio
open CString Lines

abbrev Path := List UInt8
abbrev Files := Path → Option (List UInt8)

/-- The bytes of an ASCII text. -/
def bytes (text : String) : List UInt8 := text.toList.map Char.toUInt8

def newline : UInt8 := '\n'.toUInt8

structure ReadFile where
  content : List UInt8
  pos : Nat

def ReadFile.remaining (fp : ReadFile) : List UInt8 := fp.content.drop fp.pos

/-- `fgets(p, size, fp)`; without a byte to store it returns NULL and leaves the array as it was. -/
def fgets (b : Chars n) (p size : Nat) (fp : ReadFile) : Option (Chars n × ReadFile) :=
  match takeLine newline (size - 1) fp.remaining with
  | [] => none
  | line => some (store b p (line ++ [0]), { fp with pos := fp.pos + line.length })

/-- How the operations of one use of the library end. `fputs i` is about the `i`-th string
written; a failed `fputs` or `fclose` keeps only so many bytes of what it had to store. -/
structure Outcomes where
  fopenRead : Bool
  fopenWrite : Bool
  fputs : Nat → Option Nat
  fclose : Option Nat
  remove : Bool
  rename : Bool

def Outcomes.ok : Outcomes where
  fopenRead := true
  fopenWrite := true
  fputs := fun _ => none
  fclose := none
  remove := true
  rename := true

def kept (failure : Option Nat) (content : List UInt8) : List UInt8 :=
  match failure with
  | none => content
  | some size => content.take size

/-- What the strings from the `i`-th on leave in the stream. -/
def written (fputs : Nat → Option Nat) : Nat → List (List UInt8) → List UInt8
  | _, [] => []
  | i, s :: log => kept (fputs i) s ++ written fputs (i + 1) log

/-- The content of a file after its stream has been closed. -/
def Outcomes.stored (o : Outcomes) (log : List (List UInt8)) : List UInt8 :=
  kept o.fclose (written o.fputs 0 log)

namespace Files

def fopenRead (o : Outcomes) (files : Files) (path : Path) : Option ReadFile :=
  if o.fopenRead then (files path).map (⟨·, 0⟩) else none

def fclose (o : Outcomes) (files : Files) (path : Path) (log : List (List UInt8)) : Files :=
  Function.update files path (some (o.stored log))

def remove (o : Outcomes) (files : Files) (path : Path) : Files :=
  if o.remove then Function.update files path none else files

/-- A successful `rename` replaces what was under the new name. -/
def rename (o : Outcomes) (files : Files) (source dest : Path) : Files :=
  match files source with
  | none => files
  | some content =>
    if o.rename then Function.update (Function.update files source none) dest (some content)
    else files

end Files

theorem Files.fopenRead_ok {files : Files} {path : Path} {text : List UInt8}
    (present : files path = some text) : fopenRead .ok files path = some ⟨text, 0⟩ := by
  simp [fopenRead, present, Outcomes.ok]

theorem fgets_none {fp : ReadFile} (ended : fp.remaining = []) (b : Chars n) (p size : Nat) :
    fgets b p size fp = none := by
  simp only [fgets, ended, takeLine_nil]

theorem fgets_line {fp : ReadFile} (split : lines newline fp.remaining = line :: more)
    (fits : line.length < size) (b : Chars n) (p : Nat) :
    fgets b p size fp =
      some (store b p (line ++ [0]), { fp with pos := fp.pos + line.length }) := by
  have read : takeLine newline (size - 1) fp.remaining = line :=
    takeLine_of_lines newline split (by omega)
  have member : line ∈ lines newline fp.remaining := by rw [split]; simp
  have nonempty := line_ne_nil newline member
  simp only [fgets, read]

theorem fgets_cut {fp : ReadFile} {piece : List UInt8} {more : List (List UInt8)} {room size : Nat}
    (ahead : fp.remaining = piece ++ more.flatten) (cut : Cut newline size (piece :: more))
    (fits : piece.length < room) (less : room ≤ size + 1) (b : Chars n) (p : Nat) :
    fgets b p room fp = some (store b p (piece ++ [0]), { fp with pos := fp.pos + piece.length }) := by
  have read : takeLine newline (room - 1) fp.remaining = piece := by
    rw [ahead]
    exact cut.read (by omega) (by omega)
  have nonempty := cut.ne_nil List.mem_cons_self
  simp only [fgets, read]

theorem remaining_next {fp : ReadFile} (split : lines newline fp.remaining = line :: more) :
    ({ fp with pos := fp.pos + line.length } : ReadFile).remaining = more.flatten := by
  obtain ⟨text, -, -⟩ := lines_cons newline split
  have : ({ fp with pos := fp.pos + line.length } : ReadFile).remaining =
      fp.remaining.drop line.length := by simp [ReadFile.remaining]
  rw [this, text, List.drop_left]

/-- Every successful `fgets` consumes something. -/
theorem fgets_remaining {b c : Chars n} {fp next : ReadFile}
    (read : fgets b p size fp = some (c, next)) :
    next.remaining.length < fp.remaining.length := by
  unfold fgets at read
  split at read
  · contradiction
  · rename_i line nonempty
    obtain ⟨-, rfl⟩ := Prod.mk.inj (Option.some.inj read)
    have some_byte : 0 < (takeLine newline (size - 1) fp.remaining).length :=
      List.length_pos_iff.mpr nonempty
    have bound := takeLine_length_le_text newline (size - 1) fp.remaining
    simp only [ReadFile.remaining, List.length_drop] at some_byte bound ⊢
    omega

theorem written_ok (log : List (List UInt8)) (i : Nat) :
    written (fun _ => none) i log = log.flatten := by
  induction log generalizing i with
  | nil => rfl
  | cons s log ih => simp [written, kept, ih]

@[simp] theorem stored_ok (log : List (List UInt8)) : Outcomes.ok.stored log = log.flatten := by
  simp [Outcomes.stored, Outcomes.ok, kept, written_ok]

/-- Every string handed to `fputs` from the `i`-th on is stored whole. -/
def WholeFrom (fputs : Nat → Option Nat) (i : Nat) (log : List (List UInt8)) : Prop :=
  ∀ j (h : j < log.length), ∀ size, fputs (i + j) = some size → log[j].length ≤ size

/-- No operation on the stream loses a byte of what is written to it. -/
def Outcomes.Whole (o : Outcomes) (log : List (List UInt8)) : Prop :=
  WholeFrom o.fputs 0 log ∧ ∀ size, o.fclose = some size → log.flatten.length ≤ size

theorem kept_length_le (failure : Option Nat) (content : List UInt8) :
    (kept failure content).length ≤ content.length := by
  cases failure with
  | none => exact Nat.le_refl _
  | some size => exact (List.take_prefix size content).length_le

theorem kept_eq {failure : Option Nat} {content : List UInt8} :
    kept failure content = content ↔ ∀ size, failure = some size → content.length ≤ size := by
  cases failure with
  | none => simp [kept]
  | some size => simp [kept, List.take_eq_self_iff]

theorem written_length_le (fputs : Nat → Option Nat) (i : Nat) (log : List (List UInt8)) :
    (written fputs i log).length ≤ log.flatten.length := by
  induction log generalizing i with
  | nil => simp [written]
  | cons s log ih =>
    have front := kept_length_le (fputs i) s
    have back := ih (i + 1)
    simp only [written, List.length_append, List.flatten_cons]
    omega

theorem wholeFrom_cons {fputs : Nat → Option Nat} {s : List UInt8} {log : List (List UInt8)} :
    WholeFrom fputs i (s :: log) ↔
      (∀ size, fputs i = some size → s.length ≤ size) ∧ WholeFrom fputs (i + 1) log := by
  constructor
  · intro whole
    refine ⟨whole 0 (by simp), fun j h size failed => ?_⟩
    exact whole (j + 1) (by simpa using h) size (by rw [← failed]; congr 1; omega)
  · rintro ⟨first, rest⟩ j h size failed
    cases j with
    | zero => exact first size failed
    | succ j => exact rest j (by simpa using h) size (by rw [← failed]; congr 1; omega)

theorem written_eq {fputs : Nat → Option Nat} {i : Nat} {log : List (List UInt8)} :
    written fputs i log = log.flatten ↔ WholeFrom fputs i log := by
  induction log generalizing i with
  | nil => simp [written, WholeFrom]
  | cons s log ih =>
    rw [wholeFrom_cons, ← kept_eq, ← ih, written, List.flatten_cons]
    constructor
    · intro same
      have front := kept_length_le (fputs i) s
      have back := written_length_le fputs (i + 1) log
      have total := congrArg List.length same
      simp only [List.length_append] at total
      exact List.append_inj same (by omega)
    · rintro ⟨front, back⟩
      rw [front, back]

theorem kept_mem {failure : Option Nat} {content : List UInt8} {c : UInt8}
    (member : c ∈ kept failure content) :
    c ∈ content := by
  cases failure with
  | none => exact member
  | some size => exact List.mem_of_mem_take member

theorem written_mem {fputs : Nat → Option Nat} {i : Nat} {log : List (List UInt8)} {c : UInt8}
    (member : c ∈ written fputs i log) : c ∈ log.flatten := by
  induction log generalizing i with
  | nil => exact member
  | cons s log ih =>
    rw [List.flatten_cons, List.mem_append]
    exact (List.mem_append.mp member).imp kept_mem ih

theorem stored_mem {o : Outcomes} {log : List (List UInt8)} {c : UInt8} (member : c ∈ o.stored log) :
    c ∈ log.flatten :=
  written_mem (kept_mem member)

theorem stored_length_le (o : Outcomes) (log : List (List UInt8)) :
    (o.stored log).length ≤ log.flatten.length :=
  (kept_length_le _ _).trans (written_length_le _ _ _)

/-- The file holds all that was written exactly when no operation lost a byte. -/
theorem stored_eq (o : Outcomes) (log : List (List UInt8)) :
    o.stored log = log.flatten ↔ o.Whole log := by
  constructor
  · intro same
    have short := written_length_le o.fputs 0 log
    have shorter := kept_length_le o.fclose (written o.fputs 0 log)
    have total := congrArg List.length same
    rw [Outcomes.stored] at total
    have all : written o.fputs 0 log = log.flatten := by
      cases failure : o.fclose with
      | none => simpa only [Outcomes.stored, failure, kept] using same
      | some size =>
        have front : kept o.fclose (written o.fputs 0 log) <+: written o.fputs 0 log := by
          rw [failure]; exact List.take_prefix _ _
        exact (front.eq_of_length (by omega)).symm.trans same
    refine ⟨written_eq.mp all, ?_⟩
    rw [← all]
    exact kept_eq.mp (same.trans all.symm)
  · rintro ⟨strings, closed⟩
    rw [Outcomes.stored, written_eq.mpr strings]
    exact kept_eq.mpr closed

end SysHelo.Stdio
