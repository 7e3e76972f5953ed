import SysHelo.MinIni.PutsDocument

/-! A file is a table of settings: whatever is put and erased by calls of `ini_puts`, one after the
other, `ini_gets` finds what the table has. -/
namespace SysHelo.MinIni
open CString Stdio Lines Loop Sections

section Free
variable {sectionName : List UInt8} {key value : Option (List UInt8)} {pieces rest cached : List (List UInt8)}

theorem flatten_free (free : ∀ l ∈ pieces, 0 ∉ l) (inside : ∀ l ∈ rest, l ∈ pieces) : 0 ∉ rest.flatten := by
  intro member
  obtain ⟨l, there, zero⟩ := List.mem_flatten.mp member
  exact free l (inside l there) zero

theorem separator_free (cached : List (List UInt8)) : 0 ∉ separator cached := by
  have terminator : (0 : UInt8) ≠ newline := by decide
  unfold separator
  split <;> simp [terminator]

theorem lastText_free (header : 0 ∉ headerText sectionName) (setting : 0 ∉ settingText key value) :
    0 ∉ lastText cached sectionName key value := by
  cases key with
  | none => simp [lastText]
  | some k =>
    cases value with
    | none => simp [lastText]
    | some v =>
      rw [settingText] at setting
      simp [lastText_setting, separator_free, header, setting]

theorem entryText_free {k : List UInt8} (free : ∀ l ∈ rest, 0 ∉ l)
    (setting : 0 ∉ settingText (some k) value) :
    0 ∉ entryText k value rest := by
  have above := flatten_free free fun l =>
    (List.takeWhile_prefix (fun line => !endsSearch (some k) line)).mem (a := l)
  unfold entryText
  dsimp only
  split
  · rw [List.mem_append, not_or]
    exact ⟨above, lastText_free (by simp [headerText]) setting⟩
  · rename_i line more split
    have suffix := List.dropWhile_suffix (fun line => !endsSearch (some k) line) (l := rest)
    rw [split] at suffix
    have below : 0 ∉ (if opensSection line then line :: more else more).flatten := by
      apply flatten_free free
      intro l member
      split at member
      · exact suffix.mem member
      · exact suffix.mem (List.mem_cons_of_mem _ member)
    simp only [List.mem_append, not_or]
    exact ⟨⟨above, setting⟩, below⟩

theorem sectionRewritten_free {head : List (List UInt8)} (headFree : ∀ l ∈ head, 0 ∉ l)
    (free : ∀ l ∈ rest, 0 ∉ l)
    (setting : 0 ∉ settingText key value) : 0 ∉ sectionRewritten key value head rest := by
  cases key with
  | none => exact flatten_free free fun l => (List.dropWhile_suffix _).mem
  | some k =>
    rw [sectionRewritten, List.mem_append, not_or]
    exact ⟨flatten_free headFree fun l => id, entryText_free free setting⟩

theorem settingRewritten_free (free : ∀ l ∈ pieces, 0 ∉ l) (header : 0 ∉ headerText sectionName)
    (setting : 0 ∉ settingText key value) : 0 ∉ settingRewritten sectionName key value pieces := by
  have later : ∀ l ∈ linesFrom sectionName pieces, 0 ∉ l := fun l member =>
    free l ((List.dropWhile_suffix _).mem member)
  unfold settingRewritten
  split_ifs with top keyless found
  · exact flatten_free free fun l member => List.mem_of_mem_tail ((List.dropWhile_suffix _).mem member)
  · exact sectionRewritten_free (by simp) free setting
  · rw [List.mem_append, not_or]
    refine ⟨flatten_free free fun l => (List.takeWhile_prefix _).mem, sectionRewritten_free ?_ ?_ setting⟩
    · exact fun l member => later l (List.mem_of_mem_take member)
    · exact fun l member => later l (List.mem_of_mem_tail member)
  · rw [List.mem_append, not_or]
    exact ⟨flatten_free free fun l => id, lastText_free header setting⟩

end Free

abbrev IniRequest := Request (List UInt8) (List UInt8)

namespace IniRequest

/-- The arguments of the call. -/
def sectionName : IniRequest → Option (List UInt8)
  | .put name _ _ => name
  | .eraseKey name _ => name
  | .eraseSection name => some name

def key : IniRequest → Option (List UInt8)
  | .put _ key _ => some key
  | .eraseKey _ key => some key
  | .eraseSection _ => none

def value : IniRequest → Option (List UInt8)
  | .put _ _ value => some value
  | .eraseKey _ _ => none
  | .eraseSection _ => none

/-- What is written is not cut, and is read again as it was. -/
def Legible : IniRequest → Prop
  | .put name key value => (∀ n, name = some n → LegibleName n) ∧ LegibleSetting key value ∧
      readBack value = value
  | .eraseKey name key => (∀ n, name = some n → LegibleName n) ∧ LegibleKey key
  | .eraseSection name => LegibleName name

theorem Legible.name {request : IniRequest} (legible : request.Legible) :
    ∀ n, request.sectionName = some n → LegibleName n := by
  cases request with
  | put name key value => exact legible.1
  | eraseKey name key => exact legible.1
  | eraseSection name =>
    intro n same
    exact Option.some.inj same ▸ legible

theorem Legible.sectionOf {request : IniRequest} (legible : request.Legible) :
    sectionOf request.sectionName = request.sectionName := by
  cases shape : request.sectionName with
  | none => rfl
  | some n => exact sectionOf_some.mpr ⟨rfl, (legible.name n shape).named.nonempty⟩

theorem Legible.putting {request : IniRequest} (legible : request.Legible) :
    Putting (request.sectionName.getD []) request.key request.value := by
  constructor
  · intro k v isKey isValue
    cases request with
    | put name key value =>
      obtain rfl := Option.some.inj isKey
      obtain rfl := Option.some.inj isValue
      exact legible.2.1.writable
    | eraseKey | eraseSection => contradiction
  · intro named
    cases shape : request.sectionName with
    | none =>
      rw [shape] at named
      contradiction
    | some n => exact (legible.name n shape).named

end IniRequest

/-- A file that is not there has no settings. -/
def contentDocument (content : Option (List UInt8)) : Doc := readDocument (content.getD [])

/-- A file that `ini_puts` can be applied to again and again: nothing is there twice. -/
structure Tidy (content : Option (List UInt8)) : Prop where
  free : ∀ text ∈ content, 0 ∉ text
  distinct : (contentDocument content).Distinct folded

theorem tidy_absent : (contentDocument none).Distinct folded where
  top := List.nodup_nil
  keys := fun _ member => absurd member List.not_mem_nil
  names := List.nodup_nil

/-- The value of each key in each section. -/
def contentTable (content : Option (List UInt8)) : Option (List UInt8) → List UInt8 → Option (List UInt8) :=
  fun name key => (contentDocument content).get folded name key

section Step
variable {request : IniRequest} {content : Option (List UInt8)}

theorem headerText_free (legible : request.Legible) : 0 ∉ headerText (request.sectionName.getD []) := by
  have opening : (0 : UInt8) ≠ '['.toUInt8 := by decide
  have closing : (0 : UInt8) ≠ ']'.toUInt8 := by decide
  have terminator : (0 : UInt8) ≠ newline := by decide
  unfold headerText
  split
  · simp
  · cases shape : request.sectionName with
    | none => simp_all
    | some n => simp [(legible.name n shape).named.free, opening, closing, terminator]

theorem settingText_free (legible : request.Legible) : 0 ∉ settingText request.key request.value := by
  have equal : (0 : UInt8) ≠ '='.toUInt8 := by decide
  have terminator : (0 : UInt8) ≠ newline := by decide
  cases request with
  | put name key value =>
    have writable := legible.2.1.writable
    simp [IniRequest.key, IniRequest.value, settingText, keyLine, writable.keyFree,
      quoted_free writable.valueFree,
      equal, terminator]
  | eraseKey | eraseSection => simp [IniRequest.key, IniRequest.value, settingText]

theorem putContent_free (legible : request.Legible) (free : ∀ text ∈ content, 0 ∉ text) :
    ∀ text ∈ putContent request.sectionName request.key request.value content, 0 ∉ text := by
  have header := headerText_free legible
  have setting := settingText_free legible
  cases content with
  | none =>
    cases request with
    | put name key value =>
      intro text same
      obtain rfl := Option.some.inj same
      rw [List.mem_append, not_or]
      exact ⟨header, setting⟩
    | eraseKey | eraseSection => simp [putContent, IniRequest.key, IniRequest.value]
  | some old =>
    have oldFree := free old rfl
    intro text same
    obtain rfl := Option.some.inj same
    have rewritten := settingRewritten_free (readPieces_free oldFree) header setting
    unfold putText
    dsimp only
    split
    · split
      · exact oldFree
      · exact rewritten
    · exact rewritten

theorem readDocument_new {name : Option (List UInt8)} {key value : List UInt8}
    (legible : ∀ n, name = some n → LegibleName n) (setting : LegibleSetting key value) :
    readDocument (headerText (name.getD []) ++ keyLine (key, quoted value)) =
      (readDocument []).put folded name key (readBack value) := by
  have line := parseLine_written setting.legible value
  have inner := inner_written setting.legible value
  have written := cut_setting setting .nil
  cases name with
  | none =>
    have read := readDocument_pieces written
    have shape : headerText [] ++ keyLine (key, quoted value) = [keyLine (key, quoted value)].flatten := by
      simp [headerText]
    rw [Option.getD_none, shape, read, document_entry inner line]
    rfl
  | some n =>
    obtain ⟨named, plain⟩ := legible n rfl
    have read := readDocument_pieces (cut_header ⟨named, plain⟩ written)
    have shape : headerText n ++ keyLine (key, quoted value) =
        ['['.toUInt8 :: n ++ [']'.toUInt8, newline], keyLine (key, quoted value)].flatten := by
      simp [headerText, named.nonempty]
    rw [Option.getD_some, shape, read, document_opens (header_opens parseLine_head),
      headerName_iff.mpr parseLine_head, document_entry inner line]
    rfl

/-- One request: it is carried out, unless the key has the value already. -/
theorem putContent_apply (legible : request.Legible) (content : Option (List UInt8)) :
    contentDocument (putContent request.sectionName request.key request.value content) =
        request.apply folded (contentDocument content) ∨
      contentDocument (putContent request.sectionName request.key request.value content) =
        contentDocument content ∧
        request.effect folded (contentTable content) = contentTable content := by
  cases content with
  | none =>
    left
    cases request with
    | put name key value =>
      obtain ⟨named, setting, restored⟩ := legible
      have new := readDocument_new named setting
      rw [restored] at new
      exact new
    | eraseKey name key =>
      cases name <;> rfl
    | eraseSection name => rfl
  | some text =>
    cases request with
    | put name key value =>
      obtain ⟨named, setting, restored⟩ := legible
      have pointer : sectionOf name = name := IniRequest.Legible.sectionOf
        (show IniRequest.Legible (.put name key value) from ⟨named, setting, restored⟩)
      by_cases there : MinIni.setting text name key = some value
      · right
        refine ⟨?_, ?_⟩
        · exact congrArg readDocument (putText_same there)
        · funext other k
          rw [MinIni.setting, if_neg setting.legible.named, pointer] at there
          simp only [Request.effect, contentTable, contentDocument, Option.getD_some]
          split
          · rename_i both
            rw [← there, Document.get_congr both.1 both.2]
          · rfl
      · left
        have put := readDocument_put text setting fun n shape => named n (pointer ▸ shape)
        rw [pointer, restored] at put
        exact (congrArg readDocument (putText_other there)).trans put
    | eraseKey name key =>
      left
      obtain ⟨named, written⟩ := legible
      have erased := readDocument_eraseKey text name written
      have pointer : sectionOf name = name := IniRequest.Legible.sectionOf
        (show IniRequest.Legible (.eraseKey name key) from ⟨named, written⟩)
      rw [pointer] at erased
      exact erased
    | eraseSection name =>
      left
      exact readDocument_eraseSection text legible.named.nonempty none

/-- Nothing else is changed, and nothing is there twice afterwards. -/
theorem putContent_spec (legible : request.Legible) (tidy : Tidy content) :
    Tidy (putContent request.sectionName request.key request.value content) ∧
      contentTable (putContent request.sectionName request.key request.value content) =
        request.effect folded (contentTable content) := by
  obtain ⟨applied, effect⟩ := request.apply_spec tidy.distinct
  have free := putContent_free legible tidy.free
  rcases putContent_apply legible content with done | ⟨same, none⟩
  · rw [← done] at applied effect
    exact ⟨⟨free, applied⟩, funext fun name => funext (effect name)⟩
  · refine ⟨⟨free, same ▸ tidy.distinct⟩, ?_⟩
    rw [none]
    funext name k
    simp only [contentTable, same]

theorem putContent_put {name : Option (List UInt8)} {key value : List UInt8}
    (legible : IniRequest.Legible (.put name key value)) (content : Option (List UInt8)) :
    contentTable (putContent name (some key) (some value) content) name key = some value := by
  have effect : (Request.put name key value).effect folded (contentTable content) name key = some value :=
    if_pos ⟨rfl, rfl⟩
  rcases putContent_apply legible content with done | ⟨same, none⟩
  · have put : ((contentDocument content).put folded name key value).get folded name key = some value := by
      rw [Document.get_put, if_pos ⟨rfl, rfl⟩]
    exact (congrArg (Document.get folded name key) done).trans put
  · rw [none] at effect
    exact (congrArg (Document.get folded name key) same).trans effect

end Step

/-- A setting that has just been put is left alone when it is put again: whatever could not be written by
then, the second call reports success and no file changes. -/
theorem iniPuts_again {name : Option (List UInt8)} {key value : List UInt8} {filename : Path} {files : Files}
    (legible : IniRequest.Legible (.put name key value)) (named : Filename filename)
    (free : ∀ text ∈ files filename, 0 ∉ text) (stack inner : Chars INI_BUFFERSIZE) :
    ∃ files', Returns (iniPuts stack inner .ok true name (some key) (some value) filename files)
      (files', true) ∧
      ∀ (stack inner : Chars INI_BUFFERSIZE) (o : Outcomes) (fopenUpdate : Bool), o.fopenRead = true →
        Returns (iniPuts stack inner o fopenUpdate name (some key) (some value) filename files')
          (files', true) := by
  have pointer : sectionOf name = name := legible.sectionOf
  have writable : Writable key value := legible.2.1.writable
  obtain ⟨files', returns, content, -⟩ := iniPuts_spec rfl free named legible.putting stack inner
  refine ⟨files', returns, fun stack inner o fopenUpdate opened => ?_⟩
  have free' := putContent_free legible free
  have put := putContent_put legible (files filename)
  obtain ⟨text, written⟩ : ∃ text, putContent name (some key) (some value) (files filename) = some text := by
    cases files filename with
    | none => exact ⟨_, rfl⟩
    | some text => exact ⟨_, rfl⟩
  have there : setting text name key = some value := by
    rw [setting, if_neg legible.2.1.legible.named, pointer]
    rw [written] at put
    exact put
  have plan : putsPlan stack inner ⟨text, 0⟩ name (some key) (some value) = .keep := by
    rcases putsPlan_spec name (free' text written) writable stack inner with
      ⟨keeps, -⟩ | ⟨head, line, -, other, -⟩ | ⟨buf, -, other⟩
    · exact keeps
    · exact absurd there other
    · exact absurd there other
  have read : Files.fopenRead o files' filename = some ⟨text, 0⟩ := by
    simp [Files.fopenRead, opened, content.trans written]
  unfold iniPuts
  rw [read]
  dsimp only
  rw [plan]
  exact .pure _

/-- Where there was no file, with a value that is kept in quotes. -/
theorem iniPuts_again_new : ∃ files',
    Returns (iniPuts (.replicate _ 0) (.replicate _ 0) .ok true (some (bytes "S")) (some (bytes "a"))
      (some (bytes "x;y")) (bytes "x.ini") fun _ => none) (files', true) ∧
    Returns (iniPuts (.replicate _ 0) (.replicate _ 0) { Outcomes.ok with fopenWrite := false } false
      (some (bytes "S")) (some (bytes "a")) (some (bytes "x;y")) (bytes "x.ini") files') (files', true) := by
  have named : Filename (bytes "x.ini") := by decide
  have legible : IniRequest.Legible (.put (some (bytes "S")) (bytes "a") (bytes "x;y")) := by
    refine ⟨fun n same => ?_, by decide, by decide⟩
    obtain rfl := Option.some.inj same
    decide
  obtain ⟨files', returns, again⟩ := @iniPuts_again _ _ _ _ (fun _ => none) legible named (by simp)
    (.replicate _ 0) (.replicate _ 0)
  exact ⟨files', returns, again _ _ _ _ rfl⟩

/-- A call of `ini_puts`, with what its uninitialised buffers hold. -/
structure PutsCall where
  stack : Chars INI_BUFFERSIZE
  inner : Chars INI_BUFFERSIZE
  request : IniRequest

/-- The files after all calls, and whether every call has returned success. -/
def iniRun (filename : Path) : List PutsCall → Files → Program (Files × Bool)
  | [], files => pure (files, true)
  | call :: rest, files => do
    let (files, done) ← iniPuts call.stack call.inner .ok true call.request.sectionName call.request.key
      call.request.value filename files
    let (files, others) ← iniRun filename rest files
    pure (files, done && others)

/-- What the calls make of a table. -/
def runTable (calls : List PutsCall) (table : Option (List UInt8) → List UInt8 → Option (List UInt8)) :
    Option (List UInt8) → List UInt8 → Option (List UInt8) :=
  calls.foldl (fun table call => call.request.effect folded table) table

section Run
variable {filename : Path} {calls : List PutsCall} {files : Files}

theorem iniRun_spec (legible : ∀ call ∈ calls, call.request.Legible) (named : Filename filename)
    (tidy : Tidy (files filename)) :
    ∃ files', Returns (iniRun filename calls files) (files', true) ∧ Tidy (files' filename) ∧
      contentTable (files' filename) = runTable calls (contentTable (files filename)) ∧
      ∀ path, path ≠ filename → path ≠ tempname filename → files' path = files path := by
  induction calls generalizing files with
  | nil => exact ⟨files, Returns.pure _, tidy, rfl, fun _ _ _ => rfl⟩
  | cons call rest ih =>
    have first := legible call (by simp)
    obtain ⟨files₁, returns, content, others⟩ :=
      iniPuts_spec rfl tidy.free named first.putting call.stack call.inner
    obtain ⟨after, effect⟩ := putContent_spec first tidy
    rw [← content] at after effect
    obtain ⟨files₂, onward, tidy', table, others'⟩ := ih (fun c member => legible c (by simp [member])) after
    refine ⟨files₂, Returns.bind returns (Returns.bind onward (Returns.pure _)), tidy', ?_, ?_⟩
    · rw [table, effect]
      rfl
    · intro path apart kept
      rw [others' path apart kept, others path apart kept]

variable {size : Nat} (room : 0 < size) (inside : size ≤ n)
include room inside

theorem iniGets_content {content : Option (List UInt8)} (free : ∀ text ∈ content, 0 ∉ text)
    (stack : Chars INI_BUFFERSIZE) (sectionName : Option (List UInt8)) {key : List UInt8} (given : key ≠ [])
    {defValue : Option (List UInt8)} (defFree : 0 ∉ defValue.getD []) (buffer : Chars n) :
    Gives (iniGets stack sectionName (some key) defValue buffer size (content.map (⟨·, 0⟩)))
      (((contentTable content (sectionOf sectionName) key).getD (defValue.getD [])).take (size - 1)) := by
  cases content with
  | none =>
    have copied := iniStrncpy_take buffer (defValue.getD []) size defFree
      (show QuoteOption.none ≠ .enquote by decide)
    have read := str_filled buffer room inside defFree
    have nothing : contentTable none (sectionOf sectionName) key = none := by
      cases sectionOf sectionName <;> rfl
    rw [nothing, Option.getD_none]
    simp only [Gives, iniGets, Option.map_none, Option.bind_none, room.ne', reduceCtorEq, or_self,
      if_false, copied,
      QuoteOption.copied, strlen]
    exact ⟨read, congrArg List.length read⟩
  | some text =>
    have found := iniGets_spec (free text rfl) room inside stack sectionName key defFree buffer
    rw [setting, if_neg given] at found
    exact found

/-- Whatever has been put and erased, `ini_gets` finds what is left of it. -/
theorem iniRun_gets (legible : ∀ call ∈ calls, call.request.Legible) (named : Filename filename)
    (tidy : Tidy (files filename)) :
    ∃ files', Returns (iniRun filename calls files) (files', true) ∧
      ∀ (stack : Chars INI_BUFFERSIZE) (sectionName : Option (List UInt8)) (key : List UInt8)
        (defValue : Option (List UInt8)) (buffer : Chars n), key ≠ [] → 0 ∉ defValue.getD [] →
        Gives (iniGets stack sectionName (some key) defValue buffer size
          (Files.fopenRead .ok files' filename))
          (((runTable calls (contentTable (files filename)) (sectionOf sectionName) key).getD
            (defValue.getD [])).take (size - 1)) := by
  obtain ⟨files', returns, tidy', table, -⟩ := iniRun_spec legible named tidy
  refine ⟨files', returns, fun stack sectionName key defValue buffer given defFree => ?_⟩
  rw [← table]
  exact iniGets_content room inside tidy'.free stack sectionName given defFree buffer

end Run

/-- A setting in a section, put where there is no file yet, and another that is erased again. -/
theorem iniRun_gets_twice : ∃ files',
    Returns (iniRun (bytes "x.ini")
      [⟨.replicate _ 0, .replicate _ 0, .put (some (bytes "S")) (bytes "a") (bytes "1")⟩,
        ⟨.replicate _ 0, .replicate _ 0, .eraseKey none (bytes "b")⟩] fun _ => none) (files', true) ∧
    Gives (iniGets (.replicate _ 0) (some (bytes "s")) (some (bytes "A")) none (.replicate 8 0) 8
      (Files.fopenRead .ok files' (bytes "x.ini"))) (bytes "1") := by
  have named : Filename (bytes "x.ini") := by decide
  have tidy : Tidy none := ⟨by simp, tidy_absent⟩
  have legible : ∀ call ∈ [
      (⟨.replicate _ 0, .replicate _ 0, .put (some (bytes "S")) (bytes "a") (bytes "1")⟩ : PutsCall),
      ⟨.replicate _ 0, .replicate _ 0, .eraseKey none (bytes "b")⟩], call.request.Legible := by
    intro call member
    rw [List.mem_cons, List.mem_singleton] at member
    rcases member with rfl | rfl
    · refine ⟨fun n same => ?_, by decide, by decide⟩
      obtain rfl := Option.some.inj same
      decide
    · exact ⟨by simp, by decide⟩
  obtain ⟨files', returns, gets⟩ :=
    @iniRun_gets 8 _ _ (fun _ => none) 8 (by decide) le_rfl legible named tidy
  exact ⟨files', returns, gets _ _ _ none _ (by decide) (by decide)⟩

end SysHelo.MinIni
