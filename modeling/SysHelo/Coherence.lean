import SysHelo.Acknowledged
import SysHelo.Lib.System

/-! Whether the values in memory are those of the file, while ticks, requests and edits by other
programs come in any order. -/
namespace SysHelo
open CString Stdio Lines Loop MinIni

/-- A line whose header, if it looks like one, the writer and the reader see alike. -/
structure TidyLine (line : List UInt8) : Prop where
  free : 0 ∉ line
  short : (line.takeWhile (· ≠ newline)).length ≤ 250
  closed : opensSection line → line.head? = some '['.toUInt8 ∧ ']'.toUInt8 ∈ line

/-- A text that other programs may leave. -/
structure Tidy (text : List UInt8) : Prop where
  each : ∀ line ∈ lines newline text, TidyLine line
  single : (lines newline text).countP (isHead configValSection) ≤ 1

theorem takeWhile_unended {body : List UInt8} (unended : newline ∉ body) (back : List UInt8) :
    (body ++ back).takeWhile (· ≠ newline) = body ++ back.takeWhile (· ≠ newline) :=
  List.takeWhile_append_of_pos fun c member => by
    simpa using fun same : c = newline => unended (same ▸ member)

namespace TidyLine

theorem header {line : List UInt8} (tidy : TidyLine line) (opens : opensSection line) :
    ∃ name, parseLine line = .header name := by
  obtain ⟨first, close⟩ := tidy.closed opens
  obtain ⟨s, rfl⟩ : ∃ s, line = '['.toUInt8 :: s := List.head?_eq_some_iff.mp first
  have trimmed : ltrim ('['.toUInt8 :: s) = '['.toUInt8 :: s :=
    List.dropWhile_cons_of_neg (by decide)
  have inside : ']'.toUInt8 ∈ s := List.mem_of_ne_of_mem (by decide) close
  cases split : splitLast ']'.toUInt8 s with
  | none => exact absurd inside (splitLast_none.mp split)
  | some pair =>
    obtain ⟨rfl, free⟩ := splitLast_some split
    exact ⟨pair.1, parseLine_header.mpr ⟨pair.2, trimmed, free⟩⟩

theorem newline_append {line : List UInt8} (tidy : TidyLine line) (nonempty : line ≠ [])
    (unended : newline ∉ line) : TidyLine (line ++ [newline]) := by
  have content : (line ++ [newline]).takeWhile (· ≠ newline) = line.takeWhile (· ≠ newline) := by
    have whole := takeWhile_unended unended []
    rw [List.append_nil] at whole
    rw [takeWhile_unended unended, whole]
    rfl
  refine ⟨?_, by rw [content]; exact tidy.short, fun opens => ?_⟩
  · simpa using ⟨tidy.free, by decide⟩
  · have before : opensSection line := by
      unfold opensSection ltrim at opens ⊢
      rw [List.dropWhile_append] at opens
      split at opens
      · exact absurd opens (by decide)
      · rename_i some
        rwa [List.head?_append_of_ne_nil _ (by simpa using some)] at opens
    obtain ⟨first, close⟩ := tidy.closed before
    exact ⟨by rw [List.head?_append_of_ne_nil _ nonempty, first], List.mem_append_left _ close⟩

theorem of_sectionLog {configValues : SysHeloConfigValueList} {line : List UInt8}
    (member : line ∈ sectionLog configValSection (Config.iniSettings configValues)) : TidyLine line := by
  obtain ⟨short, free⟩ := Config.sectionLog_bounds member
  refine ⟨free, (List.takeWhile_prefix _).length_le.trans (short.trans (by decide)), fun opens => ?_⟩
  unfold sectionLog at member
  split at member
  · simp at member
  · simp only [List.mem_append, List.mem_cons, List.mem_map, List.not_mem_nil, or_false] at member
    rcases member with (rfl | ⟨setting, inside, rfl⟩) | rfl
    · simp
    · obtain ⟨key, named, -⟩ := Config.legible_iniSettings configValues setting inside
      obtain ⟨c, s, shape⟩ := List.exists_cons_of_ne_nil named
      have solid := key c (by simp [shape])
      simp [opensSection, ltrim, keyLine, shape, solid] at opens
    · exact absurd opens (by decide)

end TidyLine

namespace Tidy

theorem free {text : List UInt8} (tidy : Tidy text) : 0 ∉ text := by
  intro bad
  obtain ⟨line, member, inside⟩ := (mem_iff_lines newline).mp bad
  exact (tidy.each line member).free inside

theorem fits {text : List UInt8} (tidy : Tidy text) : Fits Config.LINE_LIMIT text := by
  intro line member
  obtain ⟨body, inside, shape⟩ := line_shape newline member
  have short := (tidy.each line member).short
  have content (back : List UInt8) := takeWhile_unended inside back
  rw [Config.LINE_LIMIT]
  rcases shape with rfl | rfl
  · rw [content, List.length_append] at short
    rw [List.length_append, List.length_singleton]
    omega
  · have whole := content []
    rw [List.append_nil] at whole
    rw [whole, List.length_append] at short
    omega

theorem replaced {configValues : SysHeloConfigValueList} {text out : List UInt8} (tidy : Tidy text)
    (replaced : Replaced configValSection (Config.iniSettings configValues) text out) : Tidy out := by
  have legible := Config.legible_iniSettings configValues
  constructor
  · intro line member
    rcases replaced.mem_lines Config.newline_not_mem_values legible member with
      old | new | rfl | ⟨last, old, unended, rfl⟩
    · exact tidy.each line old
    · exact .of_sectionLog new
    · exact ⟨by decide, by decide, fun opens => absurd opens (by decide)⟩
    · exact (tidy.each last old).newline_append (line_ne_nil newline old) unended
  · exact replaced.single_head Config.newline_not_mem_values legible tidy.single

theorem sectionText (configValues : SysHeloConfigValueList) :
    Tidy (MinIni.sectionText configValSection (Config.iniSettings configValues)) := by
  have split := Config.lines_sectionText configValues
  constructor
  · intro line member
    exact .of_sectionLog (split ▸ member)
  · rw [split]
    exact countP_sectionLog (Config.legible_iniSettings configValues)

/-- In a tidy text no entry below the section is read as one of the section. -/
theorem keepsSaved {text : List UInt8} (tidy : Tidy text) (configValues : SysHeloConfigValueList) :
    Config.KeepsSaved configValues text := by
  intro kval
  apply Config.lastOr_outside _ kval
  apply entriesBelow_outside tidy.single
  intro line member opens
  exact (tidy.each line member).header opens

end Tidy

/-- The card, every modification time that a version of the file has had, and the manager. -/
structure World where
  card : Card
  seen : List Int
  mgr : HeloManager

namespace World

/-- Another program replaces the text of the file. -/
inductive Edit : World → World → Prop where
  | replace {world : World} {files : Files} {text : List UInt8} {mtime : Int}
      (content : files Config.path = some text) (tidy : Tidy text) (dated : mtime ≠ 0)
      (fresh : mtime ∉ world.seen) :
      Edit world { world with card := ⟨files, mtime⟩, seen := mtime :: world.seen }

/-- A tick sees the file three times: when it asks whether it has changed, when the load asks for
its time, and when the load opens it. -/
inductive Step : World → World → Prop where
  | edit (edited : Edit world world') : Step world world'
  | saved {mtime : Int} (dated : mtime ≠ 0) (answered : Returns
        (IpcService.setConfigValues stack .ok configValues world.card.files world.mgr) (files, mgr', 0)) :
      Step world ⟨⟨files, mtime⟩, mtime :: world.seen, mgr'⟩
  | rejected (failed : rc ≠ 0) (answered : Returns
        (IpcService.setConfigValues stack .ok configValues world.card.files world.mgr) (files, mgr', rc)) :
      Step world ⟨⟨files, world.card.mtime⟩, world.seen, mgr'⟩
  | setEnabled (enabled : UInt8) :
      Step world { world with mgr := IpcService.setEnabled enabled world.mgr }
  | tick (applicationId : UInt64) (stack : Chars INI_BUFFERSIZE)
      (before : Relation.ReflTransGen Edit world stated)
      (between : Relation.ReflTransGen Edit stated opened) :
      Step world { opened with
        mgr := world.mgr.tick applicationId stack world.card.stat stated.card.stat
          opened.card.openRead }

/-- The sysmodule starts with any tidy file, or none. -/
def system : System World where
  start world := (∀ text, world.card.files Config.path = some text → Tidy text ∧ world.card.mtime ≠ 0) ∧
    world.seen = world.card.stat.toList ∧ world.mgr = .create
  step := Step

/-- The values in memory are those of the file as it is, whenever the configuration believes to
have seen that file; the time it remembers is that of a version there has been. -/
structure Coherent (world : World) : Prop where
  tidy : ∀ text, world.card.files Config.path = some text → Tidy text
  dated : ∀ text, world.card.files Config.path = some text →
    world.card.mtime ≠ 0 ∧ world.card.mtime ∈ world.seen
  remembered : world.mgr.config.mtime = 0 ∨ world.mgr.config.mtime ∈ world.seen
  current : world.card.Current world.mgr.config → world.mgr.config.configValues = world.card.values

namespace Coherent

theorem legible {world : World} (coherent : Coherent world) :
    ∀ text, world.card.files Config.path = some text → Fits Config.LINE_LIMIT text ∧ 0 ∉ text := by
  intro text content
  have tidy := coherent.tidy text content
  exact ⟨tidy.fits, tidy.free⟩

theorem readable {world : World} (coherent : Coherent world) : world.card.Readable := by
  intro text content
  obtain ⟨fits, free⟩ := coherent.legible text content
  exact ⟨Config.fits_room fits, free⟩

/-- The time a stat gives is 0, or one that a version has had. -/
theorem stat_seen {world : World} (coherent : Coherent world) :
    Config.checkModificationTime world.card.stat = 0 ∨
      Config.checkModificationTime world.card.stat ∈ world.seen := by
  rw [Card.stat_eq]
  cases content : world.card.files Config.path with
  | none => exact .inl rfl
  | some text => exact .inr (coherent.dated text content).2

theorem edits {world world' : World} (coherent : Coherent world)
    (edited : Relation.ReflTransGen Edit world world') :
    Coherent world' ∧ world'.mgr = world.mgr ∧ world.seen ⊆ world'.seen ∧
      (world'.card = world.card ∨
        Config.checkModificationTime world'.card.stat ≠ 0 ∧
          Config.checkModificationTime world'.card.stat ∉ world.seen) := by
  induction edited with
  | refl => exact ⟨coherent, rfl, List.Subset.refl _, .inl rfl⟩
  | @tail mid _ _ last ih =>
    obtain ⟨before, mgr, seen, -⟩ := ih
    cases last with
    | @replace files text mtime content tidy dated fresh =>
      have time : Config.checkModificationTime (Card.stat ⟨files, mtime⟩) = mtime := by
        simp [Card.stat_eq, content]
      have unseen (config : Config) (remembered : config.mtime = 0 ∨ config.mtime ∈ mid.seen) :
          ¬ Card.Current ⟨files, mtime⟩ config := by
        rintro ⟨-, same⟩
        rw [time] at same
        rcases remembered with zero | member
        · exact dated (same.symm.trans zero)
        · exact fresh (same ▸ member)
      refine ⟨⟨?_, ?_, before.remembered.imp_right (List.mem_cons_of_mem _),
        fun current => absurd current (unseen _ before.remembered)⟩, mgr,
        List.Subset.trans seen (List.subset_cons_self _ _), .inr ?_⟩
      · rintro other same
        obtain rfl := Option.some.inj (content.symm.trans same)
        exact tidy
      · intro _ _
        exact ⟨dated, List.mem_cons_self⟩
      · rw [time]
        exact ⟨dated, fun member => fresh (seen member)⟩

theorem tick {world stated opened : World} (coherent : Coherent world)
    (before : Relation.ReflTransGen Edit world stated)
    (between : Relation.ReflTransGen Edit stated opened) (applicationId : UInt64)
    (stack : Chars INI_BUFFERSIZE) :
    Coherent { opened with
      mgr := world.mgr.tick applicationId stack world.card.stat stated.card.stat opened.card.openRead } := by
  obtain ⟨first, mgr₁, seen₁, -⟩ := coherent.edits before
  obtain ⟨second, mgr₂, seen₂, moved⟩ := first.edits between
  rcases HeloManager.tick_loads applicationId stack world.card.stat stated.card.stat
    opened.card.openRead world.mgr with kept | loads
  · have same : opened.mgr.config = world.mgr.config := by rw [mgr₂, mgr₁]
    refine ⟨second.tidy, second.dated, ?_, ?_⟩
    · dsimp only
      rw [kept, ← same]
      exact second.remembered
    · dsimp only
      rw [kept, ← same]
      exact second.current
  · have time : (world.mgr.config.load stack stated.card.stat opened.card.openRead).mtime =
        Config.checkModificationTime stated.card.stat := by rw [Config.load_any]
    refine ⟨second.tidy, second.dated, ?_, ?_⟩
    · dsimp only
      rw [loads, time]
      exact first.stat_seen.imp_right fun member => seen₂ member
    · rintro ⟨-, same⟩
      dsimp only at same ⊢
      rw [loads, time] at same
      rcases moved with still | ⟨nonzero, unseen⟩
      · rw [loads, ← still, Card.load_eq (still ▸ second.readable)]
      · rcases first.stat_seen with zero | member
        · exact absurd (same.symm.trans zero) nonzero
        · exact absurd (same ▸ member) unseen

theorem saved {world : World} {stack : Chars INI_BUFFERSIZE} {configValues : SysHeloConfigValueList}
    {files : Files} {mgr : HeloManager} {mtime : Int} (coherent : Coherent world) (dated : mtime ≠ 0)
    (answered : Returns
      (IpcService.setConfigValues stack .ok configValues world.card.files world.mgr) (files, mgr, 0)) :
    Coherent ⟨⟨files, mtime⟩, mtime :: world.seen, mgr⟩ := by
  obtain ⟨-, bad, -⟩ | ⟨-, -, rfl, out, there, saved⟩ :=
    IpcService.setConfigValues_cases coherent.legible answered
  · exact absurd bad (by decide)
  have reads : Config.reading out = Config.acceptedValues configValues :=
    saved.reading_eq_iff.mpr fun text content => (coherent.tidy text content).keepsSaved configValues
  refine ⟨?_, fun _ _ => ⟨dated, List.mem_cons_self⟩,
    coherent.remembered.imp_right (List.mem_cons_of_mem _), fun _ => ?_⟩
  · intro text content
    obtain rfl := Option.some.inj (there.symm.trans content)
    cases old : world.card.files Config.path with
    | none => exact (show out = _ from old ▸ saved) ▸ Tidy.sectionText configValues
    | some text => exact (coherent.tidy text old).replaced (old ▸ saved)
  · simp only [Card.values, there, if_neg dated, reads]

theorem rejected {world : World} {stack : Chars INI_BUFFERSIZE} {configValues : SysHeloConfigValueList}
    {files : Files} {mgr : HeloManager} {rc : Result} (coherent : Coherent world) (failed : rc ≠ 0)
    (answered : Returns
      (IpcService.setConfigValues stack .ok configValues world.card.files world.mgr) (files, mgr, rc)) :
    Coherent ⟨⟨files, world.card.mtime⟩, world.seen, mgr⟩ := by
  obtain ⟨-, -, rfl, rfl⟩ | ⟨-, good, -⟩ := IpcService.setConfigValues_cases coherent.legible answered
  · exact coherent
  · exact absurd good failed

theorem start {world : World} (initial : system.start world) : Coherent world := by
  obtain ⟨tidy, seen, mgr⟩ := initial
  constructor
  · intro text content
    exact (tidy text content).1
  · intro text content
    refine ⟨(tidy text content).2, ?_⟩
    simp [seen, Card.stat, content]
  · exact .inl (by rw [mgr]; rfl)
  · intro current
    have loaded := current.1
    rw [mgr] at loaded
    contradiction

theorem invariant : system.Invariant Coherent where
  start _ initial := start initial
  step world world' coherent taken := by
    cases taken with
    | edit edited => exact (coherent.edits (.single edited)).1
    | saved dated answered => exact coherent.saved dated answered
    | rejected failed answered => exact coherent.rejected failed answered
    | setEnabled enabled => exact ⟨coherent.tidy, coherent.dated, coherent.remembered, coherent.current⟩
    | tick applicationId stack before between => exact coherent.tick before between applicationId stack

theorem refresh {world : World} (coherent : Coherent world) (stack : Chars INI_BUFFERSIZE) :
    (world.mgr.config.refresh stack world.card.stat world.card.stat
      world.card.openRead).1.configValues = world.card.values := by
  by_cases current : world.card.Current world.mgr.config
  · rw [Card.refresh_current current]
    exact coherent.current current
  · rw [Card.refresh_stale current, Card.load_eq coherent.readable]

end Coherent

/-- After every tick that finds the context unchanged, and sees the same file throughout, the
values in memory are those that a new configuration would load. -/
theorem tick_coherent {world : World} (reached : system.Reachable world) {applicationId : UInt64}
    (settled : (world.mgr.refreshContext applicationId).2 = false) (stack stack' : Chars INI_BUFFERSIZE) :
    (world.mgr.tick applicationId stack world.card.stat world.card.stat
        world.card.openRead).config.configValues =
      (Config.createDefault.load stack' world.card.stat world.card.openRead).configValues := by
  have coherent := Coherent.invariant.reachable reached
  rw [HeloManager.refreshContext_eq, decide_eq_false_iff_not, not_not] at settled
  rw [Card.load_eq coherent.readable, ← coherent.refresh stack, HeloManager.tick_eq, if_pos settled]

/-- There was no file until another program has put one there that asks for 7 ms. -/
def editedWorld : World where
  card := ⟨fun _ => some (MinIni.sectionText configValSection (Config.iniSettings fun _ => 7)), 1⟩
  seen := [1]
  mgr := .create

theorem tick_coherent_edited : (editedWorld.mgr.tick 0 (.replicate _ 0) editedWorld.card.stat
    editedWorld.card.stat editedWorld.card.openRead).config.configValues = fun _ => 7 := by
  have reached : system.Reachable editedWorld := by
    refine ⟨⟨⟨Config.emptyCard, 0⟩, [], .create⟩, ⟨fun text content => ?_, ?_, rfl⟩,
      .single (.edit (.replace rfl (Tidy.sectionText _) (by decide) (by simp)))⟩
    · exact absurd (Config.emptyCard_path.symm.trans content) (by simp)
    · simp [Card.stat, Config.emptyCard_path]
  have readable := (Coherent.invariant.reachable reached).readable
  rw [tick_coherent reached rfl _ (.replicate _ 0), Card.load_eq readable]
  funext kval
  cases kval
  decide

end World

end SysHelo
