import SysHelo.Config

/-! Loading the configuration is reading the file entry by entry: the last entry of a key
counts, and every value is valid afterwards. -/
namespace SysHelo
open CString Stdio Numeral Lines MinIni

theorem format_injective {kval kval' : SysHeloConfigValue}
    (same : sysHeloFormatConfigValue kval false = sysHeloFormatConfigValue kval' false) :
    kval = kval' := by
  cases kval; cases kval'; rfl

theorem default_valid (kval : SysHeloConfigValue) :
    sysHeloValidConfigValue kval (sysHeloDefaultConfigValue kval) := by
  cases kval; decide

namespace Config

theorem accepted_valid (kval : SysHeloConfigValue) (input : UInt64) :
    sysHeloValidConfigValue kval (accepted kval input) := by
  unfold accepted
  split
  · assumption
  · exact default_valid kval

/-- The entries that count for a key. -/
def names (kval : SysHeloConfigValue) (e : Entry) : Bool :=
  e.sectionName = configValSection && e.key = sysHeloFormatConfigValue kval false

/-- The value of the last entry for a key, or `start` without one. -/
def lastOr (start : UInt64) (kval : SysHeloConfigValue) (es : List Entry) : UInt64 :=
  match (es.filter (names kval)).getLast? with
  | none => start
  | some e => accepted kval (strtoul e.value)

/-- What a text gives a key. -/
def reading (text : List UInt8) (kval : SysHeloConfigValue) : UInt64 :=
  lastOr (sysHeloDefaultConfigValue kval) kval (readEntries text)

theorem lastOr_cons (start : UInt64) (kval : SysHeloConfigValue) (e : Entry) (es : List Entry) :
    lastOr start kval (e :: es) =
      lastOr (if names kval e then accepted kval (strtoul e.value) else start) kval es := by
  unfold lastOr
  by_cases named : names kval e
  · rw [List.filter_cons_of_pos named, if_pos named, List.getLast?_cons]
    cases (es.filter (names kval)).getLast? <;> rfl
  · rw [List.filter_cons_of_neg named, if_neg named]

theorem browseIniFunc_spec (e : Entry) (config : Config) :
    browseIniFunc e.sectionName e.key e.value config =
      ({ config with
        configValues := fun kval =>
          if names kval e then accepted kval (strtoul e.value) else config.configValues kval }, true) := by
  unfold browseIniFunc
  by_cases inside : e.sectionName = configValSection
  · rw [if_pos inside]
    cases found : SysHeloConfigValue.all.find? (e.key = sysHeloFormatConfigValue · false) with
    | none =>
      have absent (kval) : names kval e = false := by
        have := List.find?_eq_none.mp found kval (SysHeloConfigValue.mem_all kval)
        simpa [names, inside] using this
      simp [absent]
    | some kval =>
      have same : e.key = sysHeloFormatConfigValue kval false := by simpa using List.find?_some found
      have named (kval') : names kval' e ↔ kval' = kval := by
        constructor
        · intro names
          have key := (Bool.and_eq_true_iff.mp names).2
          exact format_injective ((of_decide_eq_true key).symm.trans same)
        · intro equal
          simp [names, inside, same, equal]
      have updated : Function.update config.configValues kval (accepted kval (strtoul e.value)) =
          fun kval => if names kval e then accepted kval (strtoul e.value) else config.configValues kval := by
        funext kval'
        by_cases its : kval' = kval
        · rw [its, Function.update_self, if_pos ((named kval).mpr rfl)]
        · rw [Function.update_of_ne its, if_neg (fun names => its ((named kval').mp names))]
      dsimp only
      rw [updated]
  · have outside (kval) : names kval e = false := by simp [names, inside]
    simp [inside, outside]

theorem browseIniFunc_goesOn (sectionName key value : List UInt8) (config : Config) :
    (browseIniFunc sectionName key value config).2 = true := by
  have spec := browseIniFunc_spec ⟨sectionName, key, value⟩ config
  dsimp only at spec
  rw [spec]

theorem runCallback_browseIniFunc (es : List Entry) (config : Config) :
    runCallback browseIniFunc es config =
      { config with configValues := fun kval => lastOr (config.configValues kval) kval es } := by
  induction es generalizing config with
  | nil => rfl
  | cons e es ih =>
    rw [runCallback, browseIniFunc_spec]
    dsimp only
    rw [ih]
    simp only [lastOr_cons]

theorem lastOr_valid {start : UInt64} {kval : SysHeloConfigValue}
    (valid : sysHeloValidConfigValue kval start) (es : List Entry) :
    sysHeloValidConfigValue kval (lastOr start kval es) := by
  unfold lastOr
  split
  · exact valid
  · exact accepted_valid kval _

/-- What loading gives a key, whatever is in the file. -/
def loadedValue (stack : Chars INI_BUFFERSIZE) (stat : Option Int) (file : Option ReadFile)
    (kval : SysHeloConfigValue) : UInt64 :=
  if checkModificationTime stat = 0 then sysHeloDefaultConfigValue kval
  else lastOr (sysHeloDefaultConfigValue kval) kval (handedOver stack file)

/-- Everything loading does, whatever is in the file. -/
theorem load_any (stack : Chars INI_BUFFERSIZE) (stat : Option Int) (file : Option ReadFile)
    (config : Config) :
    config.load stack stat file =
      ⟨true, checkModificationTime stat, config.enabled, loadedValue stack stat file⟩ := by
  unfold load loadedValue
  dsimp only
  by_cases missing : checkModificationTime stat = 0
  · simp only [missing, if_true]
    rfl
  · simp only [if_neg missing, iniBrowse_calls browseIniFunc_goesOn, runCallback_browseIniFunc]
    rfl

/-- `Refresh` loads the file. -/
def Stale (config : Config) (stat : Option Int) : Prop :=
  ¬ config.loaded ∨ config.mtime ≠ checkModificationTime stat

instance (config : Config) (stat : Option Int) : Decidable (config.Stale stat) :=
  inferInstanceAs (Decidable (_ ∨ _))

theorem refresh_eq (stack : Chars INI_BUFFERSIZE) (stat stat' : Option Int) (file : Option ReadFile)
    (config : Config) :
    (config.refresh stack stat stat' file).1 =
      if config.Stale stat then config.load stack stat' file else config := by
  have stale : config.Stale stat ↔ !config.loaded ∨ config.mtime ≠ checkModificationTime stat := by
    simp [Stale]
  unfold refresh
  by_cases loads : config.Stale stat
  · rw [if_pos loads, if_pos (by simpa using stale.mp loads)]
  · rw [if_neg loads, if_neg (by simpa using mt stale.mpr loads)]

theorem loadedValue_valid (stack : Chars INI_BUFFERSIZE) (stat : Option Int) (file : Option ReadFile)
    (kval : SysHeloConfigValue) : sysHeloValidConfigValue kval (loadedValue stack stat file kval) := by
  unfold loadedValue
  split
  · exact default_valid kval
  · exact lastOr_valid (default_valid kval) _

/-- The longest line, newline included, of a file that other programs may leave. -/
def LINE_LIMIT : Nat := 251

theorem fits_room {text : List UInt8} (fits : Fits LINE_LIMIT text) : Fits LINE_ROOM text :=
  fun line member => (fits line member).trans (by decide)

theorem loadedValue_text (stack : Chars INI_BUFFERSIZE) {mtime : Int} (found : mtime ≠ 0)
    {text : List UInt8} (fits : Fits LINE_ROOM text) (free : 0 ∉ text) :
    loadedValue stack (some mtime) (some ⟨text, 0⟩) = reading text := by
  funext kval
  unfold loadedValue reading
  rw [checkModificationTime, Option.getD_some, if_neg found, handedOver_eq stack fits free]

theorem load_eq (stack : Chars INI_BUFFERSIZE) (config : Config) {mtime : Int} (found : mtime ≠ 0)
    {text : List UInt8} (fits : Fits LINE_ROOM text) (free : 0 ∉ text) :
    config.load stack (some mtime) (some ⟨text, 0⟩) =
      ⟨true, mtime, config.enabled, reading text⟩ := by
  rw [load_any, loadedValue_text stack found fits free]
  rfl

/-- After loading, every key has the value of its last entry, or its default when there is no
entry or that value is invalid; so every value is valid. -/
theorem load_spec (stack : Chars INI_BUFFERSIZE) (config : Config) {mtime : Int} (found : mtime ≠ 0)
    {text : List UInt8} (fits : Fits LINE_LIMIT text) (free : 0 ∉ text) (kval : SysHeloConfigValue) :
    let values := (config.load stack (some mtime) (some ⟨text, 0⟩)).configValues
    values kval =
        (match ((readEntries text).filter fun e =>
            e.sectionName = bytes "values" ∧ e.key = sysHeloFormatConfigValue kval false).getLast? with
          | none => sysHeloDefaultConfigValue kval
          | some e =>
            if sysHeloValidConfigValue kval (strtoul e.value) then strtoul e.value
            else sysHeloDefaultConfigValue kval) ∧
      sysHeloValidConfigValue kval (values kval) := by
  dsimp only
  rw [load_eq stack config found (fits_room fits) free]
  refine ⟨?_, lastOr_valid (default_valid kval) _⟩
  have same : (fun e : Entry => decide (e.sectionName = bytes "values" ∧
      e.key = sysHeloFormatConfigValue kval false)) = names kval := by
    funext e
    rw [names, configValSection, Bool.decide_and]
  rw [same]
  rfl

theorem load_spec_hex : (createDefault.load (.replicate _ 0) (some 1)
    (some ⟨bytes "[values]\ntick_interval_ms = 0x64 ; c\n", 0⟩)).configValues .tickIntervalMs = 100 := by
  obtain ⟨value, -⟩ := load_spec (.replicate _ 0) createDefault (show (1 : Int) ≠ 0 by decide)
    (show Fits LINE_LIMIT (bytes "[values]\ntick_interval_ms = 0x64 ; c\n") by decide) (by decide)
    .tickIntervalMs
  exact value.trans (by decide)

end Config

end SysHelo
