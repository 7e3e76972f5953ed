import SysHelo.Lib.Numeral
import SysHelo.MinIni.Browse
import SysHelo.MinIni.Putsection

/-! The configuration values and the `Config` of the sysmodule. What a function is told by the
file system, and the content of an uninitialised buffer, are arguments. -/
namespace SysHelo
open CString Stdio Numeral Loop MinIni

inductive SysHeloConfigValue where
  | tickIntervalMs
  deriving DecidableEq

namespace SysHeloConfigValue

/-- The values below `sysHeloConfigValue_EnumMax`, in order. -/
def all : List SysHeloConfigValue := [.tickIntervalMs]

theorem mem_all (kval : SysHeloConfigValue) : kval ∈ all := by cases kval; decide

end SysHeloConfigValue

abbrev SysHeloConfigValueList := SysHeloConfigValue → UInt64

def sysHeloFormatConfigValue (val : SysHeloConfigValue) (pretty : Bool) : List UInt8 :=
  match val with
  | .tickIntervalMs => if pretty then bytes "Tick Interval (ms)" else bytes "tick_interval_ms"

def sysHeloDefaultConfigValue : SysHeloConfigValue → UInt64
  | .tickIntervalMs => 300

def sysHeloValidConfigValue (val : SysHeloConfigValue) (input : UInt64) : Bool :=
  match val with
  | .tickIntervalMs => 0 < input

/-- `CONFIG_VAL_SECTION` -/
def configValSection : List UInt8 := bytes "values"

structure Config where
  loaded : Bool
  mtime : Int
  enabled : Bool
  configValues : SysHeloConfigValueList

namespace Config

/-- The path `CreateDefault` passes to the constructor. -/
def path : Path := bytes "/config/sys-helo/config.ini"

def createDefault : Config := ⟨false, 0, false, sysHeloDefaultConfigValue⟩

def close (config : Config) : Config :=
  { config with loaded := false, configValues := sysHeloDefaultConfigValue }

/-- `stat` is the modification time it gives, if there is a file. -/
def checkModificationTime (stat : Option Int) : Int := stat.getD 0

/-- The value itself, or the default in place of an invalid one. -/
def accepted (kval : SysHeloConfigValue) (input : UInt64) : UInt64 :=
  if sysHeloValidConfigValue kval input then input else sysHeloDefaultConfigValue kval

/-- `BrowseIniFunc` never stops the browsing. -/
def browseIniFunc : Callback Config := fun sectionName key value config =>
  if sectionName = configValSection then
    match SysHeloConfigValue.all.find? (key = sysHeloFormatConfigValue · false) with
    | some kval =>
      let input := accepted kval (strtoul value)
      ({ config with configValues := Function.update config.configValues kval input }, true)
    | none => (config, true)
  else (config, true)

/-- `file` is what opening the file gives; it may differ from the file that `stat` saw. -/
def load (stack : Chars INI_BUFFERSIZE) (stat : Option Int) (file : Option ReadFile) (config : Config) :
    Config :=
  let config := { config.close with mtime := checkModificationTime stat }
  let config := if config.mtime = 0 then config else (iniBrowse stack browseIniFunc config file).1
  { config with loaded := true }

/-- The two times are those `Refresh` and `Load` see. -/
def refresh (stack : Chars INI_BUFFERSIZE) (stat stat' : Option Int) (file : Option ReadFile)
    (config : Config) : Config × Bool :=
  if !config.loaded || config.mtime ≠ checkModificationTime stat then
    (config.load stack stat' file, true)
  else (config, false)

def hasLoaded (config : Config) : Bool := config.loaded

def setEnabled (enabled : Bool) (config : Config) : Config := { config with enabled }

def getConfigValue (config : Config) (kval : SysHeloConfigValue) : UInt64 := config.configValues kval

def getConfigValues (config : Config) : SysHeloConfigValueList := config.configValues

/-- The keys and values that go into the file: those that are valid and not the default. -/
def iniSettings (configValues : SysHeloConfigValueList) : List (List UInt8 × List UInt8) :=
  SysHeloConfigValue.all.filterMap fun kval =>
    if !sysHeloValidConfigValue kval (configValues kval) ||
        configValues kval = sysHeloDefaultConfigValue kval then none
    else some (sysHeloFormatConfigValue kval false, snprintfLong 0x20 (configValues kval))

/-- The files and the configuration after the call, and what it returns. -/
def setConfigValues (stack : Chars INI_BUFFERSIZE) (o : Outcomes) (configValues : SysHeloConfigValueList)
    (immediate : Bool) (files : Files) (config : Config) : Program (Files × Config × Bool) := do
  let settings := iniSettings configValues
  let (files, saved) ← iniPutsection stack o configValSection (settings.map Prod.fst)
    (settings.map Prod.snd) path files
  -- changes in memory only after a successful save
  if saved ∧ immediate then
    pure (files, { config with configValues := fun kval => accepted kval (configValues kval) }, saved)
  else pure (files, config, saved)

end Config

end SysHelo
