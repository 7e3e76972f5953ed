import SysHelo.Lib.Numeral
import SysHelo.MinIni.Format
import SysHelo.MinIni.Putsection

/-! `getkeystring` looks up a setting by its section and key, or the name of a section or a key
by its number. A pointer argument that is NULL is `none`. -/
namespace SysHelo.MinIni
open CString Stdio Lines Numeral

/-- A `[` at `sp`, and the last `]` behind it. -/
def headerEnd (buf : Chars n) (sp : Nat) : Option Nat :=
  if peek buf sp = '['.toUInt8 then strrchr buf sp ']'.toUInt8 else none

/-- The first `=`, or without one the first `:`. -/
def keyEnd (buf : Chars n) (sp : Nat) : Option Nat :=
  (strchr buf sp '='.toUInt8).or (strchr buf sp ':'.toUInt8)

/-- What is from `sp` to `ep` is the key, which is not empty. -/
def keyMatch (buf : Chars n) (sp ep : Nat) (key : List UInt8) : Bool :=
  key ≠ [] && skiptrailing buf sp ep - sp = key.length && strnicmpEq (str buf sp) key key.length

/-- What the test of a search makes of the line just read. -/
inductive Verdict where
  | pass (idx : Int)
  | hit (sp ep : Nat) (idx : Int)
  | stop

/-- The line that was looked for: the buffer, its first non-blank and its delimiter in it, its
number, where it starts, and the file behind it. -/
structure Hit where
  buf : Chars INI_BUFFERSIZE
  sp : Nat
  ep : Nat
  idx : Int
  head : Nat
  fp : ReadFile

/-- `do … while`: read on until the test is met. Every pass reads on in the file, so the loop ends. -/
def readUntil (test : Chars INI_BUFFERSIZE → Int → Verdict) (buf : Chars INI_BUFFERSIZE) (idx : Int)
    (fp : ReadFile) : Option Hit :=
  match _read : fgets buf 0 INI_BUFFERSIZE fp with
  | none => none
  | some (buf, next) =>
    match test buf idx with
    | .pass idx => readUntil test buf idx next
    | .hit sp ep idx => some ⟨buf, sp, ep, idx, fp.pos, next⟩
    | .stop => none
  termination_by fp.remaining.length
  decreasing_by exact fgets_remaining _read

/-- The search for a section: by its name, and by its number when this is not negative. -/
def sectionTest (sectionName : Option (List UInt8)) (idxSection : Int) (buf : Chars INI_BUFFERSIZE)
    (idx : Int) : Verdict :=
  let sp := skipleading buf 0
  match headerEnd buf sp with
  | none => .pass idx
  | some ep =>
    if sectionName.any (headerMatch buf sp) then .hit sp ep idx
    else if idx + 1 = idxSection then .hit sp ep (idx + 1)
    else .pass (idx + 1)

/-- The search for a key in a section, which a `[` ends. -/
def keyTest (key : Option (List UInt8)) (idxKey : Int) (buf : Chars INI_BUFFERSIZE) (idx : Int) : Verdict :=
  let sp := skipleading buf 0
  if peek buf sp = '['.toUInt8 then .stop
  else match keyEnd buf sp with
    | none => .pass idx
    | some ep =>
      if peek buf sp = ';'.toUInt8 ∨ peek buf sp = '#'.toUInt8 then .pass idx
      else if key.any (keyMatch buf sp ep) then .hit sp ep idx
      else if idx + 1 = idxKey then .hit sp ep (idx + 1)
      else .pass (idx + 1)

/-- What is left when something was found: the caller's buffer, where the line starts, and the
file behind it. -/
structure Found (n : Nat) where
  buffer : Chars n
  head : Nat
  fp : ReadFile

/-- From the search for the entry on. -/
def getentry (buf : Chars INI_BUFFERSIZE) (fp : ReadFile) (key : Option (List UInt8)) (idxKey : Int)
    (buffer : Chars n) (bufferSize : Nat) : Option (Found n) :=
  match readUntil (keyTest key idxKey) buf (-1) fp with
  | none => none
  | some hit =>
    if 0 ≤ idxKey then
      if hit.idx = idxKey then
        let buf := striptrailing (poke hit.buf hit.ep 0) hit.sp
        some ⟨iniStrncpy buffer 0 (.text (str buf hit.sp)) bufferSize .none, hit.head, hit.fp⟩
      else none  -- no more key found in this section
    else
      let (buf, sp, quotes) := cleanstring hit.buf (skipleading hit.buf (hit.ep + 1))
      some ⟨iniStrncpy buffer 0 (.text (str buf sp)) bufferSize quotes, hit.head, hit.fp⟩

def getkeystring (stack : Chars INI_BUFFERSIZE) (fp : ReadFile) (sectionName key : Option (List UInt8))
    (idxSection idxKey : Int) (buffer : Chars n) (bufferSize : Nat) : Option (Found n) :=
  if sectionName.getD [] ≠ [] ∨ 0 ≤ idxSection then
    match readUntil (sectionTest sectionName idxSection) stack (-1) fp with
    | none => none
    | some hit =>
      if 0 ≤ idxSection then
        if hit.idx = idxSection then
          let buf := poke hit.buf hit.ep 0
          some ⟨iniStrncpy buffer 0 (.text (str buf (hit.sp + 1))) bufferSize .none, hit.head, hit.fp⟩
        else none  -- no more section found
      else getentry hit.buf hit.fp key idxKey buffer bufferSize
  else getentry stack fp key idxKey buffer bufferSize

/-- `ini_gets`: the buffer and what is returned. -/
def iniGets (stack : Chars INI_BUFFERSIZE) (sectionName key defValue : Option (List UInt8))
    (buffer : Chars n) (bufferSize : Nat) (file : Option ReadFile) : Chars n × Nat :=
  if bufferSize = 0 ∨ key = none then (buffer, 0)
  else
    let buffer := match file.bind fun fp => getkeystring stack fp sectionName key (-1)
      (-1) buffer bufferSize with
      | some found => found.buffer
      | none => iniStrncpy buffer 0 (.text (defValue.getD [])) bufferSize .none
    (buffer, strlen buffer 0)

/-- `ini_getl`, for a 64-bit `long`. -/
def iniGetl (stack : Chars INI_BUFFERSIZE) (sectionName key : Option (List UInt8)) (defValue : Int)
    (localBuffer : Chars 64) (file : Option ReadFile) : Int :=
  let (localBuffer, len) := iniGets stack sectionName key (some []) localBuffer 64 file
  if len = 0 then defValue
  else if 2 ≤ len ∧ upcase (peek localBuffer 1) = 'X'.toUInt8 then strtol 16 (str localBuffer 0)
  else strtol 10 (str localBuffer 0)

def iniGetbool (stack : Chars INI_BUFFERSIZE) (sectionName key : Option (List UInt8)) (defValue : Int)
    (file : Option ReadFile) : Int :=
  let (localBuffer, _) := iniGets stack sectionName key (some []) (Vector.replicate 2 0) 2 file
  let first := upcase (peek localBuffer 0)
  if first = 'Y'.toUInt8 ∨ first = '1'.toUInt8 ∨ first = 'T'.toUInt8 then 1
  else if first = 'N'.toUInt8 ∨ first = '0'.toUInt8 ∨ first = 'F'.toUInt8 then 0
  else defValue

/-- The end of `ini_getsection` and `ini_getkey`: nothing found is an empty name. -/
def nameFound (buffer : Chars n) (found : Option (Found n)) : Chars n × Nat :=
  let buffer := match found with
    | some found => found.buffer
    | none => poke buffer 0 0
  (buffer, strlen buffer 0)

def iniGetsection (stack : Chars INI_BUFFERSIZE) (idx : Int) (buffer : Chars n) (bufferSize : Nat)
    (file : Option ReadFile) : Chars n × Nat :=
  if bufferSize = 0 ∨ idx < 0 then (buffer, 0)
  else nameFound buffer (file.bind fun fp => getkeystring stack fp none none idx (-1) buffer bufferSize)

def iniGetkey (stack : Chars INI_BUFFERSIZE) (sectionName : Option (List UInt8)) (idx : Int)
    (buffer : Chars n) (bufferSize : Nat) (file : Option ReadFile) : Chars n × Nat :=
  if bufferSize = 0 ∨ idx < 0 then (buffer, 0)
  else nameFound buffer (file.bind fun fp => getkeystring stack fp sectionName none
    (-1) idx buffer bufferSize)

end SysHelo.MinIni
