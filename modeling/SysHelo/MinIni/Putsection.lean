import SysHelo.Lib.Loop
import SysHelo.MinIni.Strings

/-! `ini_putsection` replaces a section of a file. It copies the file to a temporary one
through a cache that only counts bytes: the lines counted are read again, from the mark,
when they are written. -/
namespace SysHelo.MinIni
open CString Stdio Lines Loop

/-- The last character of a file name replaced by `~`. -/
def iniTempname (dest : Chars INI_BUFFERSIZE) (source : Path) : Chars INI_BUFFERSIZE :=
  let dest := iniStrncpy dest 0 (.text source) INI_BUFFERSIZE .none
  poke dest (strlen dest 0 - 1) '~'.toUInt8

def checkEnquote (value : List UInt8) : QuoteOption :=
  if value.any (fun c => c = '"'.toUInt8 ∨ c = ';'.toUInt8 ∨ c = '#'.toUInt8) ∨
      value.getLast? = some ' '.toUInt8 then .enquote
  else .none

/-- `strnicmp(s1, s2, n) == 0` -/
def strnicmpEq : (s1 s2 : List UInt8) → Nat → Bool
  | _, _, 0 => true
  | [], [], _ + 1 => true
  | s1, s2, n + 1 =>
    upcase (s1.headD 0) = upcase (s2.headD 0) && strnicmpEq s1.tail s2.tail n

/-- `LocalBuffer` and the file that is written. -/
structure Writer where
  buf : Chars INI_BUFFERSIZE
  wfp : List (List UInt8)

/-- `ini_write(s, &wfp)` -/
def Writer.write (w : Writer) (s : List UInt8) : Writer := { w with wfp := w.wfp ++ [s] }

def writesection (w : Writer) (sectionName : List UInt8) : Writer :=
  if sectionName = [] then w
  else
    let buf := poke w.buf 0 '['.toUInt8
    let buf := iniStrncpy buf 1 (.text sectionName) (INI_BUFFERSIZE - 4) .none
    let p := strlen buf 0
    let buf := strcpy (poke buf p ']'.toUInt8) (p + 1) INI_LINETERM
    { w with buf }.write (str buf 0)

def writekey (w : Writer) (key value : List UInt8) : Writer :=
  let buf := iniStrncpy w.buf 0 (.text key) (INI_BUFFERSIZE - 3) .none
  let p := strlen buf 0
  let buf := poke buf p '='.toUInt8
  let buf := iniStrncpy buf (p + 1) (.text value) (INI_BUFFERSIZE - (p + 1) - 2) (checkEnquote value)
  let buf := strcpy buf (strlen buf 0) INI_LINETERM
  { w with buf }.write (str buf 0)

/-- The loop of `putsection`, which ends with the shorter of the two arrays. -/
def putkeys (w : Writer) : (keys values : List (List UInt8)) → Writer
  | key :: keys, value :: values => putkeys (writekey w key value) keys values
  | _, _ => w

def putsection (w : Writer) (sectionName : List UInt8) (keys values : List (List UInt8)) : Writer :=
  if keys ≠ [] ∧ values ≠ [] then
    (putkeys (writesection w sectionName) keys values).write INI_LINETERM
  else w

/-- The variables of `ini_putsection`. The last one is not in the source: it records the mark
and the byte count of every call of `cache_flush`. -/
structure Rewrite extends Writer where
  cachelen : Nat
  rfp : ReadFile
  mark : Nat
  flushes : List (Nat × Nat)

namespace Rewrite

/-- `(void)ini_read(LocalBuffer, INI_BUFFERSIZE, &rfp)` -/
def read (st : Rewrite) : Rewrite :=
  match fgets st.buf 0 INI_BUFFERSIZE st.rfp with
  | none => st
  | some (buf, rfp) => { st with buf, rfp }

/-- `(void)ini_tell(&rfp, &mark)` -/
def tell (st : Rewrite) : Rewrite := { st with mark := st.rfp.pos }

end Rewrite

/-- The new size, unless the string does not fit the cache. -/
def cacheAccum (string : List UInt8) (size max : Nat) : Option Nat :=
  if max ≤ size + string.length then none else some (size + string.length)

/-- `while (pos < *size)` of `cache_flush`; a failed read leaves the buffer as it was. -/
def flushPass (size : Nat) :
    Chars INI_BUFFERSIZE × Nat × ReadFile →
      Program (Pass (Chars INI_BUFFERSIZE × Nat × ReadFile) (Chars INI_BUFFERSIZE × Nat × ReadFile))
  | (buf, pos, rfp) =>
    if pos < size then
      let (buf, rfp) := (fgets buf pos (INI_BUFFERSIZE - pos) rfp).getD (buf, rfp)
      pure (.next (buf, pos + min (size - pos) (strlen buf pos), rfp))
    else pure (.done (buf, pos, rfp))

/-- Write what has been read into the buffer, if anything. -/
def flushWrite (w : Writer) (pos : Nat) : Writer × Nat :=
  if peek w.buf 0 ≠ 0 then
    let pos := if pos = INI_BUFFERSIZE then pos - 1 else pos
    let buf := poke w.buf pos 0  -- force zero-termination
    ({ w with buf }.write (str buf 0), pos)
  else (w, pos)

/-- Write the cached lines; whether they end with a line termination. -/
def cacheFlush (st : Rewrite) : Program (Rewrite × Bool) := do
  let (buf, pos, rfp) ← loop (flushPass st.cachelen)
    (poke st.buf 0 0, 0, { st.rfp with pos := st.mark })
  let (w, pos) := flushWrite ⟨buf, st.wfp⟩ pos
  pure (⟨w, 0, rfp, rfp.pos, st.flushes ++ [(st.mark, st.cachelen)]⟩,
    INI_LINETERM.length < pos && str w.buf (pos - INI_LINETERM.length) = INI_LINETERM)

/-- Count the line just read into the cache, after making room for it if need be. -/
def accumulate (st : Rewrite) : Program Rewrite :=
  match cacheAccum (str st.buf 0) st.cachelen INI_BUFFERSIZE with
  | some cachelen => pure { st with cachelen }
  | none => do
    let (st, _) ← cacheFlush st
    let st := st.read
    pure { st with
      cachelen := (cacheAccum (str st.buf 0) st.cachelen INI_BUFFERSIZE).getD st.cachelen }

/-- The line in the buffer is the section's header; `sp` is its first non-blank. -/
def headerMatch (buf : Chars INI_BUFFERSIZE) (sp : Nat) (sectionName : List UInt8) : Bool :=
  match strrchr buf sp ']'.toUInt8 with
  | none => false
  | some ep =>
    peek buf sp = '['.toUInt8 && ep - sp - 1 = sectionName.length &&
      strnicmpEq (str buf (sp + 1)) sectionName sectionName.length

/-- How the search for the section ends; `sp` is NULL when there was none. -/
inductive Search where
  | missing (st : Rewrite)
  | found (st : Rewrite) (sp : Option Nat)

def searchPass (sectionName : List UInt8) (st : Rewrite) : Program (Pass Rewrite Search) :=
  match fgets st.buf 0 INI_BUFFERSIZE st.rfp with
  | none => pure (.done (.missing st))
  | some (buf, rfp) =>
    let st := { st with buf, rfp }
    let sp := skipleading buf 0
    if headerMatch buf sp sectionName then pure (.done (.found st (some sp)))
    else do
      let st ← accumulate st
      pure (.next st)

/-- Skip the entries of the section, up to the next one or the end of the file. -/
def skipPass : Rewrite × Option Nat → Program (Pass (Rewrite × Option Nat) (Rewrite × Option Nat))
  | (st, sp) =>
    match fgets st.buf 0 INI_BUFFERSIZE st.rfp with
    | none => do
      let (st, _) ← cacheFlush st
      pure (.done (st.tell, sp))
    | some (buf, rfp) =>
      let st := { st with buf, rfp }
      let sp := skipleading buf 0
      if peek buf sp = '['.toUInt8 then pure (.done (st, some sp))
      else pure (.next (st.tell, some sp))

/-- Copy the rest of the file. -/
def copyPass (st : Rewrite) : Program (Pass Rewrite Rewrite) :=
  match fgets st.buf 0 INI_BUFFERSIZE st.rfp with
  | none => pure (.done st)
  | some (buf, rfp) => do
    let st ← accumulate { st with buf, rfp }
    pure (.next st)

/-- No section to replace: add it at the end. -/
def appendSection (sectionName : List UInt8) (keys values : List (List UInt8)) (st : Rewrite) :
    Program Rewrite := do
  let (st, flag) ← cacheFlush st
  let w := if flag then st.toWriter else st.toWriter.write INI_LINETERM
  pure { st with toWriter := putsection w sectionName keys values }

/-- Copy the rest of the file and empty the cache. -/
def copyRest (st : Rewrite) : Program Rewrite := do
  let st ← loop copyPass st
  let (st, _) ← cacheFlush st
  pure st

/-- Whether the pointer `sp` into the buffer, if there is one, is at a `[`. -/
def atSection (buf : Chars INI_BUFFERSIZE) (sp : Option Nat) : Bool :=
  sp.any fun sp => peek buf sp = '['.toUInt8

/-- The line read again behind the new section is the next header, or is forgotten. -/
def resume (flag : Bool) (st : Rewrite) : Rewrite :=
  if flag then
    { st with cachelen := (cacheAccum (str st.buf 0) st.cachelen INI_BUFFERSIZE).getD st.cachelen }
  else st.tell

/-- From the matching header to the next section, and whether there is one. -/
def skipSection (st : Rewrite) (sp : Option Nat) : Program (Rewrite × Bool) := do
  let (st, _) ← cacheFlush st
  -- skip the header, which was not counted into the cache
  let (st, sp) ← loop skipPass (st.read.tell, sp)
  let flag := atSection st.buf sp
  let (st, _) ← cacheFlush st
  pure (st, flag)

/-- Write the section in the place of the old one. -/
def replaceSection (sectionName : List UInt8) (keys values : List (List UInt8)) (st : Rewrite)
    (sp : Option Nat) : Program Rewrite := do
  let (st, flag) ← skipSection st sp
  copyRest (resume flag { st with toWriter := putsection st.toWriter sectionName keys values }.read)

/-- Find the section, copying what is above it; no name is taken as found. -/
def searchSection (sectionName : List UInt8) (st : Rewrite) : Program Search :=
  if sectionName ≠ [] then loop (searchPass sectionName) st else pure (.found st none)

/-- Everything between opening the two files and closing them. -/
def rewriteSection (sectionName : List UInt8) (keys values : List (List UInt8)) (st : Rewrite) :
    Program Rewrite := do
  let search ← searchSection sectionName st
  match search with
  | .missing st => appendSection sectionName keys values st
  | .found st sp => replaceSection sectionName keys values st sp

/-- Remove the old file and give its name to the temporary one. -/
def closeRename (o : Outcomes) (files : Files) (filename : Path) (st : Rewrite) (temp : Path) : Files :=
  let files := Files.fclose o files temp st.wfp
  let files := Files.remove o files filename
  Files.rename o files (str (iniTempname st.buf filename) 0) filename

/-- The files after the call, and what it returns. -/
def iniPutsection (stack : Chars INI_BUFFERSIZE) (o : Outcomes) (sectionName : List UInt8)
    (keys values : List (List UInt8)) (filename : Path) (files : Files) : Program (Files × Bool) :=
  match Files.fopenRead o files filename with
  | none =>
    -- the file does not exist: make a new one
    if o.fopenWrite then
      let w := putsection ⟨stack, []⟩ sectionName keys values
      pure (Files.fclose o files filename w.wfp, true)
    else pure (files, false)
  | some rfp =>
    let buf := iniTempname stack filename
    if o.fopenWrite then do
      let st ← rewriteSection sectionName keys values ⟨⟨buf, []⟩, 0, rfp, rfp.pos, []⟩
      pure (closeRename o files filename st (str buf 0), true)
    else pure (files, false)

end SysHelo.MinIni
