import SysHelo.MinIni.Lookup

/-! `ini_puts` writes a setting, erases one, or erases a section. A setting that is there already is
left alone, and one whose line keeps its size is overwritten in its place; otherwise the file is
copied to a temporary one, through the cache of `ini_putsection`. -/
namespace SysHelo.MinIni
open CString Stdio Lines Loop

/-- How the search for the section ends. -/
inductive SectionSearch where
  | missing (st : Rewrite)
  | found (st : Rewrite)

/-- One pass of the search for the section: its header is copied too, unless the section is erased. -/
def headerPass (sectionName : List UInt8) (erased : Bool) (st : Rewrite) : Program
    (Pass Rewrite SectionSearch) :=
  match fgets st.buf 0 INI_BUFFERSIZE st.rfp with
  | none => pure (.done (.missing st))
  | some (buf, rfp) => do
    let st := { st with buf, rfp }
    let found := headerMatch buf (skipleading buf 0) sectionName
    let st ← if !found || !erased then accumulate st else pure st
    pure (if found then .done (.found st) else .next st)

/-- How the search for the key ends: with the file, or at a line, which may start a section. -/
inductive KeySearch where
  | ended (st : Rewrite)
  | found (st : Rewrite) (flag : Bool)

/-- One pass of the search for the key, which copies the other keys of the section. Without a key
the section is erased. -/
def keyPass (key : Option (List UInt8)) (st : Rewrite) : Program (Pass Rewrite KeySearch) :=
  match fgets st.buf 0 INI_BUFFERSIZE st.rfp with
  | none => pure (.done (.ended st))
  | some (buf, rfp) =>
    let st := { st with buf, rfp }
    let sp := skipleading buf 0
    if (keyEnd buf sp).any (fun ep => key.any (keyMatch buf sp ep)) ∨ peek buf sp = '['.toUInt8 then
      pure (.done (.found st (peek buf sp = '['.toUInt8)))
    else if key.isNone then pure (.next st.tell)
    else do
      let st ← accumulate st
      pure (.next st)

/-- `if (Key != NULL && Value != NULL) writekey(…)` -/
def putSetting (w : Writer) (key value : Option (List UInt8)) : Writer :=
  match key, value with
  | some key, some value => writekey w key value
  | _, _ => w

/-- At the end of the file: the setting comes last, in a new section if one is named. -/
def putLast (sectionName : List UInt8) (key value : Option (List UInt8)) (st : Rewrite) :
    Program Rewrite := do
  let (st, flag) ← cacheFlush st
  match key, value with
  | some key, some value =>
    let w := if flag then st.toWriter else st.toWriter.write INI_LINETERM
    pure { st with toWriter := writekey (writesection w sectionName) key value }
  | _, _ => pure st

/-- From the section's header, or the start of the file, to the end. -/
def putEntry (key value : Option (List UInt8)) (st : Rewrite) : Program Rewrite := do
  let (st, _) ← cacheFlush st
  -- the header of a section that is erased was not counted into the cache
  let st := if key.isNone then st.read.tell else st
  let search ← loop (keyPass key) st
  match search with
  | .ended st => putLast [] key value st
  | .found st flag => do
    let (st, _) ← cacheFlush st
    copyRest (resume flag { st with toWriter := putSetting st.toWriter key value }.read)

/-- Everything between opening the temporary file and closing it. -/
def rewriteSetting (sectionName : List UInt8) (key value : Option (List UInt8)) (st : Rewrite) :
    Program Rewrite := do
  if sectionName ≠ [] then
    let search ← loop (headerPass sectionName key.isNone) st
    match search with
    | .missing st => putLast sectionName key value st
    | .found st => putEntry key value st
  else putEntry key value st

/-- What is done about a file that can be read: nothing, an overwriting of a line, or a rewriting,
with what is in the buffer by then. -/
inductive Plan where
  | keep
  | overwrite (head : Nat) (line : List UInt8)
  | rewrite (buf : Chars INI_BUFFERSIZE)

/-- The two short-cuts; `inner` is the uninitialised buffer of `getkeystring`. -/
def putsPlan (stack inner : Chars INI_BUFFERSIZE) (rfp : ReadFile)
    (sectionName key value : Option (List UInt8)) :
    Plan :=
  match key, value with
  | some key, some value =>
    match getkeystring inner rfp sectionName (some key) (-1) (-1) stack INI_BUFFERSIZE with
    | none => .rewrite stack
    | some found =>
      if str found.buffer 0 = value then .keep
      else
        let w := writekey ⟨found.buffer, []⟩ key value
        if strlen w.buf 0 = found.fp.pos - found.head then .overwrite found.head (str w.buf 0)
        else .rewrite w.buf
  | _, _ => .rewrite stack

/-- Open a file for reading and writing, write from a position on, and close it. -/
def overwrite (o : Outcomes) (files : Files) (path : Path) (pos : Nat) (log : List (List UInt8)) : Files :=
  match files path with
  | none => files
  | some content =>
    Function.update files path
      (some (content.take pos ++ o.stored log ++ content.drop (pos + (o.stored log).length)))

/-- The files after the call, and what it returns; `fopenUpdate` is whether the file can be opened for
reading and writing. -/
def iniPuts (stack inner : Chars INI_BUFFERSIZE) (o : Outcomes) (fopenUpdate : Bool)
    (sectionName key value : Option (List UInt8)) (filename : Path) (files : Files) : Program
      (Files × Bool) :=
  match Files.fopenRead o files filename with
  | none =>
    match key, value with
    | some key, some value =>
      if o.fopenWrite then
        let w := writekey (writesection ⟨stack, []⟩ (sectionName.getD [])) key value
        pure (Files.fclose o files filename w.wfp, true)
      else pure (files, false)
    | _, _ => pure (files, true)  -- there is nothing to erase
  | some rfp =>
    match putsPlan stack inner rfp sectionName key value with
    | .keep => pure (files, true)
    | .overwrite head line =>
      if fopenUpdate then pure (overwrite o files filename head [line], true) else pure (files, false)
    | .rewrite buf =>
      let buf := iniTempname buf filename
      if o.fopenWrite then do
        let st ← rewriteSetting (sectionName.getD []) key value ⟨⟨buf, []⟩, 0, rfp, rfp.pos, []⟩
        pure (closeRename o files filename st (str buf 0), true)
      else pure (files, false)

end SysHelo.MinIni
