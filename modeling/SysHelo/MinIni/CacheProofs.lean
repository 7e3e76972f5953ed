import SysHelo.MinIni.Putsection
import SysHelo.MinIni.Replace

/-! The cache of `ini_putsection` loses nothing: what has been counted is what is read again
from the mark when it is written. -/
namespace SysHelo.MinIni
open CString Stdio Lines Loop

/-- Lines that fit the buffer. -/
def Readable (ls : List (List UInt8)) : Prop :=
  ∀ line ∈ ls, line.length < INI_BUFFERSIZE ∧ 0 ∉ line

/-- Whole lines from the mark on have exactly the count. -/
def Supplied (text : List UInt8) (flush : Nat × Nat) : Prop :=
  ∃ cached, cached <+: lines newline (text.drop flush.1) ∧ cached.flatten.length = flush.2

/-- Some of the pieces have exactly the count, from the mark on. -/
def Counted (pieces : List (List UInt8)) (flush : Nat × Nat) : Prop :=
  ∃ front cached rest, pieces = front ++ (cached ++ rest) ∧ front.flatten.length = flush.1 ∧
    cached.flatten.length = flush.2

/-- The pieces of the text, as it is read, that have been dealt with, those counted into the cache, and
those still to come; `out` is what has been written once the cache is. -/
structure Copying (pieces : List (List UInt8)) (st : Rewrite) (front cached rest : List (List UInt8))
    (out : List UInt8) : Prop where
  content : st.rfp.content = pieces.flatten
  cut : Cut newline (INI_BUFFERSIZE - 1) pieces
  split : pieces = front ++ (cached ++ rest)
  mark : st.mark = front.flatten.length
  cachelen : st.cachelen = cached.flatten.length
  small : cached.flatten.length < INI_BUFFERSIZE
  emitted : st.wfp.flatten ++ cached.flatten = out
  counted : ∀ flush ∈ st.flushes, Counted pieces flush

/-- The read position is behind these lines. -/
def Behind (st : Rewrite) (ls : List (List UInt8)) : Prop := st.rfp.pos = ls.flatten.length

theorem lines_drop {text : List UInt8} {front rest : List (List UInt8)}
    (split : lines newline text = front ++ rest) :
    lines newline (text.drop front.flatten.length) = rest := by
  have whole := flatten_lines newline text
  rw [split, List.flatten_append] at whole
  rw [← whole, List.drop_left]
  exact (lines_cut newline split).2.1

theorem Counted.supplied {text : List UInt8} {flush : Nat × Nat}
    (counted : Counted (lines newline text) flush) :
    Supplied text flush := by
  obtain ⟨front, cached, rest, split, mark, size⟩ := counted
  refine ⟨cached, ?_, size⟩
  rw [← mark, lines_drop split]
  exact List.prefix_append _ _

theorem remaining_pieces {pieces front rest : List (List UInt8)} (split : pieces = front ++ rest) :
    (⟨pieces.flatten, front.flatten.length⟩ : ReadFile).remaining = rest.flatten := by
  rw [ReadFile.remaining, split, List.flatten_append, List.drop_left]

theorem Copying.remaining (copy : Copying pieces st front cached rest out)
    (behind : Behind st (front ++ cached)) : st.rfp.remaining = rest.flatten := by
  have left := remaining_pieces
    (show pieces = (front ++ cached) ++ rest by rw [copy.split, List.append_assoc])
  rwa [← copy.content, ← behind] at left

/-- Reading the cached pieces again, behind those of them that were read already. -/
theorem flushPass_spec {pieces front pre post rest : List (List UInt8)}
    (cut : Cut newline (INI_BUFFERSIZE - 1) pieces) (split : pieces = front ++ (pre ++ post ++ rest))
    (readable : Readable post) (small : (pre ++ post).flatten.length < INI_BUFFERSIZE)
      {buf : Chars INI_BUFFERSIZE}
    (content : str buf 0 = pre.flatten) :
    ∃ buf', Returns
        (loop (flushPass (pre ++ post).flatten.length)
          (buf, pre.flatten.length, ⟨pieces.flatten, (front ++ pre).flatten.length⟩))
        (buf', (pre ++ post).flatten.length, ⟨pieces.flatten, (front ++ (pre ++ post)).flatten.length⟩) ∧
      str buf' 0 = (pre ++ post).flatten ∧ (post = [] → buf' = buf) := by
  induction post generalizing pre buf with
  | nil =>
    refine ⟨buf, Returns.loop_done ?_, by simpa using content, fun _ => rfl⟩
    simp only [flushPass, List.append_nil, Nat.lt_irrefl, if_false]
    exact Returns.pure _
  | cons line post ih =>
    obtain ⟨fits, free⟩ := readable line (by simp)
    have again : pre ++ line :: post = pre ++ [line] ++ post := by simp
    have behind : pieces = (front ++ pre) ++ (line :: (post ++ rest)) := by
      rw [split]
      simp
    have positive : 0 < line.length :=
      List.length_pos_iff.mpr (cut.ne_nil (show line ∈ pieces by rw [split]; simp))
    have sizes : (pre ++ line :: post).flatten.length =
        pre.flatten.length + (line.length + post.flatten.length) := by simp
    have ahead := remaining_pieces behind
    have room : line.length < INI_BUFFERSIZE - pre.flatten.length := by omega
    have size : INI_BUFFERSIZE - pre.flatten.length ≤ INI_BUFFERSIZE - 1 + 1 := by omega
    have read := fgets_cut ahead (behind ▸ cut).right room size buf pre.flatten.length
    have lineAt := str_store (p := pre.flatten.length) buf free (by omega)
    have both := str_store_append (p := 0) (l := line) content free (by omega)
    rw [Nat.zero_add] at both
    have moved : str (store buf pre.flatten.length (line ++ [0])) 0 = (pre ++ [line]).flatten := by
      rw [both]; simp
    obtain ⟨buf', returns, held, -⟩ := ih (by rw [split, again])
      (fun l member => readable l (by simp [member])) (by rw [← again]; exact small) moved
    rw [← again] at returns held
    refine ⟨buf', Returns.loop_next ?_ returns, held, fun bad => by simp at bad⟩
    simp only [flushPass, if_pos (show pre.flatten.length < (pre ++ line :: post).flatten.length by omega),
      read, Option.getD_some, strlen, lineAt]
    have position : pre.flatten.length +
        min ((pre ++ line :: post).flatten.length - pre.flatten.length) line.length =
          (pre ++ [line]).flatten.length := by
      simp only [List.flatten_append, List.length_append, List.flatten_singleton] at sizes ⊢
      omega
    rw [position]
    simp only [List.flatten_append, List.length_append, List.flatten_singleton, Nat.add_assoc]
    exact Returns.pure _

/-- Whether the bytes end with a line termination, as `cache_flush` tells it: a single
terminator does not count. -/
def flushFlag (s : List UInt8) : Bool := 1 < s.length && s.getLast? = some newline

theorem flag_eq {b : Chars n} {s : List UInt8} (content : str b 0 = s) :
    (decide (INI_LINETERM.length < s.length) &&
      decide (str b (s.length - INI_LINETERM.length) = INI_LINETERM)) = flushFlag s := by
  have one : INI_LINETERM = [newline] := rfl
  rw [one, List.length_singleton, flushFlag]
  by_cases long : 1 < s.length
  · have tail := str_drop b 0 (s.length - 1) (by rw [content]; omega)
    rw [Nat.zero_add, content, List.drop_length_sub_one (List.ne_nil_of_length_pos (by omega))] at tail
    rw [tail]
    have last := List.getLast?_eq_getLast_of_ne_nil (l := s) (List.ne_nil_of_length_pos (by omega))
    simp [last]
  · simp [long]

theorem flushWrite_spec {w : Writer} {s : List UInt8} (content : str w.buf 0 = s)
    (small : s.length < INI_BUFFERSIZE) :
    ∃ buf, flushWrite w s.length = (⟨buf, w.wfp ++ if s = [] then [] else [s]⟩, s.length) ∧
      str buf 0 = s ∧ (s = [] → buf = w.buf) := by
  by_cases empty : s = []
  · refine ⟨w.buf, ?_, content, fun _ => rfl⟩
    rw [flushWrite, if_neg (not_not.mpr (str_eq_nil.mp (content.trans empty))), if_pos empty,
      List.append_nil]
  · have terminated := str_poke_nul w.buf 0 s.length (by rw [content]) (by omega)
    rw [Nat.zero_add, content, List.take_length] at terminated
    refine ⟨poke w.buf s.length 0, ?_, terminated, fun bad => absurd bad empty⟩
    have first : peek w.buf 0 ≠ 0 := by
      intro zero
      exact empty (content.symm.trans (str_eq_nil.mpr zero))
    rw [flushWrite, if_pos first, if_neg empty, if_neg (Nat.ne_of_lt small)]
    simp only [Writer.write, terminated]

/-- The string that the cached lines are written with, if there are any. -/
def block (cached : List (List UInt8)) : List (List UInt8) :=
  if cached.flatten = [] then [] else [cached.flatten]

theorem flatten_block (cached : List (List UInt8)) : (block cached).flatten = cached.flatten := by
  unfold block
  split <;> simp [*]

/-- What a call of `cache_flush` leaves behind. -/
structure Flushed (pieces : List (List UInt8)) (st : Rewrite) (front cached rest : List (List UInt8))
    (out : List UInt8) (st' : Rewrite) (flag : Bool) : Prop where
  copy : Copying pieces st' (front ++ cached) [] rest out
  behind : Behind st' (front ++ cached)
  flag : flag = flushFlag cached.flatten
  idle : cached = [] → st'.buf = poke st.buf 0 0
  log : st'.wfp = st.wfp ++ block cached

theorem cacheFlush_spec {out : List UInt8} {st : Rewrite} {pieces front cached rest : List (List UInt8)}
    (copy : Copying pieces st front cached rest out) (readable : Readable cached) :
    ∃ st' flag, Returns (cacheFlush st) (st', flag) ∧ Flushed pieces st front cached rest out st' flag := by
  have empty : str (poke st.buf 0 0) 0 = ([] : List (List UInt8)).flatten :=
    str_poke_first st.buf (by decide)
  have split : pieces = front ++ ([] ++ cached ++ rest) := copy.split
  obtain ⟨buf, returns, content, idle⟩ := flushPass_spec copy.cut split readable copy.small empty
  simp only [List.nil_append, List.append_nil] at returns content
  have start : ({ st.rfp with pos := st.mark } : ReadFile) = ⟨pieces.flatten, front.flatten.length⟩ := by
    rw [copy.mark, ← copy.content]
  have counted : ∀ flush ∈ st.flushes ++ [(st.mark, st.cachelen)], Counted pieces flush := by
    intro flush member
    rcases List.mem_append.mp member with old | new
    · exact copy.counted flush old
    · rw [List.mem_singleton.mp new]
      exact ⟨front, cached, rest, copy.split, copy.mark.symm, copy.cachelen.symm⟩
  obtain ⟨buf', write, content', same⟩ :=
    flushWrite_spec (w := ⟨buf, st.wfp⟩) content copy.small
  refine ⟨⟨⟨buf', st.wfp ++ if cached.flatten = [] then [] else [cached.flatten]⟩, 0,
    ⟨pieces.flatten, (front ++ cached).flatten.length⟩, (front ++ cached).flatten.length,
    st.flushes ++ [(st.mark, st.cachelen)]⟩, flushFlag cached.flatten, ?_, ?_⟩
  · refine Returns.bind (by rw [copy.cachelen, start]; exact returns) ?_
    simp only [write, flag_eq content']
    exact Returns.pure _
  refine ⟨⟨rfl, copy.cut, by rw [copy.split]; simp, rfl, rfl, by decide, ?_, counted⟩, rfl, rfl, ?_, rfl⟩
  · rw [← copy.emitted]
    by_cases nothing : cached.flatten = [] <;> simp [nothing]
  · rintro rfl
    exact (same rfl).trans (idle rfl)

/-- Between two pieces: the pieces read are written or cached, and `rest` is still to be read. -/
def Advanced (pieces : List (List UInt8)) (st : Rewrite) (cached rest : List (List UInt8))
    (out : List UInt8) :
    Prop :=
  ∃ front, Copying pieces st front cached rest out ∧ Readable cached ∧ Behind st (front ++ cached)

/-- The same, whatever is cached. -/
def Advancing (pieces : List (List UInt8)) (st : Rewrite) (rest : List (List UInt8))
    (out : List UInt8) : Prop :=
  ∃ cached, Advanced pieces st cached rest out

theorem Copying.fits (copy : Copying pieces st front cached (line :: rest) out) :
    line.length < INI_BUFFERSIZE := by
  have short := copy.cut.length_le (show line ∈ pieces by rw [copy.split]; simp)
  have room : 0 < INI_BUFFERSIZE := by decide
  omega

theorem Copying.read (copy : Copying pieces st front cached (line :: rest) out)
    (behind : Behind st (front ++ cached)) (fits : line.length < INI_BUFFERSIZE) :
    fgets st.buf 0 INI_BUFFERSIZE st.rfp = some (store st.buf 0 (line ++ [0]),
      ⟨pieces.flatten, (front ++ (cached ++ [line])).flatten.length⟩) := by
  have cut : Cut newline (INI_BUFFERSIZE - 1) (front ++ cached ++ line :: rest) := by
    rw [List.append_assoc, ← copy.split]
    exact copy.cut
  rw [fgets_cut (copy.remaining behind) cut.right fits (by decide), copy.content, behind]
  simp [Nat.add_assoc]

theorem Copying.ended (copy : Copying pieces st front cached [] out)
    (behind : Behind st (front ++ cached)) (buf : Chars n) (p size : Nat) :
    fgets buf p size st.rfp = none :=
  fgets_none (copy.remaining behind) buf p size

theorem Copying.move (copy : Copying pieces st front cached rest out) (buf : Chars INI_BUFFERSIZE)
    (pos : Nat) : Copying pieces { st with buf := buf, rfp := ⟨pieces.flatten, pos⟩ } front cached rest out :=
  ⟨rfl, copy.cut, copy.split, copy.mark, copy.cachelen, copy.small, copy.emitted, copy.counted⟩

theorem str_line {line : List UInt8} (buf : Chars INI_BUFFERSIZE) (free : 0 ∉ line)
    (fits : line.length < INI_BUFFERSIZE) : str (store buf 0 (line ++ [0])) 0 = line :=
  str_store buf free (by omega)

theorem Copying.count (copy : Copying pieces st front cached (line :: rest) out)
    (small : (cached ++ [line]).flatten.length < INI_BUFFERSIZE) :
    Copying pieces { st with cachelen := st.cachelen + line.length } front (cached ++ [line]) rest
      (out ++ line) := by
  refine ⟨copy.content, copy.cut, by rw [copy.split]; simp, copy.mark, ?_, small, ?_, copy.counted⟩
  · simp [copy.cachelen]
  · simp [← copy.emitted]

/-- What is cached after one more line: the line alone when there is no room for it. -/
def cacheLine (cached : List (List UInt8)) (line : List UInt8) : List (List UInt8) :=
  if INI_BUFFERSIZE ≤ cached.flatten.length + line.length then [line] else cached ++ [line]

/-- What is written when one more line is counted: the lines before it when there is no room for it. -/
def makeRoom (cached : List (List UInt8)) (line : List UInt8) : List (List UInt8) :=
  if INI_BUFFERSIZE ≤ cached.flatten.length + line.length then block cached else []

/-- The strings that are written while lines are counted. -/
def blocksBefore : (cached ls : List (List UInt8)) → List (List UInt8)
  | _, [] => []
  | cached, line :: ls => makeRoom cached line ++ blocksBefore (cacheLine cached line) ls

/-- The strings that lines are written with, each as many lines as the cache holds. -/
def blocks (ls : List (List UInt8)) : List (List UInt8) :=
  blocksBefore [] ls ++ block (ls.foldl cacheLine [])

theorem flatten_makeRoom (cached : List (List UInt8)) (line : List UInt8) :
    (makeRoom cached line).flatten ++ (cacheLine cached line).flatten = cached.flatten ++ line := by
  unfold makeRoom cacheLine
  split <;> simp [flatten_block]

theorem flatten_blocksBefore (cached ls : List (List UInt8)) :
    (blocksBefore cached ls).flatten ++ (ls.foldl cacheLine cached).flatten = cached.flatten ++
      ls.flatten := by
  induction ls generalizing cached with
  | nil => simp [blocksBefore]
  | cons line ls ih =>
    rw [blocksBefore, List.flatten_append, List.append_assoc, List.foldl_cons, ih, ← List.append_assoc,
      flatten_makeRoom, List.append_assoc, List.flatten_cons]

theorem flatten_blocks (ls : List (List UInt8)) : (blocks ls).flatten = ls.flatten := by
  rw [blocks, List.flatten_append, flatten_block, flatten_blocksBefore, List.flatten_nil, List.nil_append]

/-- What is cached when all of the lines have been counted. -/
def lastBlock (ls : List (List UInt8)) : List (List UInt8) := ls.foldl cacheLine []

theorem lastBlock_concat (ls : List (List UInt8)) (line : List UInt8) :
    lastBlock (ls ++ [line]) = cacheLine (lastBlock ls) line :=
  List.foldl_concat ..

theorem lastBlock_isSuffix (ls : List (List UInt8)) : lastBlock ls <:+ ls := by
  induction ls using List.reverseRecOn with
  | nil => exact List.suffix_rfl
  | append_singleton ls line ih =>
    rw [lastBlock_concat, cacheLine]
    split
    · exact List.suffix_append ls [line]
    · obtain ⟨front, split⟩ := ih
      exact ⟨front, by rw [← List.append_assoc, split]⟩

theorem accumulate_spec {out line : List UInt8} {st : Rewrite} {pieces front cached rest : List (List UInt8)}
    (copy : Copying pieces st front cached (line :: rest) out) (readable : Readable cached)
    (behind : Behind st (front ++ (cached ++ [line]))) (content : str st.buf 0 = line)
    (fits : line.length < INI_BUFFERSIZE) :
    ∃ st', Returns (accumulate st) st' ∧ Advanced pieces st' (cacheLine cached line) rest (out ++ line) ∧
      st'.wfp = st.wfp ++ makeRoom cached line := by
  have free : 0 ∉ line := content ▸ zero_not_mem_str st.buf 0
  have single : Readable [line] := by
    intro l member
    rw [List.mem_singleton.mp member]
    exact ⟨fits, free⟩
  unfold cacheLine makeRoom
  rw [← copy.cachelen]
  by_cases room : INI_BUFFERSIZE ≤ st.cachelen + line.length
  · -- the line is read again behind the flushed ones
    obtain ⟨st', flag, flushed, after⟩ := cacheFlush_spec copy readable
    have read := after.copy.read (by simpa using after.behind) fits
    have empty : st'.cachelen = 0 := after.copy.cachelen
    have counted := (after.copy.move (store st'.buf 0 (line ++ [0]))
      ((front ++ cached) ++ ([] ++ [line])).flatten.length).count (by simpa using fits)
    rw [if_pos room, if_pos room]
    refine ⟨_, ?_, ⟨_, counted, by simpa using single, rfl⟩, after.log⟩
    rw [accumulate, content, cacheAccum, if_pos room]
    apply Returns.bind flushed
    simp only [Rewrite.read, read, str_line _ free fits, cacheAccum, empty, Nat.zero_add,
      if_neg (Nat.not_le.mpr fits), Option.getD_some]
    exact Returns.pure _
  · have size : (cached ++ [line]).flatten.length = st.cachelen + line.length := by
      simp [copy.cachelen]
    rw [if_neg room, if_neg room]
    refine ⟨_, ?_, ⟨_, copy.count (by omega), fun l member => ?_, behind⟩, (List.append_nil _).symm⟩
    · rw [accumulate, content, cacheAccum, if_neg room]
      exact Returns.pure _
    · rcases List.mem_append.mp member with old | new
      · exact readable l old
      · exact single l new

/-- The rest of the file is copied as it is. -/
theorem copyLoop_spec {out : List UInt8} {st : Rewrite} {pieces cached rest : List (List UInt8)}
    (advanced : Advanced pieces st cached rest out) (readable : Readable rest) :
    ∃ st', Returns (loop copyPass st) st' ∧
      Advanced pieces st' (rest.foldl cacheLine cached) [] (out ++ rest.flatten) ∧
      st'.wfp = st.wfp ++ blocksBefore cached rest := by
  induction rest generalizing st out cached with
  | nil =>
    obtain ⟨front, copy, cachedReadable, behind⟩ := advanced
    refine ⟨st, Returns.loop_done ?_, ⟨front, by simpa using copy, cachedReadable, behind⟩,
      (List.append_nil _).symm⟩
    simp only [copyPass, copy.ended behind]
    exact Returns.pure _
  | cons line rest ih =>
    obtain ⟨front, copy, cachedReadable, behind⟩ := advanced
    obtain ⟨fits, free⟩ := readable line (by simp)
    obtain ⟨next, counted, onward, log⟩ := accumulate_spec (copy.move (store st.buf 0 (line ++ [0])) _)
      cachedReadable rfl (str_line _ free fits) fits
    obtain ⟨st', rest', done, logs⟩ := ih onward (fun l member => readable l (by simp [member]))
    refine ⟨st', Returns.loop_next ?_ rest', by simpa using done, ?_⟩
    · simp only [copyPass, copy.read behind fits]
      exact Returns.bind counted (Returns.pure _)
    · rw [logs, log, blocksBefore, List.append_assoc]

end SysHelo.MinIni
