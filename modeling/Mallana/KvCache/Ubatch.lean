import Mallana.KvCache.Basic

/-!
# Placing a ubatch

Model of `llama_kv_cache::find_slot` and `llama_kv_cache::apply_ubatch`, with the parts of
`llama_ubatch` and of `slot_info` that they read. `find_slot` only looks at the cache: starting from the
head of each stream it collects cells that are empty, or that hold a single sequence for which the
sliding window has already passed them. `apply_ubatch` writes the tokens into the cells of the slot and
then purges, for every sequence of which it overwrote a position, all positions up to that one.

The search loop `while (true)` of `find_slot` is a recursion on a step budget; `findLoop` returns `none`
when the budget is spent, and `KvCache/Slots.lean` shows that this does not happen.
-/

namespace Mallana

/-- The part of `llama_ubatch` that the cache reads. `n_seq_id[i]` is the length of `seqId[i]`,
    `n_seqs_unq` the length of `seqIdUnq`. -/
structure Ubatch where
  nTokens : Nat
  /-- number of position inputs for each token -/
  nPos : Nat
  /-- `[nTokens * nPos]`, all first components, then all second components, … -/
  pos : List Int
  seqId : List (List SeqId)
  seqIdUnq : List SeqId

/-- C++ `llama_ubatch::is_pos_2d`. -/
def Ubatch.isPos2d (u : Ubatch) : Bool := 3 ≤ u.nPos

/-- C++ `llama_kv_cache::slot_info`. -/
structure SlotInfo where
  s0 : Nat
  s1 : Nat
  strm : List Nat
  idxs : List (List Nat)
deriving DecidableEq, Repr

namespace SlotInfo

/-- Tokens per stream (C++ `slot_info::size`). -/
def size (sl : SlotInfo) : Nat := (sl.idxs.headD []).length

/-- The two nested loops over a slot: token number, stream and cell. -/
def entries (sl : SlotInfo) : List (Nat × Nat × Nat) :=
  (List.range sl.strm.length).flatMap fun s =>
    (List.range sl.size).map fun ii =>
      (s * sl.size + ii, sl.strm.getD s 0, (sl.idxs.getD s []).getD ii 0)

/-- The slot places a token in cell `i` of stream `t`. -/
def Has (sl : SlotInfo) (t i : Nat) : Prop := ∃ e ∈ sl.entries, e.2 = (t, i)

end SlotInfo

namespace KvCache

def canUse (c : KvCache) (x : KvCells) (i : Nat) : Bool :=
  x.isEmpty i ||
    (x.seqCount i = 1 &&
      match x.seqGet i with
      | some s => isMaskedSwa c.nSwa c.swaType (x.posGet i) (x.seqPosMax s + 1)
      | none => false)

/-- The inner `for` loop: test up to `n` cells from `head` on and collect the usable ones; a
    contiguous search stops at the first unusable cell. -/
def testCells (ok : Nat → Bool) (cont : Bool) :
    (n head tested : Nat) → List Nat → Nat × Nat × List Nat
  | 0, head, tested, acc => (head, tested, acc)
  | n + 1, head, tested, acc =>
    if ok head then testCells ok cont n (head + 1) (tested + 1) (acc ++ [head])
    else if cont then (head + 1, tested + 1, acc)
    else testCells ok cont n (head + 1) (tested + 1) acc

/-- The search loop over one stream. `none`: the step budget is spent; `some none`: no slot. -/
def findLoop (ok : Nat → Bool) (cont : Bool) (size nTokens : Nat) :
    (fuel head tested : Nat) → List Nat → Option (Option (List Nat))
  | 0, _, _, _ => none
  | fuel + 1, head, tested, acc =>
    let nTest := if cont then nTokens else 1
    if size < head + nTest then
      findLoop ok cont size nTokens fuel 0 (tested + (size - head)) acc
    else
      let r := testCells ok cont nTest head tested acc
      if r.2.2.length = nTokens then some (some r.2.2)
      else if size ≤ r.2.1 then some none
      else findLoop ok cont size nTokens fuel r.1 r.2.1 (if cont then [] else r.2.2)

/-- Ways in which `find_slot` does not return. -/
inductive FindAbort where
  | assertFailed
  | diverges
deriving DecidableEq, Repr

def findInStream (c : KvCache) (cont : Bool) (nTokens t : Nat) : Except FindAbort (Option (List Nat)) :=
  let x := c.cellsOf t
  let head := if x.getUsed + 2 * nTokens < c.headOf t then 0 else c.headOf t
  if x.size < nTokens then .ok none
  else
    match findLoop (c.canUse x) cont x.size nTokens (2 * x.size + 2) head 0 [] with
    | none => .error .diverges
    | some r => .ok r

/-- The loop of `find_slot` over the sequences of the ubatch, from sequence number `s` on. -/
def findStreams (c : KvCache) (u : Ubatch) (cont : Bool) (nTokens : Nat) :
    (s : Nat) → List SeqId → SlotInfo → Except FindAbort (Option SlotInfo)
  | _, [], res => .ok (if res.idxs = [] then none else some res)
  | s, q :: qs, res =>
    let t := c.seqToStream q
    if 1 < c.nStream ∧ (u.seqId.getD (s * nTokens) []) ≠ [q] then .error .assertFailed
    else
      match c.findInStream cont nTokens t with
      | .error e => .error e
      | .ok none => .ok none
      | .ok (some idxs) =>
        findStreams c u cont nTokens (s + 1) qs
          { s0 := min res.s0 t, s1 := max res.s1 t, strm := res.strm ++ [t], idxs := res.idxs ++ [idxs] }

/-- C++ `find_slot`; `none` is the empty slot. With several streams every sequence of the ubatch gets
    its own part of the slot, with a single stream the first sequence stands for all. -/
def findSlot (c : KvCache) (u : Ubatch) (cont : Bool) : Except FindAbort (Option SlotInfo) :=
  let res : SlotInfo := { s0 := llamaMaxSeq, s1 := 0, strm := [], idxs := [] }
  if 1 < c.nStream then
    if u.seqIdUnq.length = 0 ∨ u.nTokens % u.seqIdUnq.length ≠ 0 then .error .assertFailed
    else findStreams c u cont (u.nTokens / u.seqIdUnq.length) 0 u.seqIdUnq res
  else findStreams c u cont u.nTokens 0 (u.seqIdUnq.take 1) res

/-- Greatest overwritten position of each sequence, `-1` if none (C++ `seq_pos_max_rm`). -/
abbrev PosMaxRm : Type := SeqId → Int

/-- Make room in cell `i`: an occupied cell is removed and its position recorded. -/
def evictCell (x : KvCells) (i : Nat) (m : PosMaxRm) : KvCells × PosMaxRm :=
  if x.isEmpty i then (x, m)
  else
    (x.rm i, match x.seqGet i with
      | some s => Function.update m s (max (m s) (x.posGet i))
      | none => m)

/-- Write token `i` of the ubatch into cell `idx`. -/
def putToken (u : Ubatch) (i idx : Nat) (x : KvCells) : KvCells :=
  let x := x.posSet idx (u.pos.getD i 0)
  let x :=
    if u.isPos2d then
      x.extSet idx { x := u.pos.getD (i + u.nTokens * 2) 0, y := u.pos.getD (i + u.nTokens) 0 }
    else x
  (u.seqId.getD i []).foldl (fun x s => x.seqAdd idx s) x

/-- The loop body of `apply_ubatch` for one token. -/
def applyToken (u : Ubatch) (st : KvCache × PosMaxRm) (e : Nat × Nat × Nat) : KvCache × PosMaxRm :=
  let r := evictCell (st.1.cellsOf e.2.1) e.2.2 st.2
  (st.1.setCells e.2.1 (putToken u e.1 e.2.2 r.1), r.2)

def applyTokens (c : KvCache) (sl : SlotInfo) (u : Ubatch) : KvCache × PosMaxRm :=
  sl.entries.foldl (applyToken u) (c, fun _ => -1)

/-- Purge one sequence up to the greatest position that was overwritten. -/
def purgeSeq (m : PosMaxRm) (c : KvCache) (s : SeqId) : KvCache :=
  let lo := (c.cellsOf (c.seqToStream s)).seqPosMin s
  if m s ≠ -1 ∧ lo ≤ m s then c.seqRm (some s) lo (m s + 1) else c

def purge (c : KvCache) (m : PosMaxRm) : KvCache :=
  (List.finRange llamaMaxSeq).foldl (purgeSeq m) c

def moveHeads (c : KvCache) (sl : SlotInfo) : KvCache :=
  (List.range sl.strm.length).foldl
    (fun c s => c.setHead (sl.strm.getD s 0) ((sl.idxs.getD s []).getLastD 0 + 1)) c

/-- C++ `apply_ubatch`. -/
def applyUbatch (c : KvCache) (sl : SlotInfo) (u : Ubatch) : KvCache :=
  let r := c.applyTokens sl u
  (r.1.purge r.2).moveHeads sl

end KvCache

end Mallana
