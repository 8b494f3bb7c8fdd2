import Mallana.KvCache.Apply

/-!
# The dry run of a batch

Model of `llama_kv_cache::prepare`: find a slot for each ubatch and apply it, then undo everything in
reverse order. Before a ubatch is applied, the cells of its slot and all heads are remembered; undoing
writes the remembered cells back and sets the heads of the slot's streams.

The undo misses three things. The head of the `s`-th stream of the slot is taken from `v_heads_old[s]`,
which is the head of stream `s` and not of `strm[s]`. A ubatch that overwrites a cell outside the sliding
window purges older cells of that sequence outside the slot, which were not remembered. And the purge can
give pages back to the pool. `UndoOk` excludes exactly these, as a condition on the state before the
ubatch; `prepare_eq_iff` shows that the dry run restores the cache if and only if every ubatch it
places meets it.
-/

namespace Mallana

open Lib KvCells List

namespace KvCache

/-- What `prepare` remembers of a ubatch (C++ `state_t`). -/
structure PrepState where
  sinfo : SlotInfo
  vHeadsOld : List Nat
  vCells : List KvCells

def remember (c : KvCache) (sl : SlotInfo) : PrepState where
  sinfo := sl
  vHeadsOld := c.vHeads
  vCells := (List.range sl.strm.length).map fun s =>
    (c.cellsOf (sl.strm.getD s 0)).cpIdxs (sl.idxs.getD s [])

def undoStream (st : PrepState) (c : KvCache) (s : Nat) : KvCache :=
  let t := st.sinfo.strm.getD s 0
  (c.setCells t ((c.cellsOf t).setIdxs (st.sinfo.idxs.getD s []) (st.vCells.getD s {}))).setHead t
    (st.vHeadsOld.getD s 0)

def undo (c : KvCache) (st : PrepState) : KvCache :=
  (List.range st.sinfo.strm.length).foldl (undoStream st) c

/-- The loop that places the ubatches: the cache after the last one that found a slot, what was
    remembered (in order), and whether all of them did. -/
def prepareLoop : List Ubatch → KvCache → Except FindAbort (KvCache × List PrepState × Bool)
  | [], c => .ok (c, [], true)
  | u :: us, c =>
    match c.findSlot u false with
    | .error e => .error e
    | .ok none => .ok (c, [], false)
    | .ok (some sl) =>
      match prepareLoop us (c.applyUbatch sl u) with
      | .error e => .error e
      | .ok (c', sts, success) => .ok (c', c.remember sl :: sts, success)

/-- C++ `prepare`: the cache after the call, and the slots if all ubatches found one. -/
def prepare (c : KvCache) (us : List Ubatch) : Except FindAbort (KvCache × Option (List SlotInfo)) :=
  match prepareLoop us c with
  | .error e => .error e
  | .ok (c', sts, success) =>
    if sts.isEmpty ∧ success then .error .assertFailed
    else .ok (sts.foldr (fun st c => c.undo st) c', if success then some (sts.map PrepState.sinfo) else none)

section Undo
variable {c d : KvCache} {sl : SlotInfo} {kvSize n : Nat}

/-- The cell `x` with position, extension and sequences of `o`. -/
def takeOver (x o : Cell) : Cell := { x with pos := o.pos, ext := o.ext, seq := o.seq }

@[simp] lemma size_setIdxs (x : KvCells) (idxs : List Nat) (o : KvCells) : (x.setIdxs idxs o).size = x.size :=
  List.foldlRecOn (motive := fun y : KvCells => y.size = x.size) _ _ rfl
    fun y hy io _ => (size_setCell y io.1 io.2).trans hy

@[simp] lemma hasShift_setIdxs (x : KvCells) (idxs : List Nat) (o : KvCells) :
    (x.setIdxs idxs o).hasShift = x.hasShift :=
  List.foldlRecOn (motive := fun y : KvCells => y.hasShift = x.hasShift) _ _ rfl
    fun y hy io _ => (hasShift_setCell y io.1 io.2).trans hy

lemma cell_setIdxs_cpIdxs (x y : KvCells) (idxs : List Nat) (i : Nat) : (x.setIdxs idxs (y.cpIdxs idxs)).cell i =
      if i ∈ idxs ∧ i < x.size then takeOver (x.cell i) (y.cell i) else x.cell i := by
  unfold setIdxs cpIdxs
  induction idxs generalizing x with
  | nil => simp
  | cons j idxs ih =>
    simp only [map_cons, zip_cons_cons, foldl_cons]
    rw [ih, size_setCell, cell_setCell]
    by_cases hij : j = i
    · subst hij
      by_cases hlt : j < x.size <;> by_cases hmem : j ∈ idxs <;> simp [hlt, hmem, takeOver]
    · simp [hij, Ne.symm hij]

/-- What undoing the streams listed in `l` restores and keeps. -/
structure Undone (sl : SlotInfo) (l : List Nat) (c d d' : KvCache) : Prop where
  params : d'.toKvParams = d.toKvParams
  pool : d'.pool = d.pool
  scInfo : d'.scInfo = d.scInfo
  shape : ∀ {kvSize}, Shape kvSize d → Shape kvSize d'
  hasShift : ∀ t, (d'.cellsOf t).hasShift = (d.cellsOf t).hasShift
  cells : ∀ t i, d'.cell t i = if (∃ s ∈ l, sl.strm.getD s 0 = t ∧ i ∈ sl.idxs.getD s []) then
    takeOver (d.cell t i) (c.cell t i) else d.cell t i
  other : ∀ t, t ∉ l.map (sl.strm.getD · 0) → d'.headOf t = d.headOf t
  inv : (∀ t, Inv (c.cellsOf t)) → (∀ t, Inv (d.cellsOf t)) → (∀ t i, (d.cell t i).shift = 0) →
    ∀ t, Inv (d'.cellsOf t)

/-- The undo of one stream of the slot. -/
lemma undone_undoStream (hf : Found c n sl) (hs : Shape kvSize d) (hst : d.nStream = c.nStream)
    (hsc : Shape kvSize c) {s : Nat} (hlt : s < sl.strm.length) :
    Undone sl [s] c d (undoStream (c.remember sl) d s) ∧
      (undoStream (c.remember sl) d s).headOf (sl.strm.getD s 0) = c.headOf s := by
  have ht : sl.strm.getD s 0 < d.nStream := by
    rw [hst]
    exact hf.stream s hlt
  have hsnap : (c.remember sl).vCells.getD s {} = (c.cellsOf (sl.strm.getD s 0)).cpIdxs (sl.idxs.getD s []) := by
    rw [getD_eq_getElem _ _ (by simpa [remember] using hlt)]
    simp [remember]
  have hin : ∀ i ∈ sl.idxs.getD s [], i < (d.cellsOf (sl.strm.getD s 0)).size := by
    intro i hi
    rw [hs.size _ ht, ← hsc.size _ (hf.stream s hlt)]
    exact (hf.cells s hlt).lt i hi
  have hcells : ∀ t, (undoStream (c.remember sl) d s).cellsOf t =
      if sl.strm.getD s 0 = t then (d.cellsOf t).setIdxs (sl.idxs.getD s [])
        ((c.cellsOf t).cpIdxs (sl.idxs.getD s [])) else d.cellsOf t := by
    intro t
    have hset := cellsOf_setCells d (sl.strm.getD s 0) t
      ((d.cellsOf (sl.strm.getD s 0)).setIdxs (sl.idxs.getD s []) ((c.remember sl).vCells.getD s {}))
    refine hset.trans ?_
    by_cases e : sl.strm.getD s 0 = t
    · subst e
      rw [if_pos ⟨rfl, by rw [hs.cells]; exact ht⟩, if_pos rfl, hsnap]
    · rw [if_neg fun h => e h.1, if_neg e]
  refine ⟨⟨rfl, rfl, rfl, fun h => (h.setCells (size_setIdxs _ _ _)).setHead _ _, ?_, ?_, ?_, ?_⟩, ?_⟩
  · intro t
    rw [hcells]
    split <;> simp
  · intro t i
    rw [cell, hcells]
    by_cases e : sl.strm.getD s 0 = t
    · subst e
      rw [if_pos rfl, cell_setIdxs_cpIdxs]
      by_cases hi : i ∈ sl.idxs.getD s []
      · rw [if_pos ⟨hi, hin i hi⟩, if_pos ⟨s, by simp, rfl, hi⟩]
        rfl
      · rw [if_neg fun h => hi h.1, if_neg (by simpa using hi)]
        rfl
    · rw [if_neg e, if_neg]
      · rfl
      · rintro ⟨r, hr, hrt, _⟩
        obtain rfl : r = s := by simpa using hr
        exact e hrt
  · intro t htn
    simp only [map_cons, map_nil, mem_singleton] at htn
    refine (headOf_setHead _ _ _ _).trans ?_
    rw [if_neg fun h => htn h.1.symm]
    rfl
  · intro hc hd hsh t
    rw [hcells]
    split
    · rename_i e
      subst e
      refine (hd _).setIdxs (fun i hi => ⟨hin i hi, hsh _ i⟩) ?_
      intro o ho hp
      simp only [cpIdxs, mem_map] at ho
      obtain ⟨i, _, rfl⟩ := ho
      exact ((hc _).empty i hp).1
    · exact hd t
  · refine (headOf_setHead _ _ _ _).trans ?_
    have hlen : sl.strm.getD s 0 < d.vHeads.length := by
      rw [hs.heads]
      exact ht
    rw [if_pos ⟨rfl, hlen⟩]
    rfl

lemma undone_foldl (hf : Found c n sl) (hsc : Shape kvSize c) {l : List Nat}
    (hl : ∀ s ∈ l, s < sl.strm.length) (hs : Shape kvSize d) (hst : d.nStream = c.nStream) :
    Undone sl l c d (l.foldl (undoStream (c.remember sl)) d) ∧ ((l.map (sl.strm.getD · 0)).Nodup → ∀ s ∈ l,
        (l.foldl (undoStream (c.remember sl)) d).headOf (sl.strm.getD s 0) = c.headOf s) := by
  induction l generalizing d with
  | nil =>
    refine ⟨⟨rfl, rfl, rfl, id, fun _ => rfl, ?_, fun _ _ => rfl, fun _ h _ => h⟩, ?_⟩
    · simp
    · simp
  | cons s l ih =>
    simp only [mem_cons, forall_eq_or_imp] at hl
    obtain ⟨h1, hhead⟩ := undone_undoStream hf hs hst hsc hl.1
    obtain ⟨h2, hheads⟩ := ih hl.2 (h1.shape hs) (by rw [h1.params]; exact hst)
    rw [foldl_cons]
    refine ⟨⟨h2.params.trans h1.params, h2.pool.trans h1.pool, h2.scInfo.trans h1.scInfo,
      fun h => h2.shape (h1.shape h), fun t => (h2.hasShift t).trans (h1.hasShift t), ?_, ?_, ?_⟩, ?_⟩
    · intro t i
      rw [h2.cells, h1.cells]
      simp only [mem_cons, not_mem_nil, or_false, exists_eq_or_imp, exists_eq_left]
      by_cases e1 : sl.strm.getD s 0 = t ∧ i ∈ sl.idxs.getD s []
      · by_cases e2 : ∃ r ∈ l, sl.strm.getD r 0 = t ∧ i ∈ sl.idxs.getD r []
        · rw [if_pos e2, if_pos e1, if_pos (.inl e1)]
          rfl
        · rw [if_neg e2, if_pos e1, if_pos (.inl e1)]
      · by_cases e2 : ∃ r ∈ l, sl.strm.getD r 0 = t ∧ i ∈ sl.idxs.getD r []
        · rw [if_pos e2, if_neg e1, if_pos (.inr e2)]
        · rw [if_neg e2, if_neg e1, if_neg (not_or.2 ⟨e1, e2⟩)]
    · intro t ht
      simp only [map_cons, mem_cons, not_or] at ht
      rw [h2.other t ht.2, h1.other t (by simpa using ht.1)]
    · intro hc hd hsh
      refine h2.inv hc (h1.inv hc hd hsh) ?_
      intro t i
      rw [h1.cells]
      split <;> exact hsh t i
    · intro hnd r hr
      simp only [map_cons, nodup_cons] at hnd
      obtain rfl | hr := mem_cons.1 hr
      · rw [h2.other _ hnd.1]
        exact hhead
      · exact hheads hnd.2 r hr

lemma undone_undo (hf : Found c n sl) (hsc : Shape kvSize c) (hs : Shape kvSize d) (hst : d.nStream = c.nStream) :
    Undone sl (List.range sl.strm.length) c d (d.undo (c.remember sl)) ∧ (sl.strm.Nodup → ∀ s < sl.strm.length,
        (d.undo (c.remember sl)).headOf (sl.strm.getD s 0) = c.headOf s) := by
  obtain ⟨h1, h2⟩ := undone_foldl hf hsc (fun s hs => mem_range.1 hs) hs hst
  refine ⟨h1, ?_⟩
  intro hnd s hlt
  refine h2 ?_ s (mem_range.2 hlt)
  rw [map_getD_range]
  exact hnd

end Undo

def Covered (S : List SlotInfo) (t i : Nat) : Prop := ∃ sl ∈ S, sl.Has t i

def InUse (S : List SlotInfo) (t : Nat) : Prop := ∃ sl ∈ S, t ∈ sl.strm

/-- After the purge of `u` the cell is still occupied: it had a position, and a sequence that is not
    purged at that position or no sequence at all. -/
def Stays (c : KvCache) (sl : SlotInfo) (u : Ubatch) (t i : Nat) : Prop :=
  (c.written sl u t i).pos ≠ -1 ∧ ((c.written sl u t i).seq = ∅ ∨
    ∃ q ∈ (c.written sl u t i).seq, ¬ (t = c.seqToStream q ∧ 0 ≤ (c.written sl u t i).pos ∧
      c.Overwrites sl q (c.written sl u t i).pos))

/-- Placing `u` calls `seq_rm` for `q`: an occupied cell of `q` is overwritten, and of the cells that
    hold `q` once the tokens are written (if there are any) one is not newer. -/
def Purges (c : KvCache) (sl : SlotInfo) (u : Ubatch) (q : SeqId) : Prop :=
  c.Overwrites sl q 0 ∧ ((∀ i, q ∉ (c.written sl u (c.seqToStream q) i).seq) ∨
    ∃ i, q ∈ (c.written sl u (c.seqToStream q) i).seq ∧ c.Overwrites sl q (c.written sl u (c.seqToStream q) i).pos)

/-- The ubatch `u`, about to be placed in the slot `sl` after the slots `S`, can be undone. -/
structure UndoOk (S : List SlotInfo) (c : KvCache) (sl : SlotInfo) (u : Ubatch) : Prop where
  /-- a stream used for the first time has the head of the stream with its number in the slot -/
  heads : ∀ s < sl.strm.length, ¬ InUse S (sl.strm.getD s 0) → c.headOf s = c.headOf (sl.strm.getD s 0)
  /-- every cell outside the slots that shares a sequence with an overwritten cell is newer -/
  cells : ∀ q i, ¬ Covered (sl :: S) (c.seqToStream q) i → q ∈ (c.cell (c.seqToStream q) i).seq →
    0 ≤ (c.cell (c.seqToStream q) i).pos → ¬ c.Overwrites sl q (c.cell (c.seqToStream q) i).pos
  /-- every page with a block of a stream in which the purge removes keeps an occupied cell -/
  pages : c.pgEnabled = true → ∀ q, c.Purges sl u q →
    ∀ lp < pagesFor (c.cellsOf 0).size c.pgBlockSize, 0 ≤ c.page (c.seqToStream q) lp →
      ∃ i, lp * c.pgBlockSize ≤ i ∧ i < min (lp * c.pgBlockSize + c.pgBlockSize) (c.cellsOf 0).size ∧
        c.Stays sl u (c.seqToStream q) i

def PrepOk : List SlotInfo → KvCache → List Ubatch → Prop
  | _, _, [] => True
  | S, c, u :: us =>
    match c.findSlot u false with
    | .ok (some sl) => UndoOk S c sl u ∧ PrepOk (sl :: S) (c.applyUbatch sl u) us
    | _ => True

/-- A well-formed cache without pending shifts. -/
structure Steady (kvSize : Nat) (c : KvCache) : Prop where
  wf : Wf kvSize c
  shift : ∀ t i, (c.cell t i).shift = 0

/-- A well-formed ubatch: it has tokens, distinct sequences that the cache knows, a position for
    every token, and no token that names a sequence twice. -/
structure UbatchOk (c : KvCache) (u : Ubatch) : Prop where
  tokens : 0 < u.nTokens
  seqs : c.SeqsOk u
  token : ∀ k < u.nTokens, u.TokenOk k

lemma UbatchOk.congr {c c' : KvCache} {u : Ubatch} (h : UbatchOk c u)
    (hp : c'.toKvParams = c.toKvParams) : UbatchOk c' u := by
  refine ⟨h.tokens, ⟨h.seqs.1, ?_⟩, h.token⟩
  rw [hp]
  exact h.seqs.2

section Grows
variable {c c' c'' : KvCache}

/-- The free blocks only grow, and if they do not then nothing changed. -/
def PoolGrows (c c' : KvCache) : Prop :=
  ∃ l, c'.pgFreeBlocks = c.pgFreeBlocks ++ l ∧ (l = [] → c'.pool = c.pool)

lemma PoolGrows.of_eq (h : c'.pool = c.pool) : PoolGrows c c' :=
  ⟨[], by rw [append_nil]; exact congrArg Prod.snd h, fun _ => h⟩

lemma PoolGrows.trans (h1 : PoolGrows c c') (h2 : PoolGrows c' c'') : PoolGrows c c'' := by
  obtain ⟨l1, e1, p1⟩ := h1
  obtain ⟨l2, e2, p2⟩ := h2
  refine ⟨l1 ++ l2, by rw [e2, e1, append_assoc], ?_⟩
  intro e
  obtain ⟨rfl, rfl⟩ := append_eq_nil_iff.1 e
  exact (p2 rfl).trans (p1 rfl)

lemma PoolGrows.antisymm (h1 : PoolGrows c c') (h2 : PoolGrows c' c'') (h : c''.pool = c.pool) :
    c'.pool = c.pool ∧ c''.pool = c'.pool := by
  obtain ⟨l1, e1, p1⟩ := h1
  obtain ⟨l2, e2, p2⟩ := h2
  have hfree : c''.pgFreeBlocks = c.pgFreeBlocks := congrArg Prod.snd h
  rw [e2, e1, append_assoc] at hfree
  have hnil := append_right_eq_self.1 hfree
  obtain ⟨rfl, rfl⟩ := append_eq_nil_iff.1 hnil
  exact ⟨p1 rfl, p2 rfl⟩

lemma poolGrows_foldl {α : Type} {f : KvCache → α → KvCache} (h : ∀ c a, PoolGrows c (f c a))
    (l : List α) (c : KvCache) : PoolGrows c (l.foldl f c) :=
  List.foldlRecOn l f (PoolGrows.of_eq rfl) fun b hb a _ => hb.trans (h b a)

lemma poolGrows_tryFreePage (c : KvCache) (t lp : Nat) : PoolGrows c (c.tryFreePage t lp) := by
  unfold tryFreePage
  split
  · exact PoolGrows.of_eq rfl
  split
  · exact PoolGrows.of_eq rfl
  · exact ⟨[c.page t lp], rfl, fun e => by cases e⟩

lemma poolGrows_purge (c : KvCache) (m : PosMaxRm) : PoolGrows c (c.purge m) := by
  refine poolGrows_foldl (fun b q => ?_) _ c
  obtain ⟨_, e⟩ | ⟨_, d, hd, _, e⟩ := purgeSeq_cases m b q
  · rw [e]
    exact PoolGrows.of_eq rfl
  · rw [e]
    split
    · exact (PoolGrows.of_eq hd.pool).trans
        (poolGrows_foldl (fun c lp => poolGrows_tryFreePage c _ lp) _ d)
    · exact PoolGrows.of_eq hd.pool

end Grows

/-- What placing a ubatch does to the cache. -/
structure Placed (kvSize : Nat) (sl : SlotInfo) (c c' : KvCache) : Prop where
  params : c'.toKvParams = c.toKvParams
  scInfo : c'.scInfo = c.scInfo
  steady : Steady kvSize c'
  hasShift : ∀ t, (c'.cellsOf t).hasShift = (c.cellsOf t).hasShift
  cut : ∀ t i, ¬ sl.Has t i → Cell.Cut (c'.cell t i) (c.cell t i)
  grows : PoolGrows c c'

section Place
variable {c : KvCache} {sl : SlotInfo} {u : Ubatch} {kvSize n : Nat}

lemma tokensKeep_applyTokens (hs : Shape kvSize c) (hf : Found c n sl) (hu : ∀ e ∈ sl.entries, u.TokenOk e.1) :
    TokensKeep kvSize c (c.applyTokens sl u).1 :=
  tokensKeep_foldl hs _ (fun e he => hf.lt hs ⟨e, he, rfl⟩) hu

lemma headOf_applyUbatch_le (h : Wf kvSize c) (hf : Found c n sl) (hn : 0 < n)
    (t : Nat) : (c.applyUbatch sl u).headOf t ≤ kvSize := by
  have htok : (c.applyTokens sl u).1.headOf t = c.headOf t :=
    List.foldlRecOn (motive := fun st : KvCache × PosMaxRm => st.1.headOf t = c.headOf t) _ _ rfl
      fun st hst e _ => hst
  have hpurge : ((c.applyTokens sl u).1.purge (c.applyTokens sl u).2).headOf t ≤ kvSize := by
    refine List.foldlRecOn (motive := fun b : KvCache => b.headOf t ≤ kvSize) _ _ ?_ ?_
    · rw [htok]
      exact h.head_le t
    · intro b hb q _
      unfold purgeSeq
      simp only []
      split
      · exact (headOf_seqRm_le _ _ _ _).trans hb
      · exact hb
  refine List.foldlRecOn (motive := fun b : KvCache => b.headOf t ≤ kvSize) _ _ hpurge ?_
  intro b hb s hs
  rw [headOf_setHead]
  split
  · have hfs := hf.cells s (mem_range.1 hs)
    have hne : sl.idxs.getD s [] ≠ [] := by
      intro e
      have := hfs.length
      rw [e] at this
      simp at this
      omega
    have hlast : (sl.idxs.getD s []).getLastD 0 ∈ sl.idxs.getD s [] := by
      rw [getLastD_eq_getLast?, getLast?_eq_some_getLast hne, Option.getD_some]
      exact getLast_mem hne
    have := hfs.lt _ hlast
    rw [h.shape.size _ (hf.stream s (mem_range.1 hs))] at this
    omega
  · exact hb

lemma Wf.applyUbatch (h : Wf kvSize c) (hf : Found c n sl) (hn : 0 < n) (hnd : sl.strm.Nodup)
    (hu : ∀ e ∈ sl.entries, u.TokenOk e.1) : Wf kvSize (c.applyUbatch sl u) := by
  have htk := tokensKeep_applyTokens h.shape hf hu
  have hm := posMax_ge (c := c) (u := u) (hf.nodup hnd)
  have hpk := purgeKeep_purge hm (htk.only.shape h.shape) (htk.inv h.inv)
  refine ⟨(keeps_applyUbatch c sl u).shape h.shape, headOf_applyUbatch_le h hf hn, fun t => ?_⟩
  rw [KvCache.applyUbatch, cellsOf, vCells_moveHeads]
  exact hpk.inv t

lemma placed_applyUbatch (h : Steady kvSize c) (hf : Found c n sl) (hn : 0 < n)
    (hnd : sl.strm.Nodup) (hu : ∀ e ∈ sl.entries, u.TokenOk e.1) : Placed kvSize sl c (c.applyUbatch sl u) := by
  have hs := h.wf.shape
  have htk := tokensKeep_applyTokens hs hf hu
  have hm := posMax_ge (c := c) (u := u) (hf.nodup hnd)
  have hst := htk.only.shape hs
  have hpk := purgeKeep_purge hm hst (htk.inv h.wf.inv)
  have hmv := cellsOnly_moveHeads ((c.applyTokens sl u).1.purge (c.applyTokens sl u).2) sl
  have hcells : ∀ t, (c.applyUbatch sl u).cellsOf t =
      ((c.applyTokens sl u).1.purge (c.applyTokens sl u).2).cellsOf t := by
    intro t
    rw [applyUbatch, cellsOf, vCells_moveHeads]
    rfl
  refine ⟨?_, ?_, ⟨h.wf.applyUbatch hf hn hnd hu, ?_⟩, ?_, ?_, ?_⟩
  · exact hmv.params.trans (hpk.keeps.params.trans htk.only.params)
  · have hsc : (c.applyUbatch sl u).scInfo = ((c.applyTokens sl u).1.purge (c.applyTokens sl u).2).scInfo :=
      List.foldlRecOn (motive := fun b : KvCache => b.scInfo = _) _ _ rfl fun _ hb _ _ => hb
    exact hsc.trans (hpk.scInfo.trans htk.scInfo)
  · intro t i
    rw [cell, hcells]
    exact (hpk.cut t i).shift_eq_zero (htk.shift h.shift t i)
  · intro t
    rw [hcells, hpk.hasShift, htk.hasShift]
  · intro t i hni
    rw [cell, hcells, ← cell_applyTokens_of_notMem c sl u fun e he heq => hni ⟨e, he, heq⟩]
    exact hpk.cut t i
  · exact ((PoolGrows.of_eq htk.only.pool).trans (poolGrows_purge _ _)).trans
      (PoolGrows.of_eq hmv.pool)

lemma Overwrites.mono {q : SeqId} {p p' : Int} (h : c.Overwrites sl q p) (hp : p' ≤ p) : c.Overwrites sl q p' := by
  obtain ⟨e, he, hne, hfirst, hle⟩ := h
  exact ⟨e, he, hne, hfirst, hp.trans hle⟩

variable (h : Steady kvSize c) (hf : Found c n sl) (hnd : sl.strm.Nodup) (hu : ∀ e ∈ sl.entries, u.TokenOk e.1)
include h hf hnd hu

lemma cell_applyUbatch_eq_iff {t i : Nat} (hni : ¬ sl.Has t i) :
    (c.applyUbatch sl u).cell t i = c.cell t i ↔ ∀ q ∈ (c.cell t i).seq,
      ¬ (t = c.seqToStream q ∧ 0 ≤ (c.cell t i).pos ∧ c.Overwrites sl q (c.cell t i).pos) := by
  have htk := tokensKeep_applyTokens h.wf.shape hf hu
  have hcell := cell_applyTokens_of_notMem c sl u fun e he heq => hni ⟨e, he, heq⟩
  have hiff := cell_purge_eq_iff (posMax_ge (hf.nodup hnd)) (htk.only.shape h.wf.shape)
    (htk.inv h.wf.inv) t i (m := (c.applyTokens sl u).2)
  rw [hcell] at hiff
  rw [applyUbatch, cell_moveHeads]
  refine hiff.trans (forall₂_congr fun q _ => not_congr ?_)
  rw [seqToStream_congr htk.only.params]
  exact and_congr_right fun _ => and_congr_right fun h0 => le_posMax_of_nonneg (hf.nodup hnd) q h0

lemma headOf_applyUbatch_of_notMem {t : Nat} (ht : t ∉ sl.strm)
    (hcells : ∀ i, (c.applyUbatch sl u).cell t i = c.cell t i) : (c.applyUbatch sl u).headOf t = c.headOf t := by
  have hni : ∀ i, ¬ sl.Has t i := by
    intro i hi
    obtain ⟨s, hs, rfl, _⟩ := hf.has_iff.1 hi
    rw [getD_eq_getElem _ _ hs] at ht
    exact ht (getElem_mem hs)
  have htk := tokensKeep_applyTokens h.wf.shape hf hu
  have hm := posMax_ge (c := c) (u := u) (hf.nodup hnd)
  have hmove : (c.applyUbatch sl u).headOf t = ((c.applyTokens sl u).1.purge (c.applyTokens sl u).2).headOf t := by
    refine List.foldlRecOn (motive := fun b : KvCache => b.headOf t = _) _ _ rfl ?_
    intro b hb s hs
    rw [headOf_setHead, if_neg, hb]
    rintro ⟨e, _⟩
    have hs := mem_range.1 hs
    rw [getD_eq_getElem _ _ hs] at e
    exact ht (e ▸ getElem_mem hs)
  have hcell : ∀ i, (c.applyTokens sl u).1.cell t i = c.cell t i := fun i =>
    cell_applyTokens_of_notMem c sl u fun e he heq => hni i ⟨e, he, heq⟩
  rw [hmove, headOf_purge hm (htk.only.shape h.wf.shape) (htk.inv h.wf.inv)]
  · rw [headOf, htk.heads]
    rfl
  · intro i
    rw [← cell_purge_eq_iff hm (htk.only.shape h.wf.shape) (htk.inv h.wf.inv), hcell, ← cell_moveHeads _ sl]
    exact hcells i

lemma purgeRuns_iff (q : SeqId) :
    PurgeRuns (c.applyTokens sl u).2 (c.applyTokens sl u).1 q ↔ c.Purges sl u q := by
  have hs := h.wf.shape
  have htk := tokensKeep_applyTokens hs hf hu
  have hm := posMax_ge (c := c) (u := u) (hf.nodup hnd) q
  have hcell := cell_applyTokens (u := u) hs (fun e he => hf.lt hs ⟨e, he, rfl⟩) (hf.nodup hnd)
  have h0 : (c.applyTokens sl u).2 q ≠ -1 ↔ c.Overwrites sl q 0 := by
    rw [← le_posMax_of_nonneg (u := u) (hf.nodup hnd) q le_rfl]
    omega
  unfold PurgeRuns Purges
  rw [seqToStream_congr htk.only.params, h0]
  refine and_congr_right fun hov => ?_
  rw [le_posMax_iff (hf.nodup hnd)]
  simp only [← hcell]
  have hmem : ∀ {i : Nat}, q ∈ ((c.applyTokens sl u).1.cell (c.seqToStream q) i).seq →
      ((c.applyTokens sl u).1.cell (c.seqToStream q) i).pos ∈
        ((c.applyTokens sl u).1.cellsOf (c.seqToStream q)).positions q :=
    fun hi => ⟨_, lt_size_of_mem_seq hi, hi, rfl⟩
  obtain ⟨hempty, e⟩ | ⟨⟨i, _, hi, hp⟩, hle⟩ :=
    (htk.inv h.wf.inv (c.seqToStream q)).seqPosMin_spec q
  · rw [e]
    refine iff_of_true (.inl le_rfl) (.inl fun i hi => ?_)
    have := hmem hi
    rw [hempty] at this
    exact this
  · rw [← hp] at hle ⊢
    constructor
    · rintro (hneg | hov')
      · exact .inr ⟨i, hi, hov.mono (by have : (_ : Int) ≤ -1 := hneg; unfold cell; omega)⟩
      · exact .inr ⟨i, hi, hov'⟩
    · rintro (hno | ⟨j, hj, hov'⟩)
      · exact absurd hi (hno i)
      · exact .inr (hov'.mono (hle (hmem hj)))

lemma pos_applyUbatch_ne_iff (t i : Nat) :
    ((c.applyUbatch sl u).cell t i).pos ≠ -1 ↔ c.Stays sl u t i := by
  have hs := h.wf.shape
  have htk := tokensKeep_applyTokens hs hf hu
  have hcell := cell_applyTokens (u := u) hs (fun e he => hf.lt hs ⟨e, he, rfl⟩) (hf.nodup hnd) t i
  rw [applyUbatch, cell_moveHeads, pos_purge_ne_iff (posMax_ge (hf.nodup hnd)) (htk.only.shape hs)
    (htk.inv h.wf.inv), hcell]
  refine and_congr_right fun _ => or_congr_right ?_
  refine exists_congr fun q => and_congr_right fun _ => not_congr ?_
  rw [seqToStream_congr htk.only.params]
  exact and_congr_right fun _ => and_congr_right fun h0 => le_posMax_of_nonneg (hf.nodup hnd) q h0

lemma pool_applyUbatch_eq_iff (hn : 0 < n) :
    (c.applyUbatch sl u).pool = c.pool ↔ (c.pgEnabled = true → ∀ q, c.Purges sl u q →
      ∀ lp < pagesFor (c.cellsOf 0).size c.pgBlockSize, 0 ≤ c.page (c.seqToStream q) lp →
        ∃ i, lp * c.pgBlockSize ≤ i ∧ i < min (lp * c.pgBlockSize + c.pgBlockSize) (c.cellsOf 0).size ∧
          c.Stays sl u (c.seqToStream q) i) := by
  have hs := h.wf.shape
  have htk := tokensKeep_applyTokens hs hf hu
  have hp := placed_applyUbatch h hf hn hnd hu
  have hm := posMax_ge (c := c) (u := u) (hf.nodup hnd)
  have hst := htk.only.shape hs
  have hinv := htk.inv h.wf.inv
  have hmv := cellsOnly_moveHeads ((c.applyTokens sl u).1.purge (c.applyTokens sl u).2) sl
  have hpur : ((c.applyTokens sl u).1.purge (c.applyTokens sl u).2).toKvParams = c.toKvParams :=
    (purgeKeep_purge hm hst hinv).keeps.params.trans htk.only.params
  have hsp := (purgeKeep_purge hm hst hinv).keeps.shape hst
  -- liveness after the purge, in terms of the cells before
  have hlive : ∀ t lp, ((c.applyTokens sl u).1.purge (c.applyTokens sl u).2).PageLive t lp ↔
      ∃ i, lp * c.pgBlockSize ≤ i ∧
        i < min (lp * c.pgBlockSize + c.pgBlockSize) (c.cellsOf 0).size ∧ c.Stays sl u t i := by
    intro t lp
    unfold PageLive
    simp only [mem_range'_1, hpur, hsp.size 0 hsp.streams, hs.size 0 hs.streams]
    refine exists_congr fun i => ?_
    rw [← pos_applyUbatch_ne_iff h hf hnd hu, applyUbatch, cell_moveHeads, and_assoc]
    refine and_congr_right fun hlo => and_congr ?_ ?_
    · omega
    · simp [KvCells.isEmpty, cell]
  have hpool : (c.applyUbatch sl u).pool = ((c.applyTokens sl u).1.purge (c.applyTokens sl u).2).pool := hmv.pool
  have hpage := page_of_pool_eq htk.only.pool
  rw [hpool, ← htk.only.pool]
  constructor
  · intro heq hen q hq lp hlp h0
    rw [← hlive]
    rw [← seqToStream_congr htk.only.params] at h0 ⊢
    refine live_of_pool_purge hm hst hinv heq (by rw [htk.only.params]; exact hen)
      ((purgeRuns_iff h hf hnd hu q).2 hq) ?_ (by rw [hpage]; exact h0)
    rw [htk.only.params, ← hs.size 0 hs.streams]
    exact hlp
  · intro hall
    refine pool_purge_of_live hm hst hinv ?_
    intro hen q hq lp hlp h0
    rw [hpage] at h0
    rw [seqToStream_congr htk.only.params] at h0 ⊢
    rw [hlive]
    refine hall (by rw [← htk.only.params]; exact hen) q ((purgeRuns_iff h hf hnd hu q).1 hq) lp ?_ h0
    rw [hs.size 0 hs.streams, ← htk.only.params]
    exact hlp

end Place

section Run
variable {c R : KvCache} {S : List SlotInfo} {kvSize : Nat}

lemma Covered.inUse {t i : Nat} (h : Covered S t i) : InUse S t := by
  obtain ⟨sl, hsl, e, he, heq⟩ := h
  refine ⟨sl, hsl, ?_⟩
  simp only [SlotInfo.entries, mem_flatMap, mem_map, mem_range] at he
  obtain ⟨s, hs, _, _, rfl⟩ := he
  obtain ⟨rfl, rfl⟩ := Prod.mk.inj heq
  rw [getD_eq_getElem _ _ hs]
  exact getElem_mem hs

lemma covered_cons {sl : SlotInfo} {t i : Nat} : Covered (sl :: S) t i ↔ sl.Has t i ∨ Covered S t i := by
  simp [Covered]

lemma inUse_cons {sl : SlotInfo} {t : Nat} : InUse (sl :: S) t ↔ t ∈ sl.strm ∨ InUse S t := by
  simp [InUse]

/-- What the dry run restores in any case: nothing is added to a cell or taken from the pool. -/
structure Restored (kvSize : Nat) (c R : KvCache) : Prop where
  params : R.toKvParams = c.toKvParams
  scInfo : R.scInfo = c.scInfo
  shape : Shape kvSize R
  inv : ∀ t, Inv (R.cellsOf t)
  shift : ∀ t i, (R.cell t i).shift = 0
  hasShift : ∀ t, (R.cellsOf t).hasShift = (c.cellsOf t).hasShift
  cut : ∀ t i, Cell.Cut (R.cell t i) (c.cell t i)
  grows : PoolGrows c R

/-- The caches agree outside the slots `S`. -/
structure Agree (S : List SlotInfo) (c R : KvCache) : Prop where
  cells : ∀ t i, ¬ Covered S t i → R.cell t i = c.cell t i
  heads : ∀ t, ¬ InUse S t → R.headOf t = c.headOf t
  pool : R.pool = c.pool

lemma Steady.restored (h : Steady kvSize c) : Restored kvSize c c :=
  ⟨rfl, rfl, h.wf.shape, h.wf.inv, h.shift, fun _ => rfl, fun _ _ => Cell.Cut.refl _, PoolGrows.of_eq rfl⟩

lemma takeOver_eq {x o : Cell} (h : x.shift = o.shift) : takeOver x o = o := by
  unfold takeOver
  rw [h]

lemma Cut.eq_of_cut {x y z : Cell} (h1 : Cell.Cut y x) (h2 : Cell.Cut z y) (h : z = x) : y = x := by
  subst h
  exact h1.eq_of_seq_eq (h1.seq_subset.antisymm h2.seq_subset)

section Step
variable {sl : SlotInfo} {u : Ubatch} {n : Nat}

section
variable (h : Steady kvSize c) (hf : Found c n sl) (hR : Restored kvSize (c.applyUbatch sl u) R)
  (hp : Placed kvSize sl c (c.applyUbatch sl u))
include h hf hR hp

lemma cell_undo (t i : Nat) :
    (sl.Has t i → (R.undo (c.remember sl)).cell t i = c.cell t i) ∧
      (¬ sl.Has t i → (R.undo (c.remember sl)).cell t i = R.cell t i) := by
  obtain ⟨hun, _⟩ := undone_undo hf h.wf.shape hR.shape (by rw [hR.params, hp.params])
  have hiff : (∃ s ∈ List.range sl.strm.length, sl.strm.getD s 0 = t ∧ i ∈ sl.idxs.getD s []) ↔ sl.Has t i := by
    rw [hf.has_iff]
    simp only [mem_range]
  rw [hun.cells]
  constructor
  · intro hi
    rw [if_pos (hiff.2 hi)]
    exact takeOver_eq ((hR.shift t i).trans (h.shift t i).symm)
  · intro hi
    rw [if_neg fun e => hi (hiff.1 e)]

lemma Restored.undo :
    Restored kvSize c (R.undo (c.remember sl)) := by
  obtain ⟨hun, _⟩ := undone_undo hf h.wf.shape hR.shape (by rw [hR.params, hp.params])
  have hcell := cell_undo h hf hR hp
  refine ⟨?_, ?_, hun.shape hR.shape, hun.inv h.wf.inv hR.inv hR.shift, ?_, ?_, ?_, ?_⟩
  · rw [hun.params, hR.params, hp.params]
  · rw [hun.scInfo, hR.scInfo, hp.scInfo]
  · intro t i
    by_cases hi : sl.Has t i
    · rw [(hcell t i).1 hi]
      exact h.shift t i
    · rw [(hcell t i).2 hi]
      exact hR.shift t i
  · intro t
    rw [hun.hasShift, hR.hasShift, hp.hasShift]
  · intro t i
    by_cases hi : sl.Has t i
    · rw [(hcell t i).1 hi]
      exact Cell.Cut.refl _
    · rw [(hcell t i).2 hi]
      exact (hR.cut t i).trans (hp.cut t i hi)
  · exact (hp.grows.trans hR.grows).trans (PoolGrows.of_eq hun.pool)

end

/-- The undo of one ubatch is right exactly if `UndoOk` holds. -/
lemma agree_undo_iff (h : Steady kvSize c) (hf : Found c n sl) (hn : 0 < n) (hnd : sl.strm.Nodup)
    (hu : ∀ e ∈ sl.entries, u.TokenOk e.1) (hR : Restored kvSize (c.applyUbatch sl u) R) :
    Agree S c (R.undo (c.remember sl)) ↔ UndoOk S c sl u ∧ Agree (sl :: S) (c.applyUbatch sl u) R := by
  have hp := placed_applyUbatch h hf hn hnd hu
  obtain ⟨hun, hheads⟩ := undone_undo hf h.wf.shape hR.shape (by rw [hR.params, hp.params])
  have hcell := cell_undo h hf hR hp
  have hmap : (List.range sl.strm.length).map (sl.strm.getD · 0) = sl.strm := map_getD_range _ 0
  have hother : ∀ t, t ∉ sl.strm → (R.undo (c.remember sl)).headOf t = R.headOf t := by
    intro t ht
    refine hun.other t ?_
    rw [hmap]
    exact ht
  -- the cells condition of `UndoOk` speaks about the cells outside the slots
  have hcells : (∀ t i, ¬ Covered (sl :: S) t i → (c.applyUbatch sl u).cell t i = c.cell t i) ↔
      ∀ q i, ¬ Covered (sl :: S) (c.seqToStream q) i → q ∈ (c.cell (c.seqToStream q) i).seq →
        0 ≤ (c.cell (c.seqToStream q) i).pos →
        ¬ c.Overwrites sl q (c.cell (c.seqToStream q) i).pos := by
    constructor
    · intro hall q i hno hq h0 hov
      have hni : ¬ sl.Has (c.seqToStream q) i := fun hi => hno (covered_cons.2 (.inl hi))
      exact (cell_applyUbatch_eq_iff h hf hnd hu hni).1 (hall _ i hno) q hq ⟨rfl, h0, hov⟩
    · intro hall t i hno
      have hni : ¬ sl.Has t i := fun hi => hno (covered_cons.2 (.inl hi))
      refine (cell_applyUbatch_eq_iff h hf hnd hu hni).2 ?_
      rintro q hq ⟨rfl, h0, hov⟩
      exact hall q i hno hq h0 hov
  have hhead : (∀ t i, ¬ Covered (sl :: S) t i → (c.applyUbatch sl u).cell t i = c.cell t i) →
      ∀ t, ¬ InUse (sl :: S) t → (c.applyUbatch sl u).headOf t = c.headOf t := by
    intro hall t ht
    refine headOf_applyUbatch_of_notMem h hf hnd hu (fun hin => ht (inUse_cons.2 (.inl hin))) ?_
    exact fun i => hall t i fun hcov => ht hcov.inUse
  constructor
  · intro hag
    have hsame : ∀ t i, ¬ Covered (sl :: S) t i → (c.applyUbatch sl u).cell t i = c.cell t i ∧
          R.cell t i = (c.applyUbatch sl u).cell t i := by
      intro t i hno
      rw [covered_cons, not_or] at hno
      have heq : R.cell t i = c.cell t i := by
        rw [← (hcell t i).2 hno.1]
        exact hag.cells t i hno.2
      have hc1 := Cut.eq_of_cut (hp.cut t i hno.1) (hR.cut t i) heq
      exact ⟨hc1, heq.trans hc1.symm⟩
    have hunch := fun t i hno => (hsame t i hno).1
    obtain ⟨hpool1, hpool2⟩ := hp.grows.antisymm hR.grows (hun.pool.symm.trans hag.pool)
    refine ⟨⟨?_, hcells.1 hunch, (pool_applyUbatch_eq_iff h hf hnd hu hn).1 hpool1⟩,
      ⟨fun t i hno => (hsame t i hno).2, ?_, hpool2⟩⟩
    · intro s hs hno
      rw [← hheads hnd s hs]
      exact hag.heads _ hno
    · intro t hno
      rw [hhead hunch t hno]
      rw [inUse_cons, not_or] at hno
      rw [← hother t hno.1]
      exact hag.heads t hno.2
  · rintro ⟨hok, hag⟩
    have hunch := hcells.2 hok.cells
    refine ⟨?_, ?_, ?_⟩
    · intro t i hno
      by_cases hi : sl.Has t i
      · exact (hcell t i).1 hi
      · have hno' : ¬ Covered (sl :: S) t i := fun e => (covered_cons.1 e).elim hi hno
        rw [(hcell t i).2 hi, hag.cells t i hno', hunch t i hno']
    · intro t hno
      by_cases ht : t ∈ sl.strm
      · obtain ⟨s, hs, rfl⟩ := getElem_of_mem ht
        rw [← getD_eq_getElem _ 0 hs] at hno ⊢
        rw [hheads hnd s hs]
        exact hok.heads s hs hno
      · have hno' : ¬ InUse (sl :: S) t := fun e => (inUse_cons.1 e).elim ht hno
        rw [hother t ht, hag.heads t hno', hhead hunch t hno']
    · rw [hun.pool, hag.pool]
      exact (pool_applyUbatch_eq_iff h hf hnd hu hn).2 hok.pages

end Step

lemma restored_prepareLoop {us : List Ubatch} (h : Steady kvSize c) (hus : ∀ u ∈ us, UbatchOk c u)
    {c' : KvCache} {sts : List PrepState} {success : Bool} (hok : prepareLoop us c = .ok (c', sts, success)) :
    Restored kvSize c (sts.foldr (fun st c => c.undo st) c') ∧
      (Agree S c (sts.foldr (fun st c => c.undo st) c') ↔ PrepOk S c us) := by
  induction us generalizing c S sts with
  | nil =>
    cases hok
    exact ⟨h.restored, iff_of_true ⟨fun _ _ _ => rfl, fun _ _ => rfl, rfl⟩ trivial⟩
  | cons u us ih =>
    simp only [mem_cons, forall_eq_or_imp] at hus
    simp only [prepareLoop] at hok
    simp only [PrepOk]
    cases hslot : c.findSlot u false with
    | error e =>
      rw [hslot] at hok
      cases hok
    | ok r =>
      rw [hslot] at hok
      cases r with
      | none =>
        cases hok
        exact ⟨h.restored, iff_of_true ⟨fun _ _ _ => rfl, fun _ _ => rfl, rfl⟩ trivial⟩
      | some sl =>
        simp only [] at hok ⊢
        obtain ⟨hf, hstrm⟩ := found_of_findSlot h.wf.shape h.wf.head_le hslot
        have hn := slotTokens_pos hus.1.tokens hslot
        have hnd : sl.strm.Nodup := by
          rw [hstrm]
          exact nodup_slotSeqs hus.1.seqs
        have htok : ∀ e ∈ sl.entries, u.TokenOk e.1 := fun e he =>
          hus.1.token e.1 (lt_nTokens_of_mem_entries hf hstrm he)
        have hp := placed_applyUbatch h hf hn hnd htok
        split at hok
        · cases hok
        · rename_i d sts' success' hrest
          cases hok
          obtain ⟨hR, hiff⟩ := ih (S := sl :: S) hp.steady
            (fun v hv => (hus.2 v hv).congr hp.params) hrest
          rw [foldr_cons]
          refine ⟨hR.undo h hf hp, ?_⟩
          rw [agree_undo_iff h hf hn hnd htok hR, hiff]

lemma agree_nil_iff (h : Steady kvSize c) (hR : Restored kvSize c R) : Agree [] c R ↔ R = c := by
  constructor
  · intro hag
    have hnst : R.nStream = c.nStream := by rw [hR.params]
    have hcells : R.vCells = c.vCells := by
      refine ext_getD {} (by rw [hR.shape.cells, h.wf.shape.cells, hnst]) fun t ht => ?_
      rw [hR.shape.cells] at ht
      refine (hR.inv t).ext (h.wf.inv t) (cells_ext ?_ ?_) (hR.hasShift t)
      · exact (hR.shape.size t ht).trans (h.wf.shape.size t (hnst ▸ ht)).symm
      · exact fun i => hag.cells t i (by simp [Covered])
    have hheads : R.vHeads = c.vHeads := by
      refine ext_getD 0 (by rw [hR.shape.heads, h.wf.shape.heads, hnst]) fun t _ => ?_
      exact hag.heads t (by simp [InUse])
    have hpool := hag.pool
    have hparams := hR.params
    have hsc := hR.scInfo
    cases R
    cases c
    simp only [pool, Prod.mk.injEq] at hcells hheads hpool hparams hsc
    simp only [KvCache.mk.injEq]
    exact ⟨hparams, hheads, hcells, hsc, hpool.1, hpool.2⟩
  · rintro rfl
    exact ⟨fun _ _ _ => rfl, fun _ _ => rfl, rfl⟩

/-- The dry run leaves the cache as it was if and only if every ubatch that it places can be
    undone, whether it finds slots for all of them or fails on the way. -/
theorem prepare_eq_iff {us : List Ubatch} (h : Steady kvSize c) (hus : ∀ u ∈ us, UbatchOk c u)
    {c' : KvCache} {r : Option (List SlotInfo)} (hok : c.prepare us = .ok (c', r)) : c' = c ↔ PrepOk [] c us := by
  unfold prepare at hok
  split at hok
  · cases hok
  · rename_i d sts success hloop
    split at hok
    · cases hok
    · simp only [Except.ok.injEq, Prod.mk.injEq] at hok
      obtain ⟨rfl, _⟩ := hok
      obtain ⟨hR, hiff⟩ := restored_prepareLoop (S := []) h hus hloop
      rw [← hiff, agree_nil_iff h hR]

end Run

lemma steady_init (vTrans unified pgEnabled : Bool) (kvSize : Nat) {nSeqMax : Nat} (nSwa : Nat)
    (swaType : SwaType) (nPosPerEmbd budget : Nat) (hseq : 0 < nSeqMax) : Steady kvSize
      (init vTrans unified pgEnabled kvSize nSeqMax nSwa swaType nPosPerEmbd budget) := by
  refine ⟨⟨shape_init _ _ _ _ _ _ _ _ _ hseq, ?_, ?_⟩, ?_⟩
  · intro t
    simp only [headOf, init]
    by_cases ht : t < if unified = true then 1 else nSeqMax
    · simp [ht]
    · rw [getD_eq_default _ _ (by simpa using ht)]
      exact Nat.zero_le _
  · intro t
    simp only [cellsOf, init]
    by_cases ht : t < if unified = true then 1 else nSeqMax
    · rw [getD_eq_getElem _ _ (by simpa using ht), getElem_replicate]
      exact inv_resize _ _
    · rw [getD_eq_default _ _ (by simpa using ht)]
      exact inv_reset {}
  · intro t i
    rw [cell_init]

end KvCache

namespace DryRun

/-- One token of sequence `q` at position 0. -/
def token (q : SeqId) : Ubatch :=
  { nTokens := 1, nPos := 1, pos := [0], seqId := [[q]], seqIdUnq := [q] }

def cellZero (t : Nat) : SlotInfo := { s0 := t, s1 := t, strm := [t], idxs := [[0]] }

def fresh : KvCache := KvCache.init false false false 4 2 0 .none 1 0

/-- A token of sequence 0 has been placed: the heads are 1 and 0. -/
def oneToken : KvCache := fresh.applyUbatch (cellZero 0) (token 0)

lemma ubatchOk_token {q : SeqId} (hq : q.val < 2) : KvCache.UbatchOk fresh (token q) := by
  refine ⟨one_pos, ⟨by simp [token], ?_⟩, ?_⟩
  · intro _ r hr
    obtain rfl : r = q := by simpa [token] using hr
    exact hq
  · intro k hk
    obtain rfl : k = 0 := by simpa [token] using hk
    simp [Ubatch.TokenOk, token]

/-- A token of each of the two sequences. -/
def pair : Ubatch := { nTokens := 2, nPos := 1, pos := [0, 0], seqId := [[0], [1]], seqIdUnq := [0, 1] }

def slotPair : SlotInfo := { s0 := 0, s1 := 1, strm := [0, 1], idxs := [[0], [0]] }

/-- More tokens than a stream has cells. -/
def wide : Ubatch := { nTokens := 5, nPos := 1, pos := [1, 2, 3, 4, 5], seqId := List.replicate 5 [0], seqIdUnq := [0] }

lemma computed : fresh.findSlot pair false = .ok (some slotPair) ∧
    (fresh.applyUbatch slotPair pair).findSlot wide false = .ok none ∧
    (fresh.prepare [pair, wide]).toOption.map (·.2) = some none ∧
    fresh.findSlot (token 0) false = .ok (some (cellZero 0)) ∧ oneToken.headOf 1 = 0 ∧
    (oneToken.prepare [token 1]).toOption.map (·.1.headOf 1) = some 1 := by
  decide +kernel

end DryRun

open DryRun in
/-- The first ubatch has tokens of two streams, and the second one does not fit. -/
theorem KvCache.prepare_eq_iff_fails : fresh.prepare [pair, wide] = .ok (fresh, none) := by
  obtain ⟨hslot, hfull, hfails, _⟩ := computed
  have hok : PrepOk [] fresh [pair, wide] := by
    simp only [PrepOk, hslot, hfull, and_true]
    refine ⟨?_, ?_, nofun⟩
    · intro s hs _
      have hs : s = 0 ∨ s = 1 := by
        have : s < 2 := hs
        omega
      obtain rfl | rfl := hs <;> rfl
    · intro q i _ hq
      rw [fresh, cell_init] at hq
      cases hq
  have hpair : UbatchOk fresh pair := ⟨by decide, by unfold SeqsOk; decide +kernel, by unfold Ubatch.TokenOk; decide⟩
  have hwide : UbatchOk fresh wide := ⟨by decide, by unfold SeqsOk; decide +kernel, by unfold Ubatch.TokenOk; decide⟩
  cases hp : fresh.prepare [pair, wide] with
  | error e =>
    rw [hp] at hfails
    cases hfails
  | ok r =>
    obtain ⟨c', r⟩ := r
    rw [hp] at hfails
    cases hfails
    have hsteady : Steady 4 fresh := steady_init _ _ _ 4 _ _ _ _ (by decide)
    rw [(prepare_eq_iff hsteady (by simp [hpair, hwide]) hp).2 hok]

open DryRun in
/-- With tokens in stream 0 only, the dry run of a token of stream 1 leaves the head of stream 1 where
    the head of stream 0 is. -/
theorem KvCache.prepare_moves_head : ¬ ∀ (kvSize : Nat) (c : KvCache) (us : List Ubatch)
    (c' : KvCache) (r : Option (List SlotInfo)), Steady kvSize c → (∀ u ∈ us, UbatchOk c u) →
      c.prepare us = .ok (c', r) → c' = c := by
  intro h
  obtain ⟨_, _, _, hslot, hhead, hmoved⟩ := computed
  have hsteady : Steady 4 fresh := steady_init _ _ _ 4 _ _ _ _ (by decide)
  obtain ⟨hf, hstrm⟩ := found_of_findSlot hsteady.wf.shape hsteady.wf.head_le hslot
  have hplaced : Placed 4 (cellZero 0) fresh oneToken := by
    refine placed_applyUbatch hsteady hf (by decide) (by simp [cellZero]) ?_
    intro e he
    exact (ubatchOk_token (by decide)).token e.1 (lt_nTokens_of_mem_entries hf hstrm he)
  have hus : ∀ u ∈ [token 1], UbatchOk oneToken u := by
    intro u hu
    obtain rfl := mem_singleton.1 hu
    exact (ubatchOk_token (by decide)).congr hplaced.params
  cases hp : oneToken.prepare [token 1] with
  | error e =>
    rw [hp] at hmoved
    cases hmoved
  | ok r =>
    obtain ⟨c', r⟩ := r
    rw [hp, h 4 oneToken [token 1] c' r hplaced.steady hus hp] at hmoved
    simp only [Except.toOption, Option.map_some, Option.some.injEq] at hmoved
    omega

end Mallana
