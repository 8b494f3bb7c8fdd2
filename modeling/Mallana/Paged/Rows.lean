import Mallana.Lib.Reach
import Mallana.Paged.Pool

/-!
# The rows of the V pool

The cache together with the contents of its V pool (`PagedSys`): which row a token's V value is written
to, which row attention reads for a cell, and what a stream copy moves. The ghost field `last` records
for every cell the V value that belongs there: the value last written for it, and after a stream copy the
value of the source cell.

`set_input_v_page_table` gives the kernel a page table in which a page without a block reads block 0;
`v_paged_ptr` turns a cell number into a row. `Drains` collects what removals do: cells only become
empty, and a page loses its block only when all of its cells are empty.
-/

namespace Mallana

open Lib List

/-- A cache with paging and its V pool. -/
structure PagedSys (V : Type) where
  cache : KvCache
  /-- rows of the V pool -/
  vPool : Int → V
  /-- ghost: the value that belongs to a cell -/
  last : Nat → Nat → V

namespace KvCache

/-- The page table for the kernel (C++ `set_input_v_page_table`): row `r` is for batch sequence `r`,
    clamped to the streams of the slot. -/
def setInputVPageTable (c : KvCache) (sl : SlotInfo) (nRows nLpage : Nat) : List (List Int) :=
  (List.range nRows).map fun r => (List.range nLpage).map fun lp =>
    let pblock := c.page (sl.s0 + min r (sl.s1 - sl.s0)) lp
    if 0 ≤ pblock then pblock else 0

/-- The row of the pool that the kernel reads (C++ `v_paged_ptr`). -/
def vPagedPtr (ptable : List (List Int)) (bs seq kAbs kMax : Nat) : Int :=
  (if kAbs < kMax then (ptable.getD seq []).getD (kAbs / bs) 0 else 0) * bs + (kAbs % bs : Nat)

/-- The row that attention reads for cell `i` at batch sequence `seq`, with `n_kv` cells and `n_seq`
    sequences (`build_input_v_page_table` fixes the size of the table). -/
def readRow (c : KvCache) (sl : SlotInfo) (nKv nSeq seq i : Nat) : Int :=
  vPagedPtr
    (c.setInputVPageTable sl (max (sl.s1 - sl.s0 + 1) nSeq) (pagesFor nKv c.pgBlockSize))
    c.pgBlockSize seq i nKv

variable {c c' : KvCache} {kvSize : Nat}

lemma readRow_eq (hbs : c.pgBlockSize = 32) {sl : SlotInfo} {nKv nSeq seq i t : Nat}
    (hseq : seq < max (sl.s1 - sl.s0 + 1) nSeq) (ht : sl.s0 + min seq (sl.s1 - sl.s0) = t)
    (hi : i < nKv) : c.readRow sl nKv nSeq seq i =
      if 0 ≤ c.page t (i / 32) then c.vRow t i else (i % 32 : Nat) := by
  have hlp : i / 32 < pagesFor nKv 32 := by
    unfold pagesFor
    omega
  simp only [readRow, vPagedPtr, setInputVPageTable, hbs, hi, if_true, vRow]
  simp only [getD_eq_getElem?_getD, getElem?_map, getElem?_range hseq,
    getElem?_range hlp, Option.map_some, Option.getD_some, ht]
  split <;> simp

end KvCache

namespace PagedSys

variable {V : Type}

/-- `ggml_set_rows`: token `k` goes to row `rows[k]`. -/
def setRows (rows : List Int) (vals : Nat → V) (pool : Int → V) : Int → V :=
  rows.zipIdx.foldl (fun p rk => Function.update p rk.1 (vals rk.2)) pool

def record (sl : SlotInfo) (vals : Nat → V) (last : Nat → Nat → V) : Nat → Nat → V :=
  sl.entries.foldl (fun l e => fun t i => if e.2 = (t, i) then vals e.1 else l t i) last

/-- Row `r` lies in the V view of stream `t` (C++ `v_stream[t]`). A view has `kvSize` rows, the views
    are `kvSize + 32` rows apart. -/
def InView (kvSize t : Nat) (r : Int) : Prop :=
  (t * (kvSize + 32) : Nat) ≤ r ∧ r < (t * (kvSize + 32) + kvSize : Nat)

instance (kvSize t : Nat) (r : Int) : Decidable (InView kvSize t r) :=
  inferInstanceAs (Decidable (_ ∧ _))

/-- Where the contents of row `r` come from in a copy of stream `s0` over stream `s1`. -/
def copyRow (kvSize s0 s1 : Nat) (r : Int) : Int :=
  if InView kvSize s1 r then r - (s1 * (kvSize + 32) : Nat) + (s0 * (kvSize + 32) : Nat) else r

/-- The copy of the V view of stream `s0` over that of stream `s1` (`ggml_backend_tensor_copy` in C++
    `update`). -/
def copyStream (kvSize s0 s1 : Nat) (pool : Int → V) : Int → V := fun r =>
  pool (copyRow kvSize s0 s1 r)

/-- C++ `update` with the pending stream copies. -/
def update (kvSize : Nat) (s : PagedSys V) : PagedSys V :=
  { s with
    vPool := s.cache.scInfo.foldl (fun p sd => copyStream kvSize sd.1 sd.2 p) s.vPool
    cache := { s.cache with scInfo := [] } }

end PagedSys

lemma SlotInfo.map_fst_entries (sl : SlotInfo) :
    sl.entries.map Prod.fst = List.range (sl.strm.length * sl.size) := by
  unfold entries
  generalize sl.strm.length = n
  induction n with
  | zero => simp
  | succ n ih =>
    rw [range_succ, flatMap_append, map_append, ih, Nat.succ_mul, range_add]
    congr 1
    simp [Function.comp_def]

lemma SlotInfo.zipIdx_map_entries {α : Type} (sl : SlotInfo) (f : Nat × Nat → α) :
    (sl.entries.map fun e => f e.2).zipIdx = sl.entries.map fun e => (f e.2, e.1) := by
  apply ext_getElem (by simp)
  intro k h1 h2
  simp only [length_map] at h2
  have hk : (sl.entries.map Prod.fst)[k]? = some k := by
    have hlen : k < (sl.entries.map Prod.fst).length := by simpa using h2
    rw [sl.map_fst_entries] at hlen ⊢
    exact getElem?_range (by simpa using hlen)
  simp only [getElem?_map, getElem?_eq_getElem h2, Option.map_some, Option.some.injEq] at hk
  simp [hk]

namespace KvCache

/-- Cells only become empty, and a page loses its block only when its cells are empty. -/
structure Drains (c c' : KvCache) : Prop where
  cells : ∀ t i, (c'.cell t i).pos ≠ -1 → (c.cell t i).pos ≠ -1
  pages : ∀ t lp, c'.page t lp = c.page t lp ∨ (c'.page t lp = -1 ∧ ∀ i, i / 32 = lp → (c'.cell t i).pos = -1)

variable {c c' : KvCache} {kvSize : Nat}

lemma Drains.refl (c : KvCache) : Drains c c := ⟨fun _ _ => id, fun _ _ => .inl rfl⟩

lemma Drains.trans {c'' : KvCache} (h1 : Drains c c') (h2 : Drains c' c'') : Drains c c'' := by
  refine ⟨fun t i h => h1.cells t i (h2.cells t i h), ?_⟩
  intro t lp
  obtain e2 | e2 := h2.pages t lp
  · obtain e1 | ⟨e1, he⟩ := h1.pages t lp
    · exact .inl (e2.trans e1)
    · refine .inr ⟨e2.trans e1, ?_⟩
      intro i hi
      by_contra hne
      exact h2.cells t i hne (he i hi)
  · exact .inr e2

lemma drains_foldl {α : Type} {f : KvCache → α → KvCache} (h : ∀ c a, Drains c (f c a))
    (l : List α) (c : KvCache) : Drains c (l.foldl f c) :=
  List.foldlRecOn l f (Drains.refl c) fun b hb a _ => hb.trans (h b a)

lemma drains_sweepStream {f : KvCells → Nat → KvCells × Bool} (hsize : ∀ x i, (f x i).1.size = x.size)
    (h : ∀ x i j, ((f x i).1.cell j).pos ≠ -1 → (x.cell j).pos ≠ -1) (c : KvCache) (t : Nat) :
    Drains c (c.sweepStream f t) := by
  refine ⟨?_, ?_⟩
  · intro u i
    unfold cell
    rw [cellsOf_sweepStream]
    split
    · rename_i e
      rw [e.1]
      exact KvCells.sweep_induction (P := fun y : KvCells =>
        (y.cell i).pos ≠ -1 → ((c.cellsOf u).cell i).pos ≠ -1)
        (fun y j hy hne => hy (h y j i hne)) id
    · exact id
  · intro u lp
    exact .inl (page_of_pool_eq (cellsOnly_sweepStream hsize c t).pool u lp)

lemma pos_seqRmVisit (s : SeqId) (p0 p1 : Int) (x : KvCells) (i j : Nat)
    (h : ((seqRmVisit s p0 p1 x i).1.cell j).pos ≠ -1) : (x.cell j).pos ≠ -1 := by
  unfold seqRmVisit at h
  split at h
  · rw [KvCells.cell_seqRm] at h
    split at h
    · unfold Cell.erase at h
      split at h
      · exact absurd rfl h
      · exact h
    · exact h
  · exact h

lemma pos_rmVisit (p0 p1 : Int) (x : KvCells) (i j : Nat)
    (h : ((rmVisit p0 p1 x i).1.cell j).pos ≠ -1) : (x.cell j).pos ≠ -1 := by
  unfold rmVisit at h
  split at h
  · simp only [] at h
    rw [KvCells.cell_rm] at h
    split at h
    · exact absurd rfl h
    · exact h
  · exact h

lemma drains_rmCells (c : KvCache) (seq : Option SeqId) (p0 p1 : Int) : Drains c (c.rmCells seq p0 p1) := by
  cases seq with
  | some s => exact drains_sweepStream (size_seqRmVisit _ _ _) (pos_seqRmVisit _ _ _) c _
  | none =>
    exact drains_foldl (fun c t => drains_sweepStream (size_rmVisit _ _) (pos_rmVisit _ _) c t) _ c

lemma drains_seqKeep (c : KvCache) (s : SeqId) : Drains c (c.seqKeep s) :=
  drains_sweepStream (fun x i => KvCells.size_seqKeep x i s)
    (fun x i j h => KvCells.pos_seqKeep x i j s h) c _

section
variable (h : Shape kvSize c) (hbs : c.pgBlockSize = 32)
include h hbs

lemma drains_tryFreePage (t lp : Nat) : Drains c (c.tryFreePage t lp) := by
  refine ⟨?_, ?_⟩
  · intro u i
    rw [(pagesOnly_tryFreePage c t lp).cell]
    exact id
  · intro u mp
    have hcell := (pagesOnly_tryFreePage c t lp).cell
    unfold tryFreePage at hcell ⊢
    split at hcell
    · rename_i hneg
      rw [if_pos hneg]
      exact .inl rfl
    · rename_i hneg
      rw [if_neg hneg]
      split at hcell
      · rename_i hex
        rw [if_pos hex]
        exact .inl rfl
      · rename_i hex
        rw [if_neg hex, page_releasePage (by omega)]
        split
        · rename_i e
          obtain ⟨rfl, rfl⟩ := e
          refine .inr ⟨rfl, ?_⟩
          intro i hi
          rw [hcell]
          by_contra hne
          have hsz := KvCells.lt_size_of_pos_ne hne
          have hti : t < c.nStream := by
            by_contra ht
            rw [cellsOf, getD_eq_default _ _ (by rw [h.cells]; omega)] at hsz
            simp [KvCells.size] at hsz
          rw [h.size t hti] at hsz
          apply hex
          refine ⟨i, ?_, by simpa [KvCells.isEmpty, cell] using hne⟩
          rw [mem_range', h.size 0 h.streams, hbs]
          exact ⟨i - lp * 32, by omega, by omega⟩
        · exact .inl rfl

lemma drains_freePages (t : Nat) : Drains c (c.freePages t) := by
  have hrun := List.foldlRecOn (motive := fun b : KvCache => PagesOnly c b ∧ Drains c b)
    (List.range (pagesFor (c.cellsOf 0).size c.pgBlockSize)) (fun b lp => b.tryFreePage t lp)
    ⟨PagesOnly.refl c, Drains.refl c⟩ (by
      rintro b ⟨hp, hd⟩ lp _
      refine ⟨hp.trans (pagesOnly_tryFreePage b t lp), ?_⟩
      refine hd.trans (drains_tryFreePage (hp.shape h) ?_ t lp)
      rw [hp.params]
      exact hbs)
  exact hrun.2

lemma drains_seqRm (seq : Option SeqId) (p0 p1 : Int) : Drains c (c.seqRm seq p0 p1) := by
  have hrm := drains_rmCells c seq p0 p1
  have hco := cellsOnly_rmCells c seq p0 p1
  rw [seqRm_eq]
  split
  · have hrun := List.foldlRecOn (motive := fun b : KvCache => Keeps c b ∧ Drains c b)
      (c.rmStreams seq) freePages ⟨hco.keeps, hrm⟩ (by
        rintro b ⟨hk, hd⟩ t _
        refine ⟨hk.trans (pagesOnly_freePages b t).keeps, ?_⟩
        refine hd.trans (drains_freePages (hk.shape h) ?_ t)
        rw [hk.params]
        exact hbs)
    exact hrun.2
  · exact hrm

lemma drains_purge (m : PosMaxRm) : Drains c (c.purge m) := by
  have hrun := List.foldlRecOn (motive := fun b : KvCache => Keeps c b ∧ Drains c b)
    (List.finRange llamaMaxSeq) (purgeSeq m) ⟨Keeps.refl c, Drains.refl c⟩ (by
      rintro b ⟨hk, hd⟩ s _
      refine ⟨hk.trans (keeps_purgeSeq m b s), hd.trans ?_⟩
      unfold purgeSeq
      simp only []
      split
      · apply drains_seqRm (hk.shape h)
        rw [hk.params]
        exact hbs
      · exact Drains.refl b)
  exact hrun.2

end

end KvCache

end Mallana
