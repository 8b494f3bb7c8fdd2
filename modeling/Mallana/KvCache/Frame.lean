import Mathlib.Algebra.Order.Group.Nat
import Mallana.KvCache.Sweep

/-!
# What the cache operations leave alone

Every operation of the cache keeps its parameters, the number of streams and the size of each cell
table: `Shape kvSize c`. The operations on cells do not touch the block pool, and freeing pages does not
touch the cells.
-/

namespace Mallana

open Lib List

namespace KvCache

/-- The contents of cell `i` of stream `t`. -/
def cell (c : KvCache) (t i : Nat) : Cell := (c.cellsOf t).cell i

def pool (c : KvCache) : List (List Int) × List Int := (c.pgPageTable, c.pgFreeBlocks)

section Reads
variable (c : KvCache) (t u h : Nat) (x : KvCells)

@[simp] lemma toKvParams_setCells : (c.setCells t x).toKvParams = c.toKvParams := rfl

@[simp] lemma toKvParams_setHead : (c.setHead t h).toKvParams = c.toKvParams := rfl

@[simp] lemma toKvParams_setPage (lp : Nat) (b : Int) : (c.setPage t lp b).toKvParams = c.toKvParams := rfl

@[simp] lemma pool_setCells : (c.setCells t x).pool = c.pool := rfl

@[simp] lemma pool_setHead : (c.setHead t h).pool = c.pool := rfl

@[simp] lemma cellsOf_setHead : (c.setHead t h).cellsOf u = c.cellsOf u := rfl

@[simp] lemma cellsOf_setPage (lp : Nat) (b : Int) : (c.setPage t lp b).cellsOf u = c.cellsOf u := rfl

@[simp] lemma headOf_setCells : (c.setCells t x).headOf u = c.headOf u := rfl

@[simp] lemma seqToStream_setCells (s : SeqId) : (c.setCells t x).seqToStream s = c.seqToStream s := rfl

lemma cellsOf_setCells : (c.setCells t x).cellsOf u = if t = u ∧ u < c.vCells.length then x else c.cellsOf u :=
  getD_modify c.vCells t u (fun _ => x) {}

lemma headOf_setHead : (c.setHead t h).headOf u = if t = u ∧ u < c.vHeads.length then h else c.headOf u :=
  getD_modify c.vHeads t u (fun _ => h) 0

lemma seqToStream_lt (hn : 0 < c.nStream) (s : SeqId) : c.seqToStream s < c.nStream := by
  unfold seqToStream
  split
  · omega
  · exact hn

lemma seqToStream_congr {c c' : KvCache} (h : c'.toKvParams = c.toKvParams) (s : SeqId) :
    c'.seqToStream s = c.seqToStream s := by
  unfold seqToStream
  rw [h]

end Reads

/-- The cache has its streams, all of them with `kvSize` cells. -/
structure Shape (kvSize : Nat) (c : KvCache) : Prop where
  streams : 0 < c.nStream
  cells : c.vCells.length = c.nStream
  heads : c.vHeads.length = c.nStream
  size : ∀ t < c.nStream, (c.cellsOf t).size = kvSize

variable {c c' : KvCache} {kvSize : Nat}

variable {t : Nat} {c'' : KvCache} {α : Type} {f : KvCache → α → KvCache} {lp : Nat}
  {p0 p1 : Int} {i j : Nat}

lemma Shape.setCells (h : Shape kvSize c) {x : KvCells}
    (hx : x.size = (c.cellsOf t).size) : Shape kvSize (c.setCells t x) := by
  refine ⟨h.streams, ?_, h.heads, ?_⟩
  · simpa [KvCache.setCells] using h.cells
  · intro u hu
    rw [cellsOf_setCells]
    split
    · rename_i e
      rw [hx, e.1]
      exact h.size u hu
    · exact h.size u hu

lemma Shape.setHead (h : Shape kvSize c) (t n : Nat) : Shape kvSize (c.setHead t n) := by
  refine ⟨h.streams, h.cells, ?_, h.size⟩
  simpa [KvCache.setHead] using h.heads

lemma Shape.congr (h : Shape kvSize c) (hp : c'.toKvParams = c.toKvParams)
    (hc : c'.vCells = c.vCells) (hh : c'.vHeads = c.vHeads) : Shape kvSize c' := by
  refine ⟨?_, ?_, ?_, ?_⟩
  · rw [hp]
    exact h.streams
  · rw [hc, hp]
    exact h.cells
  · rw [hh, hp]
    exact h.heads
  · intro t ht
    rw [cellsOf, hc]
    rw [hp] at ht
    exact h.size t ht

lemma Shape.cellsOf_setCells_self (h : Shape kvSize c) (ht : t < c.nStream) (x : KvCells) :
    (c.setCells t x).cellsOf t = x := by
  rw [cellsOf_setCells, if_pos ⟨rfl, by rw [h.cells]; exact ht⟩]

/-- An operation on the cells of the streams: parameters, shape and pool stay. -/
structure CellsOnly (c c' : KvCache) : Prop where
  params : c'.toKvParams = c.toKvParams
  pool : c'.pool = c.pool
  shape : ∀ {kvSize}, Shape kvSize c → Shape kvSize c'

lemma CellsOnly.refl (c : KvCache) : CellsOnly c c := ⟨rfl, rfl, id⟩

lemma CellsOnly.trans (h1 : CellsOnly c c') (h2 : CellsOnly c' c'') : CellsOnly c c'' :=
  ⟨h2.params.trans h1.params, h2.pool.trans h1.pool, fun h => h2.shape (h1.shape h)⟩

lemma cellsOnly_setCells (c : KvCache) {x : KvCells} (hx : x.size = (c.cellsOf t).size) :
    CellsOnly c (c.setCells t x) :=
  ⟨rfl, rfl, fun h => h.setCells hx⟩

lemma cellsOnly_setHead (c : KvCache) (t h : Nat) : CellsOnly c (c.setHead t h) :=
  ⟨rfl, rfl, fun hs => hs.setHead t h⟩

lemma cellsOnly_foldl (h : ∀ c a, CellsOnly c (f c a)) (l : List α) (c : KvCache) : CellsOnly c (l.foldl f c) :=
  List.foldlRecOn l f (CellsOnly.refl c) fun b hb a _ => hb.trans (h b a)

lemma size_sweep_of {f : KvCells → Nat → KvCells × Bool} (h : ∀ x i, (f x i).1.size = x.size)
    (x : KvCells) : (x.sweep f).1.size = x.size :=
  KvCells.sweep_induction (P := fun y => y.size = x.size) (fun y i hy => (h y i).trans hy) rfl

lemma cellsOnly_sweepStream {f : KvCells → Nat → KvCells × Bool}
    (h : ∀ x i, (f x i).1.size = x.size) (c : KvCache) (t : Nat) : CellsOnly c (c.sweepStream f t) := by
  have hset := cellsOnly_setCells c (size_sweep_of h (c.cellsOf t))
  unfold sweepStream
  simp only []
  split
  · exact hset.trans (cellsOnly_setHead _ _ _)
  · exact hset

lemma cellsOf_sweepStream (f : KvCells → Nat → KvCells × Bool) (c : KvCache) (t u : Nat) :
    (c.sweepStream f t).cellsOf u =
      if t = u ∧ u < c.vCells.length then ((c.cellsOf t).sweep f).1 else c.cellsOf u := by
  unfold sweepStream
  simp only []
  split <;> exact cellsOf_setCells c t u _

lemma size_seqRmVisit (s : SeqId) (p0 p1 : Int) (x : KvCells) (i : Nat) :
    (seqRmVisit s p0 p1 x i).1.size = x.size := by
  unfold seqRmVisit
  split <;> simp

lemma size_rmVisit (p0 p1 : Int) (x : KvCells) (i : Nat) : (rmVisit p0 p1 x i).1.size = x.size := by
  unfold rmVisit
  split <;> simp

lemma size_seqAddVisit (s : SeqId) (p0 p1 d : Int) (x : KvCells) (i : Nat) :
    (seqAddVisit s p0 p1 d x i).1.size = x.size := by
  unfold seqAddVisit
  split <;> simp

lemma size_seqDivVisit (s : SeqId) (p0 p1 d : Int) (x : KvCells) (i : Nat) :
    (seqDivVisit s p0 p1 d x i).1.size = x.size := by
  unfold seqDivVisit
  split <;> simp

def HasPage (c : KvCache) (t lp : Nat) : Prop := t < c.pgPageTable.length ∧ lp < (c.pgPageTable.getD t []).length

lemma hasPage_of_nonneg (h : 0 ≤ c.page t lp) : c.HasPage t lp := by
  constructor
  · by_contra ht
    rw [page, getD_eq_default _ _ (Nat.le_of_not_lt ht)] at h
    simp at h
  · by_contra hlp
    rw [page, getD_eq_default _ _ (Nat.le_of_not_lt hlp)] at h
    simp at h

lemma page_setPage (h : c.HasPage t lp) (b : Int) (u mp : Nat) :
    (c.setPage t lp b).page u mp = if t = u ∧ lp = mp then b else c.page u mp := by
  unfold page setPage
  simp only []
  rw [getD_modify]
  by_cases ht : t = u
  · subst ht
    rw [if_pos ⟨rfl, h.1⟩, getD_modify]
    by_cases hlp : lp = mp
    · subst hlp
      rw [if_pos ⟨rfl, h.2⟩, if_pos ⟨rfl, rfl⟩]
    · simp [hlp]
  · simp [ht]

lemma page_of_pool_eq {c' : KvCache} (h : c'.pool = c.pool) (t lp : Nat) : c'.page t lp = c.page t lp := by
  rw [page, show c'.pgPageTable = c.pgPageTable from congrArg Prod.fst h]
  rfl

@[simp] lemma page_releasePage (h : 0 ≤ c.page t lp) (u mp : Nat) :
    (c.releasePage t lp).page u mp = if t = u ∧ lp = mp then -1 else c.page u mp :=
  page_setPage (c := { c with pgFreeBlocks := _ }) (hasPage_of_nonneg h) (-1) u mp

/-- An operation on the pages: only the page table and the free blocks may change. -/
structure PagesOnly (c c' : KvCache) : Prop where
  params : c'.toKvParams = c.toKvParams
  cells : c'.vCells = c.vCells
  heads : c'.vHeads = c.vHeads
  scInfo : c'.scInfo = c.scInfo

lemma PagesOnly.refl (c : KvCache) : PagesOnly c c := ⟨rfl, rfl, rfl, rfl⟩

lemma PagesOnly.trans (h1 : PagesOnly c c') (h2 : PagesOnly c' c'') : PagesOnly c c'' :=
  ⟨h2.params.trans h1.params, h2.cells.trans h1.cells, h2.heads.trans h1.heads, h2.scInfo.trans h1.scInfo⟩

lemma PagesOnly.shape (h : PagesOnly c c') (hs : Shape kvSize c) : Shape kvSize c' :=
  hs.congr h.params h.cells h.heads

lemma PagesOnly.cellsOf (h : PagesOnly c c') (t : Nat) : c'.cellsOf t = c.cellsOf t := by
  rw [KvCache.cellsOf, h.cells]
  rfl

lemma PagesOnly.cell (h : PagesOnly c c') (t i : Nat) : c'.cell t i = c.cell t i := by
  rw [KvCache.cell, h.cellsOf]
  rfl

lemma pagesOnly_tryFreePage (c : KvCache) (t lp : Nat) : PagesOnly c (c.tryFreePage t lp) := by
  unfold tryFreePage
  split
  · exact PagesOnly.refl c
  · split
    · exact PagesOnly.refl c
    · exact ⟨rfl, rfl, rfl, rfl⟩

lemma pagesOnly_foldl (h : ∀ c a, PagesOnly c (f c a)) (l : List α) (c : KvCache) : PagesOnly c (l.foldl f c) :=
  List.foldlRecOn l f (PagesOnly.refl c) fun b hb a _ => hb.trans (h b a)

lemma pagesOnly_freePages (c : KvCache) (t : Nat) : PagesOnly c (c.freePages t) :=
  pagesOnly_foldl (fun c lp => pagesOnly_tryFreePage c t lp) _ c

/-- The operations keep the parameters and the shape. -/
structure Keeps (c c' : KvCache) : Prop where
  params : c'.toKvParams = c.toKvParams
  shape : ∀ {kvSize}, Shape kvSize c → Shape kvSize c'

lemma Keeps.refl (c : KvCache) : Keeps c c := ⟨rfl, id⟩

lemma Keeps.trans (h1 : Keeps c c') (h2 : Keeps c' c'') : Keeps c c'' :=
  ⟨h2.params.trans h1.params, fun h => h2.shape (h1.shape h)⟩

lemma CellsOnly.keeps (h : CellsOnly c c') : Keeps c c' := ⟨h.params, h.shape⟩

lemma PagesOnly.keeps (h : PagesOnly c c') : Keeps c c' := ⟨h.params, h.shape⟩

lemma keeps_foldl (h : ∀ c a, Keeps c (f c a)) (l : List α) (c : KvCache) : Keeps c (l.foldl f c) :=
  List.foldlRecOn l f (Keeps.refl c) fun b hb a _ => hb.trans (h b a)

/-- `seq_rm` without its last part, the freeing of pages. -/
def rmCells (c : KvCache) (seq : Option SeqId) (p0 p1 : Int) : KvCache :=
  match seq with
  | some s => c.sweepStream (seqRmVisit s (rangeLo p0) (rangeHi p1)) (c.seqToStream s)
  | none => (List.range c.nStream).foldl
      (fun c t => c.sweepStream (rmVisit (rangeLo p0) (rangeHi p1)) t) c

/-- The streams whose pages `seq_rm` looks at. -/
def rmStreams (c : KvCache) (seq : Option SeqId) : List Nat :=
  match seq with
  | some s => [c.seqToStream s]
  | none => List.range c.nStream

lemma cellsOnly_rmCells (c : KvCache) (seq : Option SeqId) (p0 p1 : Int) : CellsOnly c (c.rmCells seq p0 p1) := by
  cases seq with
  | some s => exact cellsOnly_sweepStream (size_seqRmVisit _ _ _) c _
  | none => exact cellsOnly_foldl (fun c t => cellsOnly_sweepStream (size_rmVisit _ _) c t) _ c

lemma seqRm_eq (c : KvCache) (seq : Option SeqId) (p0 p1 : Int) : c.seqRm seq p0 p1 = if c.pgEnabled then
      (c.rmStreams seq).foldl freePages (c.rmCells seq p0 p1) else c.rmCells seq p0 p1 := by
  have hp := (cellsOnly_rmCells c seq p0 p1).params
  cases seq with
  | some s =>
    simp only [rmCells] at hp ⊢
    simp only [seqRm, rmStreams, foldl_cons, foldl_nil, seqToStream_congr hp, hp]
  | none =>
    simp only [rmCells] at hp ⊢
    simp only [seqRm, rmStreams, hp]

lemma pagesOnly_seqRm (c : KvCache) (seq : Option SeqId) (p0 p1 : Int) :
    PagesOnly (c.rmCells seq p0 p1) (c.seqRm seq p0 p1) := by
  rw [seqRm_eq]
  split
  · exact pagesOnly_foldl pagesOnly_freePages _ _
  · exact PagesOnly.refl _

lemma scInfo_sweepStream (c : KvCache) (f : KvCells → Nat → KvCells × Bool) (t : Nat) :
    (c.sweepStream f t).scInfo = c.scInfo := by
  unfold sweepStream
  simp only []
  split <;> rfl

lemma scInfo_seqRm (c : KvCache) (seq : Option SeqId) (p0 p1 : Int) : (c.seqRm seq p0 p1).scInfo = c.scInfo := by
  refine (pagesOnly_seqRm c seq p0 p1).scInfo.trans ?_
  cases seq with
  | some q => exact scInfo_sweepStream _ _ _
  | none =>
    exact List.foldlRecOn (motive := fun b : KvCache => b.scInfo = c.scInfo) _ _ rfl
      fun b hb t _ => (scInfo_sweepStream _ _ _).trans hb

lemma keeps_seqRm (c : KvCache) (seq : Option SeqId) (p0 p1 : Int) : Keeps c (c.seqRm seq p0 p1) :=
  (cellsOnly_rmCells c seq p0 p1).keeps.trans (pagesOnly_seqRm c seq p0 p1).keeps

lemma cellsOnly_seqKeep (c : KvCache) (s : SeqId) : CellsOnly c (c.seqKeep s) :=
  cellsOnly_sweepStream (fun x i => KvCells.size_seqKeep x i s) c _

lemma cellsOnly_seqAdd {s : SeqId} {d : Int} (h : c.seqAdd s p0 p1 d = some c') : CellsOnly c c' := by
  unfold seqAdd at h
  split at h
  · cases h
  split at h
  · cases h
    exact CellsOnly.refl c
  · simp only [Option.some.injEq] at h
    subst h
    exact (cellsOnly_setCells c (size_sweep_of (size_seqAddVisit _ _ _ _) _)).trans
      (cellsOnly_setHead _ _ _)

lemma cellsOnly_seqDiv {s : SeqId} {d : Int} (h : c.seqDiv s p0 p1 d = some c') : CellsOnly c c' := by
  unfold seqDiv at h
  split at h
  · cases h
  split at h
  · cases h
    exact CellsOnly.refl c
  · simp only [Option.some.injEq] at h
    subst h
    exact cellsOnly_setCells c (size_sweep_of (size_seqDivVisit _ _ _ _) _)

lemma size_cpCell (src dst : KvCells) (s : SeqId) (i : Nat) : (cpCell src dst s i).size = dst.size := by
  unfold cpCell
  simp only []
  split <;> simp

lemma size_cpCells (src dst : KvCells) (sSrc sDst : SeqId) : (cpCells src dst sSrc sDst).size = dst.size := by
  refine List.foldlRecOn (motive := fun x : KvCells => x.size = dst.size) _ _
    (KvCells.size_reset dst) ?_
  intro x hx i _
  split
  · rw [size_cpCell, hx]
  · exact hx

lemma cell_cpCell_of_ne (src dst : KvCells) (s : SeqId) (h : i ≠ j) :
    (cpCell src dst s i).cell j = dst.cell j := by
  have hne : ¬ (i = j ∧ j < dst.size) := fun e => h e.1
  unfold cpCell
  simp only []
  rw [KvCells.cell_extSet, if_neg fun e => h e.1]
  split
  · rw [KvCells.cell_posAdd, if_neg fun e => h e.1, KvCells.cell_seqAdd, if_neg fun e => h e.1,
      KvCells.cell_posSet, if_neg hne]
  · rw [KvCells.cell_seqAdd, if_neg fun e => h e.1, KvCells.cell_posSet, if_neg hne]

lemma keeps_seqCp {src dst : SeqId} (h : c.seqCp src dst p0 p1 = some c') : Keeps c c' ∧ c'.pool = c.pool := by
  unfold seqCp at h
  simp only [] at h
  split at h
  · split at h
    · cases h
      exact ⟨Keeps.refl c, rfl⟩
    · simp only [Option.some.injEq] at h
      subst h
      refine ⟨(cellsOnly_setCells c ?_).keeps, rfl⟩
      refine List.foldlRecOn (motive := fun x : KvCells => x.size = _) _ _ rfl ?_
      intro x hx i _
      split
      · rw [KvCells.size_seqAdd, hx]
      · exact hx
  · split at h
    · cases h
    · simp only [Option.some.injEq] at h
      subst h
      refine ⟨⟨rfl, ?_⟩, rfl⟩
      intro n hs
      exact ((hs.setCells (size_cpCells _ _ _ _)).setHead _ _).congr rfl rfl rfl

lemma size_evictCell (x : KvCells) (i : Nat) (m : PosMaxRm) : (evictCell x i m).1.size = x.size := by
  unfold evictCell
  split <;> simp

lemma size_putToken (u : Ubatch) (n i : Nat) (x : KvCells) : (putToken u n i x).size = x.size := by
  unfold putToken
  simp only []
  refine List.foldlRecOn (motive := fun y : KvCells => y.size = x.size) _ _ ?_ ?_
  · split <;> simp
  · intro y hy s _
    rw [KvCells.size_seqAdd, hy]

lemma cellsOnly_applyToken (u : Ubatch) (st : KvCache × PosMaxRm) (e : Nat × Nat × Nat) :
    CellsOnly st.1 (applyToken u st e).1 :=
  cellsOnly_setCells st.1 ((size_putToken _ _ _ _).trans (size_evictCell _ _ _))

lemma cellsOnly_applyTokens (c : KvCache) (sl : SlotInfo) (u : Ubatch) : CellsOnly c (c.applyTokens sl u).1 :=
  List.foldlRecOn (motive := fun st : KvCache × PosMaxRm => CellsOnly c st.1) _ _
    (CellsOnly.refl c) fun st hst e _ => hst.trans (cellsOnly_applyToken u st e)

lemma cell_evictCell_of_ne (x : KvCells) (h : i ≠ j) (m : PosMaxRm) : (evictCell x i m).1.cell j = x.cell j := by
  unfold evictCell
  split
  · rfl
  · simp [KvCells.cell_rm, h]

lemma cell_putToken_of_ne (u : Ubatch) (n : Nat) (h : i ≠ j) (x : KvCells) :
    (putToken u n i x).cell j = x.cell j := by
  unfold putToken
  simp only []
  refine List.foldlRecOn (motive := fun y : KvCells => y.cell j = x.cell j) _ _ ?_ ?_
  · split <;> simp [KvCells.cell_extSet, KvCells.cell_posSet, h]
  · intro y hy s _
    rw [KvCells.cell_seqAdd, if_neg (by tauto), hy]

lemma cell_applyToken_of_ne (u : Ubatch) (st : KvCache × PosMaxRm) {e : Nat × Nat × Nat}
    (h : e.2 ≠ (t, j)) : (applyToken u st e).1.cell t j = st.1.cell t j := by
  unfold applyToken cell
  simp only []
  rw [cellsOf_setCells]
  split
  · rename_i ht
    have hj : e.2.2 ≠ j := fun hj => h (Prod.ext ht.1 hj)
    rw [cell_putToken_of_ne u _ hj, cell_evictCell_of_ne _ hj, ht.1]
  · rfl

lemma cell_applyTokens_of_notMem (c : KvCache) (sl : SlotInfo) (u : Ubatch)
    (h : ∀ e ∈ sl.entries, e.2 ≠ (t, j)) : (c.applyTokens sl u).1.cell t j = c.cell t j :=
  List.foldlRecOn (motive := fun st : KvCache × PosMaxRm => st.1.cell t j = c.cell t j) _ _ rfl
    fun st hst e he => (cell_applyToken_of_ne u st (h e he)).trans hst

lemma keeps_purgeSeq (m : PosMaxRm) (c : KvCache) (s : SeqId) : Keeps c (purgeSeq m c s) := by
  unfold purgeSeq
  simp only []
  split
  · exact keeps_seqRm _ _ _ _
  · exact Keeps.refl c

lemma keeps_purge (c : KvCache) (m : PosMaxRm) : Keeps c (c.purge m) :=
  keeps_foldl (keeps_purgeSeq m) _ c

lemma cellsOnly_moveHeads (c : KvCache) (sl : SlotInfo) : CellsOnly c (c.moveHeads sl) :=
  cellsOnly_foldl (fun c _ => cellsOnly_setHead c _ _) _ c

lemma vCells_moveHeads (c : KvCache) (sl : SlotInfo) : (c.moveHeads sl).vCells = c.vCells :=
  List.foldlRecOn (motive := fun b : KvCache => b.vCells = c.vCells) _ _ rfl fun _ hb _ _ => hb

lemma cell_moveHeads (c : KvCache) (sl : SlotInfo) (t i : Nat) : (c.moveHeads sl).cell t i = c.cell t i := by
  rw [cell, cellsOf, vCells_moveHeads]
  rfl

lemma scInfo_applyUbatch (c : KvCache) (sl : SlotInfo) (u : Ubatch) : (c.applyUbatch sl u).scInfo = c.scInfo := by
  have htok : (c.applyTokens sl u).1.scInfo = c.scInfo :=
    List.foldlRecOn (motive := fun st : KvCache × PosMaxRm => st.1.scInfo = c.scInfo) _ _ rfl
      fun st hst e _ => hst
  have hpurge : ((c.applyTokens sl u).1.purge (c.applyTokens sl u).2).scInfo = c.scInfo := by
    refine List.foldlRecOn (motive := fun b : KvCache => b.scInfo = c.scInfo) _ _ htok ?_
    intro b hb s _
    unfold purgeSeq
    simp only []
    split
    · exact (scInfo_seqRm _ _ _ _).trans hb
    · exact hb
  exact List.foldlRecOn (motive := fun b : KvCache => b.scInfo = c.scInfo) _ _ hpurge
    fun b hb s _ => hb

lemma keeps_applyUbatch (c : KvCache) (sl : SlotInfo) (u : Ubatch) : Keeps c (c.applyUbatch sl u) :=
  ((cellsOnly_applyTokens c sl u).keeps.trans (keeps_purge _ _)).trans
    (cellsOnly_moveHeads _ _).keeps

/-- `d` is `c` with its first `n` streams cleared. -/
structure Cleared (n : Nat) (c d : KvCache) : Prop where
  params : d.toKvParams = c.toKvParams
  scInfo : d.scInfo = c.scInfo
  cells_length : d.vCells.length = c.vCells.length
  heads_length : d.vHeads.length = c.vHeads.length
  table_length : d.pgPageTable.length = c.pgPageTable.length
  cells : ∀ t < c.vCells.length, d.cellsOf t = if t < n then (c.cellsOf t).reset else c.cellsOf t
  heads : ∀ t < c.vHeads.length, d.headOf t = if t < n then 0 else c.headOf t
  table : ∀ t, d.pgPageTable.getD t [] = if c.pgEnabled ∧ t < n then (c.pgPageTable.getD t []).map fun _ => -1
    else c.pgPageTable.getD t []

section ClearStream
variable (c : KvCache) (t : Nat)

lemma toKvParams_clearStream : (c.clearStream t).toKvParams = c.toKvParams := by
  unfold clearStream
  simp only []
  split <;> rfl

lemma scInfo_clearStream : (c.clearStream t).scInfo = c.scInfo := by
  unfold clearStream
  simp only []
  split <;> rfl

lemma vCells_clearStream : (c.clearStream t).vCells = c.vCells.modify t fun _ => (c.cellsOf t).reset := by
  unfold clearStream
  simp only []
  split <;> rfl

lemma vHeads_clearStream : (c.clearStream t).vHeads = c.vHeads.modify t fun _ => 0 := by
  unfold clearStream
  simp only []
  split <;> rfl

lemma pgPageTable_clearStream : (c.clearStream t).pgPageTable =
    if c.pgEnabled then c.pgPageTable.modify t (·.map fun _ => -1) else c.pgPageTable := by
  unfold clearStream
  simp only []
  split <;> simp_all [setHead, setCells]

end ClearStream

lemma Cleared.clearStream {n : Nat} {d : KvCache} (h : Cleared n c d) : Cleared (n + 1) c (d.clearStream n) := by
  have hlt : ∀ t, n ≠ t → (t < n + 1 ↔ t < n) := by omega
  have hen : d.pgEnabled = c.pgEnabled := congrArg KvParams.pgEnabled h.params
  refine ⟨?_, ?_, ?_, ?_, ?_, ?_, ?_, ?_⟩
  · rw [toKvParams_clearStream, h.params]
  · rw [scInfo_clearStream, h.scInfo]
  · rw [vCells_clearStream, length_modify, h.cells_length]
  · rw [vHeads_clearStream, length_modify, h.heads_length]
  · rw [pgPageTable_clearStream]
    split
    · rw [length_modify, h.table_length]
    · exact h.table_length
  · intro t ht
    have hrd : (d.clearStream n).cellsOf t =
        if n = t ∧ t < d.vCells.length then (d.cellsOf n).reset else d.cellsOf t := by
      rw [cellsOf, vCells_clearStream, getD_modify]
      rfl
    rw [hrd, h.cells_length]
    by_cases e : n = t
    · subst e
      simp [ht, h.cells n ht]
    · simpa [e, hlt t e] using h.cells t ht
  · intro t ht
    have hrd : (d.clearStream n).headOf t = if n = t ∧ t < d.vHeads.length then 0 else d.headOf t := by
      rw [headOf, vHeads_clearStream, getD_modify]
      rfl
    rw [hrd, h.heads_length]
    by_cases e : n = t
    · subst e
      simp [ht]
    · simpa [e, hlt t e] using h.heads t ht
  · intro t
    rw [pgPageTable_clearStream, hen]
    by_cases hp : c.pgEnabled = true
    · rw [if_pos hp, getD_modify, h.table_length, h.table t]
      by_cases e : n = t
      · subst e
        by_cases hn : n < c.pgPageTable.length
        · simp [hp, hn]
        · simp [hn]
      · simp [e, hlt t e]
    · rw [if_neg hp, h.table t]
      simp [hp]

lemma cleared_foldl (c : KvCache) (n : Nat) : Cleared n c ((List.range n).foldl clearStream c) := by
  induction n with
  | zero => exact ⟨rfl, rfl, rfl, rfl, rfl, by simp, by simp, by simp⟩
  | succ n ih =>
    rw [range_succ, foldl_append]
    exact ih.clearStream

lemma cleared_clear (c : KvCache) : Cleared c.nStream c c.clear := by
  have h := cleared_foldl c c.nStream
  unfold clear
  simp only []
  split
  · exact ⟨h.params, h.scInfo, h.cells_length, h.heads_length, h.table_length, h.cells, h.heads, h.table⟩
  · exact h

lemma pgFreeBlocks_clear (hp : c.pgEnabled = true) : c.clear.pgFreeBlocks = freshBlocks c.pgNBlocks := by
  have h := (cleared_foldl c c.nStream).params
  simp [clear, h, hp]

lemma cellsOf_clear (h : Shape kvSize c) (ht : t < c.nStream) : c.clear.cellsOf t = (c.cellsOf t).reset := by
  rw [(cleared_clear c).cells t (by rw [h.cells]; exact ht), if_pos ht]

lemma keeps_clear (c : KvCache) : Keeps c c.clear := by
  have hc := cleared_clear c
  refine ⟨hc.params, ?_⟩
  intro n h
  refine ⟨?_, ?_, ?_, ?_⟩
  · rw [hc.params]
    exact h.streams
  · rw [hc.cells_length, hc.params]
    exact h.cells
  · rw [hc.heads_length, hc.params]
    exact h.heads
  · intro t ht
    rw [hc.params] at ht
    rw [cellsOf_clear h ht, KvCells.size_reset]
    exact h.size t ht

lemma cell_clear (h : Shape kvSize c) (t i : Nat) : c.clear.cell t i = {} := by
  unfold cell
  by_cases ht : t < c.nStream
  · rw [cellsOf_clear h ht, KvCells.cell_reset]
  · have hlen : c.clear.vCells.length ≤ t := by
      rw [(cleared_clear c).cells_length, h.cells]
      omega
    rw [cellsOf, getD_eq_default _ _ hlen]
    rfl

section Init
variable (vTrans unified pgEnabled : Bool) (kvSize nSeqMax nSwa : Nat) (swaType : SwaType)
  (nPosPerEmbd budget : Nat)

lemma shape_init (hseq : 0 < nSeqMax) : Shape kvSize
    (init vTrans unified pgEnabled kvSize nSeqMax nSwa swaType nPosPerEmbd budget) := by
  refine ⟨?_, by simp [init], by simp [init], ?_⟩
  · cases unified <;> simp [init, hseq]
  · intro t ht
    simp only [init] at ht
    simp [cellsOf, init, ht]

lemma cell_init (t i : Nat) :
    (init vTrans unified pgEnabled kvSize nSeqMax nSwa swaType nPosPerEmbd budget).cell t i = {} := by
  simp only [cell, cellsOf, init]
  by_cases ht : t < if unified = true then 1 else nSeqMax
  · simp [ht]
  · rw [getD_eq_default _ _ (by simpa using ht)]
    rfl

end Init

end KvCache

end Mallana
