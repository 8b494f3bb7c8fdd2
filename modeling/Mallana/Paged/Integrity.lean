import Mallana.Paged.Rows

/-!
# Reading back what was written

Runs of a cache with paging and its V pool. A page that TriAttention evicts keeps its cells; they read
block 0 from then on. When a later ubatch puts a token into one of the page's free cells, the page gets a
recycled block, and the cells that were still occupied read what that block held before: the V rows of
other cells. `Reuses` is the situation in which this does not happen, as a condition on the state before
the ubatch: a page of the slot that has no block holds no occupied cell outside the slot.
`RowsRun.read_own_or_zero` shows that runs in which every ubatch meets it read correctly.
-/

namespace Mallana

open Lib KvCache PagedSys List

/-- The operations on a cache and its V pool. -/
inductive RowsOp (V F : Type) where
  | clear (data : Bool)
  | seqRm (seq : Option SeqId) (p0 p1 : Int)
  | seqKeep (s : SeqId)
  /-- a copy followed by the pending `update` -/
  | seqCp (src dst : SeqId) (p0 p1 : Int)
  /-- apply a ubatch, allocate its pages and write the V values `vals` of its tokens -/
  | apply (sl : SlotInfo) (u : Ubatch) (score : Nat → Nat → F) (vals : Nat → V)

/-- The cells that a copy between streams fills get the values of their source cells. -/
def PagedSys.recordCp {V : Type} (s : PagedSys V) (src dst : SeqId) : Nat → Nat → V := fun t i =>
  if s.cache.seqToStream src ≠ s.cache.seqToStream dst ∧ t = s.cache.seqToStream dst then
    s.last (s.cache.seqToStream src) i
  else s.last t i

section Step
variable {V F : Type} (zero : V) (lt : F → F → Bool) (fmax : F) (kvSize : Nat)

/-- One operation that does not abort. `clear` zeroes block 0, or the whole pool with `data`. -/
inductive RowsStep : PagedSys V → RowsOp V F → PagedSys V → Prop where
  | clear {s data} : RowsStep s (.clear data)
    { s with
      cache := s.cache.clear
      vPool := fun r => if data ∨ 0 ≤ r ∧ r < s.cache.pgBlockSize then zero else s.vPool r }
  | seqRm {s seq p0 p1} :
    RowsStep s (.seqRm seq p0 p1) { s with cache := s.cache.seqRm seq p0 p1 }
  | seqKeep {s q} : RowsStep s (.seqKeep q) { s with cache := s.cache.seqKeep q }
  | seqCp {s c src dst p0 p1} :
    s.cache.seqCp src dst p0 p1 = some c →
    RowsStep s (.seqCp src dst p0 p1)
      (PagedSys.update kvSize { s with cache := c, last := s.recordCp src dst })
  | apply {s c sl u score vals rows} :
    s.cache.SlotOk sl →
    (s.cache.applyUbatch sl u).pgAllocForSinfo lt fmax score sl = .ok c →
    c.setInputVIdxs u.nTokens sl = some rows →
    RowsStep s (.apply sl u score vals)
      { cache := c, vPool := setRows rows vals s.vPool, last := record sl vals s.last }

def RowsInit (s : PagedSys V) : Prop :=
  ∃ unified nSeqMax nSwa swaType nPosPerEmbd budget, 0 < nSeqMax ∧
    s.cache = init false unified true kvSize nSeqMax nSwa swaType nPosPerEmbd budget ∧
    s.vPool = fun _ => zero

/-- The states of the runs whose operations all satisfy `ok` in the state before them. -/
def RowsRun (ok : PagedSys V → RowsOp V F → Prop) : PagedSys V → Prop :=
  Reach (RowsInit zero kvSize) fun s op s' => ok s op ∧ RowsStep zero lt fmax kvSize s op s'

end Step

lemma setRows_record {V : Type} {c : KvCache} {l : List (Nat × Nat × Nat)} {vals : Nat → V} {t i : Nat}
    (hinj : ∀ e ∈ l, c.vRow e.2.1 e.2.2 = c.vRow t i → e.2 = (t, i)) (pool : Int → V)
    (last : Nat → Nat → V) (h : pool (c.vRow t i) = last t i ∨ ∃ e ∈ l, e.2 = (t, i)) :
    l.foldl (fun p e => Function.update p (c.vRow e.2.1 e.2.2) (vals e.1)) pool (c.vRow t i) =
      l.foldl (fun m e => fun u j => if e.2 = (u, j) then vals e.1 else m u j) last t i := by
  induction l generalizing pool last with
  | nil =>
    obtain h | ⟨e, he, _⟩ := h
    · exact h
    · cases he
  | cons e l ih =>
    simp only [mem_cons, forall_eq_or_imp] at hinj
    refine ih hinj.2 _ _ ?_
    beta_reduce
    by_cases he : e.2 = (t, i)
    · left
      rw [if_pos he]
      have hrow : c.vRow e.2.1 e.2.2 = c.vRow t i := by rw [he]
      rw [hrow, Function.update_self]
    · rw [if_neg he, Function.update_of_ne fun hr => he (hinj.1 hr.symm)]
      obtain h | ⟨f, hf, hfe⟩ := h
      · exact .inl h
      · obtain rfl | hf := mem_cons.1 hf
        · exact absurd hfe he
        · exact .inr ⟨f, hf, hfe⟩

lemma setRows_eq {V : Type} {c : KvCache} {sl : SlotInfo} {rows : List Int}
    (h : rows = sl.entries.map fun e => c.vRow e.2.1 e.2.2) (vals : Nat → V) (pool : Int → V) :
    setRows rows vals pool = sl.entries.foldl
      (fun p e => Function.update p (c.vRow e.2.1 e.2.2) (vals e.1)) pool := by
  unfold setRows
  rw [h, sl.zipIdx_map_entries fun ti => c.vRow ti.1 ti.2, foldl_map]

lemma setRows_of_notMem {V : Type} {c : KvCache} {l : List (Nat × Nat × Nat)} {vals : Nat → V} {r : Int}
    (h : ∀ e ∈ l, c.vRow e.2.1 e.2.2 ≠ r) (pool : Int → V) :
    l.foldl (fun p e => Function.update p (c.vRow e.2.1 e.2.2) (vals e.1)) pool r = pool r := by
  refine List.foldlRecOn (motive := fun p : Int → V => p r = pool r) _ _ rfl ?_
  intro p hp e he
  rw [Function.update_of_ne (h e he).symm, hp]

section Apply
variable {F : Type} {lt : F → F → Bool} {fmax : F} {score : Nat → Nat → F} {kvSize : Nat}
  {c c' : KvCache} {sl : SlotInfo} {u : Ubatch}

/-- What applying a ubatch and allocating its pages does to cells and pages. -/
structure Applied (sl : SlotInfo) (c c' : KvCache) : Prop where
  inv : ∀ {kvSize}, PgInv kvSize c → PgInv kvSize c'
  params : c'.toKvParams = c.toKvParams
  scInfo : c'.scInfo = c.scInfo
  /-- outside the slot cells only become empty -/
  cells : ∀ t i, ¬ sl.Has t i → (c'.cell t i).pos ≠ -1 → (c.cell t i).pos ≠ -1
  /-- the pages of the slot have blocks -/
  alloc : ∀ t lp, sl.Touches t lp → 0 ≤ c'.page t lp
  /-- an occupied cell outside the slot whose page has a block: the block is the old one, or the
      page belongs to the slot and had none -/
  pages : ∀ t i, ¬ sl.Has t i → (c'.cell t i).pos ≠ -1 → 0 ≤ c'.page t (i / 32) →
    c'.page t (i / 32) = c.page t (i / 32) ∨ (sl.Touches t (i / 32) ∧ c.page t (i / 32) < 0)
  /-- without a budget no occupied cell loses its block -/
  kept : c.triattentionPageBudget = 0 → ∀ t i, ¬ sl.Has t i → (c'.cell t i).pos ≠ -1 →
    0 ≤ c.page t (i / 32) → c'.page t (i / 32) = c.page t (i / 32)

lemma drains_applyUbatch (h : Shape kvSize c) (hbs : c.pgBlockSize = 32) (sl : SlotInfo) (u : Ubatch) :
    (∀ t i, ¬ sl.Has t i → ((c.applyUbatch sl u).cell t i).pos ≠ -1 → (c.cell t i).pos ≠ -1) ∧
      ∀ t lp, (c.applyUbatch sl u).page t lp = c.page t lp ∨ ((c.applyUbatch sl u).page t lp = -1 ∧
          ∀ i, i / 32 = lp → ((c.applyUbatch sl u).cell t i).pos = -1) := by
  have htok := cellsOnly_applyTokens c sl u
  have hd := drains_purge (htok.shape h) (by rw [htok.params]; exact hbs) (c.applyTokens sl u).2
  refine ⟨?_, ?_⟩
  · intro t i hni hne
    rw [applyUbatch, cell_moveHeads] at hne
    have := hd.cells t i hne
    rwa [cell_applyTokens_of_notMem c sl u fun e he heq => hni ⟨e, he, heq⟩] at this
  · intro t lp
    rw [applyUbatch, page_of_pool_eq (cellsOnly_moveHeads _ sl).pool]
    simp only [cell_moveHeads]
    rw [← page_of_pool_eq htok.pool t lp]
    exact hd.pages t lp

lemma applied_of_ok (h : PgInv kvSize c) (hsl : c.SlotOk sl)
    (hok : (c.applyUbatch sl u).pgAllocForSinfo lt fmax score sl = .ok c') : Applied sl c c' := by
  have hk := keeps_applyUbatch c sl u
  have hin : (c.applyUbatch sl u).InStreams sl := by
    unfold InStreams
    rw [hk.params]
    exact hsl.streams
  have hres : ∀ {n}, PgInv n c → PgInv n c' ∧ PagesOnly (c.applyUbatch sl u) c' ∧
      AllocRun sl (List.range sl.strm.length) (c.applyUbatch sl u) c' := by
    intro n hn
    obtain ⟨_, herr⟩ | ⟨c1, hok1, h1, hp1, hrun⟩ :=
      (hn.applyUbatch sl u).pgAllocForSinfo lt fmax score hin
    · rw [herr] at hok
      cases hok
    · rw [hok1] at hok
      cases hok
      exact ⟨h1, hp1, hrun hsl.nodup⟩
  obtain ⟨_, hpo, hrun⟩ := hres h
  obtain ⟨hcells, hpages⟩ := drains_applyUbatch h.shape h.blockSize sl u
  have hcell := hpo.cell
  -- an occupied cell is not in a page that the purge freed
  have hold : ∀ t i, (c'.cell t i).pos ≠ -1 → (c.applyUbatch sl u).page t (i / 32) = c.page t (i / 32) := by
    intro t i hne
    rw [hcell] at hne
    obtain e | ⟨_, hempty⟩ := hpages t (i / 32)
    · exact e
    · exact absurd (hempty i rfl) hne
  refine ⟨fun hn => (hres hn).1, hpo.params.trans hk.params,
    hpo.scInfo.trans (scInfo_applyUbatch c sl u), ?_, hrun.alloc, ?_, ?_⟩
  · intro t i hni hne
    rw [hcell] at hne
    exact hcells t i hni hne
  · intro t i _ hne hp
    rw [← hold t i hne]
    by_cases ht : sl.Touches t (i / 32)
    · by_cases hneg : 0 ≤ (c.applyUbatch sl u).page t (i / 32)
      · exact .inl (hrun.inside t (i / 32) ht hneg)
      · exact .inr ⟨ht, by omega⟩
    · obtain e | e := hrun.outside t (i / 32) ht
      · exact .inl e
      · omega
  · intro hb t i _ hne hp
    rw [← hold t i hne] at hp ⊢
    exact hrun.noEvict (by rw [hk.params]; exact hb) t (i / 32) hp

end Apply

/-- No occupied cell outside the slot lies in a page of the slot that has no block. -/
def KvCache.Reuses (c : KvCache) (sl : SlotInfo) : Prop :=
  ∀ t i, sl.Touches t (i / 32) → c.page t (i / 32) < 0 → (c.cell t i).pos ≠ -1 → sl.Has t i

def RowsOp.NoCopy {V F : Type} : RowsOp V F → Prop
  | .seqCp .. => False
  | _ => True

/-- A ubatch goes into a slot that meets `Reuses`. -/
def RowsOp.Reuses {V F : Type} (s : PagedSys V) : RowsOp V F → Prop
  | .apply sl _ _ _ => s.cache.Reuses sl
  | _ => True

/-- A ubatch goes into the slot that `find_slot` returns for it. -/
def RowsOp.Found {V F : Type} (s : PagedSys V) : RowsOp V F → Prop
  | .apply sl u _ _ => s.cache.findSlot u false = .ok (some sl)
  | _ => True

/-- Attention reads, for every occupied cell, the value of the cell or a zero row of block 0. -/
def PagedSys.ReadsOwn {V : Type} (zero : V) (s : PagedSys V) : Prop :=
  ∀ (sl : SlotInfo) (nKv nSeq seq i t : Nat), seq < max (sl.s1 - sl.s0 + 1) nSeq →
    sl.s0 + min seq (sl.s1 - sl.s0) = t → i < nKv → (s.cache.cell t i).pos ≠ -1 →
    s.vPool (s.cache.readRow sl nKv nSeq seq i) = s.last t i ∨
      (0 ≤ s.cache.readRow sl nKv nSeq seq i ∧ s.cache.readRow sl nKv nSeq seq i < 32 ∧
        s.vPool (s.cache.readRow sl nKv nSeq seq i) = zero)

/-- The invariant of the pool contents. -/
structure RowsInv {V : Type} (zero : V) (kvSize : Nat) (s : PagedSys V) : Prop where
  pool : PgInv kvSize s.cache
  zeroBlock : ∀ r, 0 ≤ r → r < 32 → s.vPool r = zero
  own : ∀ t i, (s.cache.cell t i).pos ≠ -1 → 0 ≤ s.cache.page t (i / 32) → s.vPool (s.cache.vRow t i) = s.last t i

section Runs
variable {V F : Type} {zero : V} {lt : F → F → Bool} {fmax : F} {kvSize : Nat} {s s' : PagedSys V}

section
variable (h : RowsInv zero kvSize s)
include h

lemma RowsInv.readsOwn : s.ReadsOwn zero := by
  intro sl nKv nSeq seq i t hseq ht hi hne
  rw [readRow_eq h.pool.blockSize hseq ht hi]
  split
  · rename_i hp
    exact .inl (h.own t i hne hp)
  · right
    have hlt : ((i % 32 : Nat) : Int) < 32 := by omega
    exact ⟨Int.natCast_nonneg _, hlt, h.zeroBlock _ (Int.natCast_nonneg _) hlt⟩

lemma RowsInv.drains {c : KvCache} (hinv : PgInv kvSize c)
    (hp : c.toKvParams = s.cache.toKvParams) (hd : Drains s.cache c) :
    RowsInv zero kvSize { s with cache := c } := by
  refine ⟨hinv, h.zeroBlock, ?_⟩
  intro t i hne hpage
  obtain e | ⟨_, hempty⟩ := hd.pages t (i / 32)
  · have hrow : c.vRow t i = s.cache.vRow t i := by
      simp only [vRow, hp, h.pool.blockSize, e]
    rw [hrow]
    exact h.own t i (hd.cells t i hne) (by rw [← e]; exact hpage)
  · exact absurd (hempty i rfl) hne

lemma RowsInv.apply {c : KvCache} {sl : SlotInfo} {rows : List Int} {nTokens : Nat} {vals : Nat → V} (ha : Applied sl s.cache c)
    (hre : s.cache.Reuses sl) (hrows : c.setInputVIdxs nTokens sl = some rows) : RowsInv zero kvSize
      { cache := c, vPool := setRows rows vals s.vPool, last := record sl vals s.last } := by
  have hinv := ha.inv h.pool
  obtain ⟨hrows, hall⟩ := setInputVIdxs_some hrows
  rw [hinv.blockSize] at hall
  refine ⟨hinv, ?_, ?_⟩
  · intro r h0 h32
    simp only []
    rw [setRows_eq hrows, setRows_of_notMem]
    · exact h.zeroBlock r h0 h32
    · intro e he heq
      have := (hinv.vRow_bounds (hall e he)).1
      omega
  · intro t i hne hp
    simp only [] at hne hp ⊢
    rw [setRows_eq hrows]
    refine setRows_record ?_ s.vPool s.last ?_
    · intro e he heq
      obtain ⟨h1, h2⟩ := hinv.vRow_inj (hall e he) heq
      exact Prod.ext h1 h2
    · by_cases hin : sl.Has t i
      · exact .inr hin
      · left
        have hne0 := ha.cells t i hin hne
        obtain e | ⟨ht, hneg⟩ := ha.pages t i hin hne hp
        · have hrow : c.vRow t i = s.cache.vRow t i := by
            simp only [vRow, ha.params, h.pool.blockSize, e]
          rw [hrow]
          exact h.own t i hne0 (by rw [← e]; exact hp)
        · exact absurd (hre t i ht hneg hne0) hin

lemma RowsInv.step {op : RowsOp V F}
    (st : RowsStep zero lt fmax kvSize s op s') (hnc : op.NoCopy) (hre : op.Reuses s) :
    RowsInv zero kvSize s' := by
  cases st with
  | clear =>
    refine ⟨h.pool.clear, ?_, ?_⟩
    · intro r h0 h32
      simp [h.pool.blockSize, h0, h32]
    · intro t i hne
      exact absurd (by rw [cell_clear h.pool.shape]) hne
  | seqRm =>
    exact h.drains (h.pool.seqRm _ _ _) (keeps_seqRm _ _ _ _).params
      (drains_seqRm h.pool.shape h.pool.blockSize _ _ _)
  | seqKeep =>
    exact h.drains (h.pool.cellsOnly (cellsOnly_seqKeep _ _)) (cellsOnly_seqKeep _ _).params
      (drains_seqKeep _ _)
  | seqCp => exact hnc.elim
  | apply hsl hok hrows => exact h.apply (applied_of_ok h.pool hsl hok) hre hrows

end

lemma rowsInv_init (h : RowsInit zero kvSize s) : RowsInv zero kvSize s := by
  obtain ⟨unified, nSeqMax, nSwa, swaType, nPosPerEmbd, budget, hseq, hc, hv⟩ := h
  refine ⟨?_, ?_, ?_⟩
  · rw [hc]
    exact pgInv_init _ _ _ _ _ _ _ hseq
  · intro r _ _
    rw [hv]
  · intro t i hne
    rw [hc, cell_init] at hne
    exact absurd rfl hne

/-- In every run of ubatches, removals and `clear` in which no ubatch gives a block to a page that
    still holds occupied cells of earlier ubatches, attention reads for every occupied cell the V
    value last written for it, or a zero row of block 0. -/
theorem RowsRun.read_own_or_zero (run : RowsRun zero lt fmax kvSize (fun s op => op.NoCopy ∧ op.Reuses s) s) :
    s.ReadsOwn zero := by
  suffices h : RowsInv zero kvSize s from h.readsOwn
  apply Reach.invariant run
  · exact fun _ => rowsInv_init
  · rintro a op b ha ⟨⟨hnc, hre⟩, st⟩
    exact ha.step st hnc hre

end Runs

namespace Evicted

/-- The runs with slots from `find_slot`. -/
abbrev Run : PagedSys Nat → Prop :=
  RowsRun 0 (fun a b : Nat => decide (a < b)) 1 256 fun s op => op.NoCopy ∧ op.Found s

/-- The system after placing tokens with the V values `vals`. -/
def place (s : PagedSys Nat) (i p n : Nat) (rows : List Int) (vals : Nat → Nat) : PagedSys Nat where
  cache := s.cache.place i p n
  vPool := setRows rows vals s.vPool
  last := record (.cellsFrom i n) vals s.last

/-- `find_slot` returns the cells from `i` on, the pages can be allocated, and `rows` are the rows. -/
abbrev Fits (c : KvCache) (i p n : Nat) (rows : List Int) : Prop :=
  0 < c.nStream ∧ c.findSlot (.tokens p n) false = .ok (some (.cellsFrom i n)) ∧
    ((c.applyUbatch (.cellsFrom i n) (.tokens p n)).pgAllocForSinfo
      (fun a b : Nat => decide (a < b)) 1 (fun _ _ => 0) (.cellsFrom i n)).isOk = true ∧
    (c.place i p n).setInputVIdxs n (.cellsFrom i n) = some rows

lemma step_place {s : PagedSys Nat} {i p n : Nat} {rows : List Int}
    (h : Fits s.cache i p n rows) (vals : Nat → Nat) : RowsStep 0 (fun a b : Nat => decide (a < b)) 1 256 s
      (.apply (.cellsFrom i n) (.tokens p n) (fun _ _ => 0) vals) (place s i p n rows vals) := by
  obtain ⟨hn, _, hok, hrows⟩ := h
  exact .apply (slotOk_cellsFrom hn) (eq_ok_of_isOk hok s.cache) hrows

lemma run_place {s : PagedSys Nat} (run : Run s) {i p n : Nat} {rows : List Int}
    (h : Fits s.cache i p n rows) (vals : Nat → Nat) : Run (place s i p n rows vals) :=
  .step run ⟨by exact ⟨trivial, h.2.1⟩, step_place h vals⟩

def sys0 : PagedSys Nat := ⟨init false true true 256 1 0 .none 1 1, fun _ => 0, fun _ _ => 0⟩

/-- 32 tokens fill page 0; the V value of token `k` is `k + 1`. -/
def sys1 : PagedSys Nat := place sys0 0 0 32 ((List.range' 32 32).map fun k => (k : Int)) (· + 1)

/-- One more token in cell 32: page 0 is evicted and page 1 gets its block. -/
def sys2 : PagedSys Nat := place sys1 32 32 1 [32] fun _ => 100

def sys3 : PagedSys Nat := { sys2 with cache := sys2.cache.seqRm (some 0) 5 6 }

/-- A token in cell 5: page 1 is evicted and page 0 gets the block with the row of cell 32. -/
def sys4 : PagedSys Nat := place sys3 5 33 1 [37] fun _ => 200

lemma computed : Fits sys0.cache 0 0 32 ((List.range' 32 32).map fun k => (k : Int)) ∧
    Fits sys1.cache 32 32 1 [32] ∧ Fits sys3.cache 5 33 1 [37] ∧ sys2.cache.page 0 0 = -1 ∧
    (sys2.cache.cell 0 0).pos = 0 ∧ (∀ i ∈ List.range' 32 32, (sys1.cache.cell 0 i).pos = -1) ∧
    (sys4.cache.cell 0 0).pos = 0 ∧ sys4.cache.readRow (.cellsFrom 0 1) 256 1 0 0 = 32 := by
  decide +kernel

lemma run_sys4 : Run sys4 := by
  obtain ⟨h0, h1, h3, _⟩ := computed
  have run0 : Run sys0 := .init ⟨true, 1, 0, .none, 1, 1, by decide, rfl, rfl⟩
  have run1 : Run sys1 := run_place run0 h0 _
  have run2 : Run sys2 := run_place run1 h1 _
  have hst : RowsStep 0 (fun a b : Nat => decide (a < b)) 1 256 sys2 (.seqRm (some 0) 5 6) sys3 :=
    .seqRm
  have run3 : Run sys3 := .step run2 ⟨by exact ⟨trivial, trivial⟩, hst⟩
  exact run_place run3 h3 _

end Evicted

/-- The first two ubatches of the run meet the condition; the second evicts page 0, whose cells then read zeros. -/
theorem RowsRun.read_own_or_zero_evicted :
    Evicted.sys2.cache.page 0 0 = -1 ∧ (Evicted.sys2.cache.cell 0 0).pos = 0 ∧ Evicted.sys2.ReadsOwn 0 := by
  obtain ⟨h0, h1, _, hpage, hpos, hfree, _⟩ := Evicted.computed
  have run0 : RowsRun 0 (fun a b : Nat => decide (a < b)) 1 256
      (fun s op => op.NoCopy ∧ op.Reuses s) Evicted.sys0 :=
    .init ⟨true, 1, 0, .none, 1, 1, by decide, rfl, rfl⟩
  have hre : Evicted.sys0.cache.Reuses (.cellsFrom 0 32) := by
    intro t i _ _ hne
    exact absurd (by rw [Evicted.sys0, cell_init]) hne
  have hre' : Evicted.sys1.cache.Reuses (.cellsFrom 32 1) := by
    rintro t i ⟨s, hs, rfl, hi⟩ _ hne
    obtain rfl : s = 0 := by simpa [SlotInfo.cellsFrom] using hs
    refine absurd (hfree i ?_) hne
    have hi : i / 32 = 1 := by simpa [SlotInfo.cellsFrom] using hi
    rw [List.mem_range'_1]
    omega
  have run1 := run0.step ⟨by exact ⟨trivial, hre⟩, Evicted.step_place h0 fun k => k + 1⟩
  have run2 := run1.step ⟨by exact ⟨trivial, hre'⟩, Evicted.step_place h1 fun _ => 100⟩
  exact ⟨hpage, hpos, RowsRun.read_own_or_zero run2⟩

/-- Runs with slots from `find_slot` can read the V row of another cell: cell 0 reads the row written
    for cell 32. -/
theorem RowsRun.reads_recycled_block : ¬ ∀ s : PagedSys Nat, RowsRun 0 (fun a b : Nat => decide (a < b)) 1 256
      (fun s op => op.NoCopy ∧ op.Found s) s → s.ReadsOwn 0 := by
  intro h
  obtain ⟨_, _, _, _, _, _, hpos, hrow⟩ := Evicted.computed
  have hread := h _ Evicted.run_sys4 (.cellsFrom 0 1) 256 1 0 0 0 (by decide) (by decide) (by decide)
    (by rw [hpos]; decide)
  rw [hrow] at hread
  revert hread
  decide

end Mallana
