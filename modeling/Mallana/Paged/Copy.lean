import Mallana.Paged.Integrity

/-!
# Copies between streams with paging

`seq_cp` between streams fills the cell table of the destination and queues a copy of the stream
buffers; `update` then copies the V view of the source stream over that of the destination, row by row.
Neither of them looks at the page table: the destination gets no pages, and the rows of a paged stream
are anywhere in the pool. `CopyAligned` says for which page tables the linear copy is right nevertheless:
the pages of the copied cells have blocks in the destination view, at the distance of the two views from
the blocks of the source pages, and no other stream uses a block of that view (`CopyAligned.copyRow_eq`).

`RowsRun.copied_reads_source` shows that runs in which every copy meets it read every occupied cell
correctly.
-/

namespace Mallana

open Lib KvCache PagedSys

namespace KvCache

lemma pos_cpCell {src dst : KvCells} {s : SeqId} {i : Nat}
    (h : ((cpCell src dst s i).cell i).pos ≠ -1) : (src.cell i).pos ≠ -1 := by
  by_cases hlt : i < dst.size
  · unfold cpCell at h
    simp only [KvCells.getShift, KvCells.posGet] at h
    by_cases hs : (src.cell i).shift = 0
    · simp only [hs, ne_eq, not_true_eq_false, if_false] at h
      simpa [KvCells.cell_extSet, KvCells.cell_seqAdd, KvCells.cell_posSet, hlt] using h
    · simp only [hs, ne_eq, not_false_eq_true, if_true] at h
      intro e
      simp [KvCells.cell_extSet, KvCells.cell_posAdd, KvCells.cell_seqAdd, KvCells.cell_posSet, hlt, e] at h
  · have hsize : (cpCell src dst s i).size ≤ i := by
      rw [size_cpCell]
      exact Nat.le_of_not_lt hlt
    rw [KvCells.cell_of_size_le hsize] at h
    exact absurd rfl h

lemma pos_cpCells {src dst : KvCells} {sSrc sDst : SeqId} {j : Nat}
    (h : ((cpCells src dst sSrc sDst).cell j).pos ≠ -1) : sSrc ∈ (src.cell j).seq ∧ (src.cell j).pos ≠ -1 := by
  revert h
  refine List.foldlRecOn (motive := fun x : KvCells => (x.cell j).pos ≠ -1 →
    sSrc ∈ (src.cell j).seq ∧ (src.cell j).pos ≠ -1) _ _ ?_ ?_
  · intro h
    rw [KvCells.cell_reset] at h
    exact absurd rfl h
  · intro x hx i _ h
    split at h
    · rename_i hs
      by_cases hij : i = j
      · subst hij
        exact ⟨by simpa [KvCells.seqHas] using hs, pos_cpCell h⟩
      · rw [cell_cpCell_of_ne _ _ _ hij] at h
        exact hx h
    · exact hx h

/-- The two cases of `seq_cp`: within a stream no position changes; between streams the destination
    holds copies of occupied cells and the copy is queued. -/
structure CopiedWithin (c c' : KvCache) : Prop where
  keeps : Keeps c c'
  pool : c'.pool = c.pool
  scInfo : c'.scInfo = c.scInfo
  pos : ∀ t i, (c'.cell t i).pos = (c.cell t i).pos

structure CopiedAcross (src dst : SeqId) (c c' : KvCache) : Prop where
  keeps : Keeps c c'
  pool : c'.pool = c.pool
  scInfo : c'.scInfo = c.scInfo ++ [(c.seqToStream src, c.seqToStream dst)]
  other : ∀ t i, t ≠ c.seqToStream dst → c'.cell t i = c.cell t i
  copied : ∀ i, (c'.cell (c.seqToStream dst) i).pos ≠ -1 →
    src ∈ (c.cell (c.seqToStream src) i).seq ∧ (c.cell (c.seqToStream src) i).pos ≠ -1

variable {c c' : KvCache} {src dst : SeqId} {p0 p1 : Int}

lemma copiedWithin_of_eq (h : c.seqCp src dst p0 p1 = some c')
    (e : c.seqToStream src = c.seqToStream dst) : CopiedWithin c c' := by
  obtain ⟨hk, hp⟩ := keeps_seqCp h
  unfold seqCp at h
  simp only [] at h
  rw [if_pos e] at h
  split at h
  · cases h
    exact ⟨hk, hp, rfl, fun _ _ => rfl⟩
  · simp only [Option.some.injEq] at h
    subst h
    refine ⟨hk, hp, rfl, ?_⟩
    intro t i
    unfold cell
    rw [cellsOf_setCells]
    split
    · rename_i ht
      rw [← ht.1]
      refine List.foldlRecOn (motive := fun x : KvCells => (x.cell i).pos = _) _ _ rfl ?_
      intro x hx j _
      split
      · rw [KvCells.cell_seqAdd]
        split <;> exact hx
      · exact hx
    · rfl

lemma copiedAcross_of_ne (h : c.seqCp src dst p0 p1 = some c')
    (e : c.seqToStream src ≠ c.seqToStream dst) : CopiedAcross src dst c c' := by
  obtain ⟨hk, hp⟩ := keeps_seqCp h
  unfold seqCp at h
  simp only [] at h
  rw [if_neg e] at h
  split at h
  · cases h
  · simp only [Option.some.injEq] at h
    subst h
    refine ⟨hk, hp, rfl, ?_, ?_⟩
    · intro t i ht
      refine congrArg (KvCells.cell · i) ((cellsOf_setCells c _ t _).trans ?_)
      rw [if_neg fun e => ht e.1.symm]
    · intro i hi
      have hread := cellsOf_setCells c (c.seqToStream dst) (c.seqToStream dst)
        (cpCells (c.cellsOf (c.seqToStream src)) (c.cellsOf (c.seqToStream dst)) src dst)
      by_cases hlen : c.seqToStream dst < c.vCells.length
      · rw [if_pos ⟨rfl, hlen⟩] at hread
        apply pos_cpCells
        rw [← hread]
        exact hi
      · rw [if_neg fun e => hlen e.2] at hread
        have hnone : c.cellsOf (c.seqToStream dst) = {} :=
          List.getD_eq_default _ _ (Nat.le_of_not_lt hlen)
        refine absurd ?_ hi
        exact congrArg (fun x : KvCells => (x.cell i).pos) (hread.trans hnone)

end KvCache

/-- The blocks of the page table lie as the linear copy of the stream views needs it: the destination page of
    every copied cell has a block, in the destination view and as far from the block of the source page as the
    views are from each other, and no occupied cell of another stream has its row in the destination view. -/
structure KvCache.CopyAligned (kvSize : Nat) (c : KvCache) (src dst : SeqId) : Prop where
  pages : ∀ i, src ∈ (c.cell (c.seqToStream src) i).seq → 0 ≤ c.page (c.seqToStream dst) (i / 32)
  distance : ∀ i, src ∈ (c.cell (c.seqToStream src) i).seq →
    32 * (c.page (c.seqToStream dst) (i / 32) - c.page (c.seqToStream src) (i / 32)) =
      ((c.seqToStream dst : Int) - c.seqToStream src) * (kvSize + 32)
  view : ∀ i, src ∈ (c.cell (c.seqToStream src) i).seq → InView kvSize (c.seqToStream dst) (c.vRow (c.seqToStream dst) i)
  others : ∀ t i, t ≠ c.seqToStream dst → (c.cell t i).pos ≠ -1 → ¬ InView kvSize (c.seqToStream dst) (c.vRow t i)

/-- With such blocks the copy fills the row of a copied cell from the row of its source cell. -/
lemma KvCache.CopyAligned.copyRow_eq {kvSize : Nat} {c : KvCache} {src dst : SeqId} {i : Nat}
    (h : c.CopyAligned kvSize src dst) (hbs : c.pgBlockSize = 32) (hi : src ∈ (c.cell (c.seqToStream src) i).seq) :
    copyRow kvSize (c.seqToStream src) (c.seqToStream dst) (c.vRow (c.seqToStream dst) i) =
      c.vRow (c.seqToStream src) i := by
  have hdistance := h.distance i hi
  rw [copyRow, if_pos (h.view i hi), vRow, vRow, hbs]
  rw [Int.sub_mul] at hdistance
  push_cast
  omega

def RowsOp.CopyAligned {V F : Type} (kvSize : Nat) (s : PagedSys V) : RowsOp V F → Prop
  | .seqCp src dst _ _ =>
    s.cache.seqToStream src ≠ s.cache.seqToStream dst → s.cache.CopyAligned kvSize src dst
  | _ => True

/-- Every occupied cell has a page with a block and reads its own value. -/
def PagedSys.LiveRead {V : Type} (s : PagedSys V) : Prop :=
  ∀ t i, (s.cache.cell t i).pos ≠ -1 → 0 ≤ s.cache.page t (i / 32) ∧ s.vPool (s.cache.vRow t i) = s.last t i

/-- The invariant of the runs without eviction. -/
structure CopyInv {V : Type} (kvSize : Nat) (s : PagedSys V) : Prop where
  pool : PgInv kvSize s.cache
  scInfo : s.cache.scInfo = []
  live : s.LiveRead

section Runs
variable {V F : Type} {zero : V} {lt : F → F → Bool} {fmax : F} {kvSize : Nat} {s s' : PagedSys V}

section
variable (h : CopyInv kvSize s)
include h

lemma CopyInv.drains {c : KvCache} (hinv : PgInv kvSize c)
    (hp : c.toKvParams = s.cache.toKvParams) (hsc : c.scInfo = s.cache.scInfo)
    (hd : Drains s.cache c) : CopyInv kvSize { s with cache := c } := by
  refine ⟨hinv, hsc.trans h.scInfo, ?_⟩
  intro t i hne
  obtain e | ⟨_, hempty⟩ := hd.pages t (i / 32)
  · obtain ⟨hpage, hval⟩ := h.live t i (hd.cells t i hne)
    have hrow : c.vRow t i = s.cache.vRow t i := by
      simp only [vRow, hp, h.pool.blockSize, e]
    exact ⟨by rw [e]; exact hpage, by rw [hrow]; exact hval⟩
  · exact absurd (hempty i rfl) hne

lemma CopyInv.apply {c : KvCache} {sl : SlotInfo} {rows : List Int} {nTokens : Nat} {vals : Nat → V} (hb : s.cache.triattentionPageBudget = 0) (hsl : s.cache.SlotOk sl)
    (ha : Applied sl s.cache c) (hrows : c.setInputVIdxs nTokens sl = some rows) : CopyInv kvSize
      { cache := c, vPool := setRows rows vals s.vPool, last := record sl vals s.last } := by
  have hinv := ha.inv h.pool
  obtain ⟨hrows, hall⟩ := setInputVIdxs_some hrows
  rw [hinv.blockSize] at hall
  refine ⟨hinv, ha.scInfo.trans h.scInfo, ?_⟩
  intro t i hne
  simp only [] at hne ⊢
  have hval : 0 ≤ c.page t (i / 32) ∧ (s.vPool (c.vRow t i) = s.last t i ∨ sl.Has t i) := by
    by_cases hin : sl.Has t i
    · exact ⟨ha.alloc t (i / 32) (hsl.touches hin), .inr hin⟩
    · obtain ⟨hpage, hval⟩ := h.live t i (ha.cells t i hin hne)
      have e := ha.kept hb t i hin hne hpage
      have hrow : c.vRow t i = s.cache.vRow t i := by
        simp only [vRow, ha.params, h.pool.blockSize, e]
      exact ⟨by rw [e]; exact hpage, .inl (by rw [hrow]; exact hval)⟩
  refine ⟨hval.1, ?_⟩
  rw [setRows_eq hrows]
  refine setRows_record ?_ s.vPool s.last hval.2
  intro e he heq
  obtain ⟨h1, h2⟩ := hinv.vRow_inj (hall e he) heq
  exact Prod.ext h1 h2

lemma CopyInv.seqCp_within {c : KvCache} {src dst : SeqId} {p0 p1 : Int}
    (hok : s.cache.seqCp src dst p0 p1 = some c)
    (e : s.cache.seqToStream src = s.cache.seqToStream dst) : CopyInv kvSize
      (PagedSys.update kvSize { s with cache := c, last := s.recordCp src dst }) := by
  have hc := copiedWithin_of_eq hok e
  have hinv := h.pool.congr hc.keeps hc.pool
  have hsc : c.scInfo = [] := hc.scInfo.trans h.scInfo
  refine ⟨hinv.congr ⟨rfl, fun hs => hs.congr rfl rfl rfl⟩ rfl, rfl, ?_⟩
  intro t i hne
  have hne' : (c.cell t i).pos ≠ -1 := hne
  rw [hc.pos] at hne'
  obtain ⟨hpage, hval⟩ := h.live t i hne'
  have epage := page_of_pool_eq hc.pool t (i / 32)
  have hrow : c.vRow t i = s.cache.vRow t i := by
    simp only [vRow, hc.keeps.params, h.pool.blockSize, epage]
  refine ⟨by rw [← epage] at hpage; exact hpage, ?_⟩
  simp only [PagedSys.update, hsc, List.foldl_nil, PagedSys.recordCp, e, ne_eq, not_true_eq_false,
    false_and, if_false]
  exact (congrArg s.vPool hrow).trans hval

lemma CopyInv.seqCp_across {c : KvCache} {src dst : SeqId} {p0 p1 : Int}
    (hok : s.cache.seqCp src dst p0 p1 = some c) (e : s.cache.seqToStream src ≠ s.cache.seqToStream dst)
    (hal : s.cache.CopyAligned kvSize src dst) : CopyInv kvSize
      (PagedSys.update kvSize { s with cache := c, last := s.recordCp src dst }) := by
  have hc := copiedAcross_of_ne hok e
  have hinv := h.pool.congr hc.keeps hc.pool
  have hsc : c.scInfo = [(s.cache.seqToStream src, s.cache.seqToStream dst)] := by
    rw [hc.scInfo, h.scInfo]
    rfl
  refine ⟨hinv.congr ⟨rfl, fun hs => hs.congr rfl rfl rfl⟩ rfl, rfl, ?_⟩
  intro t i hne
  have hne' : (c.cell t i).pos ≠ -1 := hne
  have epage := page_of_pool_eq hc.pool t (i / 32)
  have hrow : c.vRow t i = s.cache.vRow t i := by
    simp only [vRow, hc.keeps.params, h.pool.blockSize, epage]
  have hgoal : 0 ≤ s.cache.page t (i / 32) ∧
      s.vPool (copyRow kvSize (s.cache.seqToStream src) (s.cache.seqToStream dst)
        (s.cache.vRow t i)) = s.recordCp src dst t i := by
    by_cases ht : t = s.cache.seqToStream dst
    · subst ht
      obtain ⟨hseq, hpos⟩ := hc.copied i hne'
      refine ⟨hal.pages i hseq, ?_⟩
      rw [hal.copyRow_eq h.pool.blockSize hseq, PagedSys.recordCp, if_pos ⟨e, rfl⟩]
      exact (h.live _ i hpos).2
    · rw [hc.other t i ht] at hne'
      obtain ⟨hpage, hval⟩ := h.live t i hne'
      refine ⟨hpage, ?_⟩
      rw [copyRow, if_neg (hal.others t i ht hne'), PagedSys.recordCp, if_neg fun hh => ht hh.2]
      exact hval
  refine ⟨by rw [← epage] at hgoal; exact hgoal.1, ?_⟩
  simp only [PagedSys.update, hsc, List.foldl_cons, List.foldl_nil, PagedSys.copyStream]
  rw [← hgoal.2, ← hrow]
  rfl

lemma CopyInv.step {op : RowsOp V F}
    (st : RowsStep zero lt fmax kvSize s op s') (hb : s.cache.triattentionPageBudget = 0)
    (hal : op.CopyAligned kvSize s) : CopyInv kvSize s' := by
  cases st with
  | clear =>
    refine ⟨h.pool.clear, (cleared_clear _).scInfo.trans h.scInfo, ?_⟩
    intro t i hne
    exact absurd (by rw [cell_clear h.pool.shape]) hne
  | @seqRm seq p0 p1 =>
    exact h.drains (h.pool.seqRm _ _ _) (keeps_seqRm _ _ _ _).params
      (scInfo_seqRm _ _ _ _)
      (drains_seqRm h.pool.shape h.pool.blockSize _ _ _)
  | seqKeep =>
    exact h.drains (h.pool.cellsOnly (cellsOnly_seqKeep _ _)) (cellsOnly_seqKeep _ _).params
      (scInfo_sweepStream _ _ _) (drains_seqKeep _ _)
  | @seqCp c src dst p0 p1 hok =>
    by_cases e : s.cache.seqToStream src = s.cache.seqToStream dst
    · exact h.seqCp_within hok e
    · exact h.seqCp_across hok e (hal e)
  | apply hsl hok hrows => exact h.apply hb hsl (applied_of_ok h.pool hsl hok) hrows

end

lemma copyInv_init (h : RowsInit zero kvSize s) : CopyInv kvSize s := by
  obtain ⟨unified, nSeqMax, nSwa, swaType, nPosPerEmbd, budget, hseq, hc, _⟩ := h
  refine ⟨?_, ?_, ?_⟩
  · rw [hc]
    exact pgInv_init _ _ _ _ _ _ _ hseq
  · rw [hc]
    rfl
  · intro t i hne
    rw [hc, cell_init] at hne
    exact absurd rfl hne

/-- In every run without eviction in which every copy between streams is aligned, every occupied cell
    has a page and reads its value; and after a copy between streams every cell of the destination
    reads what its source cell reads. -/
theorem RowsRun.copied_reads_source (run : RowsRun zero lt fmax kvSize
      (fun s op => s.cache.triattentionPageBudget = 0 ∧ op.CopyAligned kvSize s) s) : s.LiveRead ∧
      ∀ src dst p0 p1 s', s.cache.triattentionPageBudget = 0 →
        s.cache.seqToStream src ≠ s.cache.seqToStream dst → s.cache.CopyAligned kvSize src dst →
        RowsStep zero lt fmax kvSize s (.seqCp src dst p0 p1) s' →
        ∀ i, (s'.cache.cell (s.cache.seqToStream dst) i).pos ≠ -1 →
          s'.vPool (s'.cache.vRow (s.cache.seqToStream dst) i) =
            s.vPool (s.cache.vRow (s.cache.seqToStream src) i) := by
  have h : CopyInv kvSize s := by
    apply Reach.invariant run
    · exact fun _ => copyInv_init
    · rintro a op b ha ⟨⟨hb, hal⟩, st⟩
      exact ha.step st hb hal
  refine ⟨h.live, ?_⟩
  intro src dst p0 p1 s' hb e hal st i hne
  have h' := h.step st hb fun _ => hal
  cases st with
  | seqCp hok =>
    have hc := copiedAcross_of_ne hok e
    rw [(h'.live _ i hne).2]
    change s.recordCp src dst _ i = _
    rw [PagedSys.recordCp, if_pos ⟨e, rfl⟩]
    exact (h.live _ i (hc.copied i hne).2).2.symm

end Runs

namespace CopiedToken

def sys0 : PagedSys Nat := ⟨init false false true 256 2 0 .none 1 0, fun _ => 0, fun _ _ => 0⟩

/-- A token of sequence 0 in cell 0 of stream 0, with the V value 7. -/
def sys1 : PagedSys Nat := Evicted.place sys0 0 0 1 [32] fun _ => 7

/-- The copy of sequence 0 to sequence 1, that is of stream 0 to stream 1, and the update. -/
def sys2 : PagedSys Nat :=
  PagedSys.update 256
    { sys1 with
      cache := (sys1.cache.seqCp 0 1 (-1) (-1)).getD sys1.cache
      last := sys1.recordCp 0 1 }

lemma computed : Evicted.Fits sys0.cache 0 0 1 [32] ∧ (sys1.cache.cell 0 0).pos = 0 ∧
    (sys1.cache.seqCp 0 1 (-1) (-1)).isSome = true ∧ (sys2.cache.cell 1 0).pos = 0 ∧ sys2.cache.page 1 0 = -1 := by
  decide +kernel

end CopiedToken

/-- A copied token has no page: `seq_cp` and `update` do not look at the page table. -/
theorem RowsRun.copied_without_page : ¬ ∀ s : PagedSys Nat, RowsRun 0 (fun a b : Nat => decide (a < b)) 1 256
      (fun s op => s.cache.triattentionPageBudget = 0 ∧ op.Found s) s →
      ∀ t i, (s.cache.cell t i).pos ≠ -1 → 0 ≤ s.cache.page t (i / 32) := by
  intro h
  obtain ⟨h0, _, hsome, hpos, hpage⟩ := CopiedToken.computed
  have run0 : RowsRun 0 (fun a b : Nat => decide (a < b)) 1 256
      (fun s op => s.cache.triattentionPageBudget = 0 ∧ op.Found s) CopiedToken.sys0 :=
    .init ⟨false, 2, 0, .none, 1, 0, by decide, rfl, rfl⟩
  have run1 : RowsRun 0 (fun a b : Nat => decide (a < b)) 1 256
      (fun s op => s.cache.triattentionPageBudget = 0 ∧ op.Found s) CopiedToken.sys1 :=
    .step run0 ⟨by exact ⟨rfl, h0.2.1⟩, Evicted.step_place h0 _⟩
  obtain ⟨c, hc⟩ := Option.isSome_iff_exists.1 hsome
  have hst : RowsStep 0 (fun a b : Nat => decide (a < b)) 1 256 CopiedToken.sys1
      (.seqCp 0 1 (-1) (-1)) CopiedToken.sys2 := by
    rw [CopiedToken.sys2, hc]
    exact .seqCp hc
  have hbud : CopiedToken.sys1.cache.triattentionPageBudget = 0 := by decide +kernel
  have hlive := h _ (.step run1 ⟨by exact ⟨hbud, trivial⟩, hst⟩) 1 0 (by rw [hpos]; decide)
  rw [hpage] at hlive
  exact absurd hlive (by decide)

namespace AlignedCopy

/-- A token of sequence `q` at position 0. -/
def token (q : SeqId) : Ubatch := { nTokens := 1, nPos := 1, pos := [0], seqId := [[q]], seqIdUnq := [q] }

/-- Cell 0 of a stream. -/
def cellZero (t : Nat) : SlotInfo := { s0 := t, s1 := t, strm := [t], idxs := [[0]] }

/-- The system after a token of sequence `q` with the V value `val` went into cell 0 of stream `t`. -/
def place (s : PagedSys Nat) (q : SeqId) (t : Nat) (row : Int) (val : Nat) : PagedSys Nat where
  cache := ((s.cache.applyUbatch (cellZero t) (token q)).pgAllocForSinfo (fun a b : Nat => decide (a < b)) 1
    (fun _ _ => 0) (cellZero t)).toOption.getD s.cache
  vPool := setRows [row] (fun _ => val) s.vPool
  last := record (cellZero t) (fun _ => val) s.last

/-- The page of the cell can be allocated, and `row` is the row of the cell. -/
abbrev Fits (s : PagedSys Nat) (q : SeqId) (t : Nat) (row : Int) : Prop :=
  t < s.cache.nStream ∧ ((s.cache.applyUbatch (cellZero t) (token q)).pgAllocForSinfo
    (fun a b : Nat => decide (a < b)) 1 (fun _ _ => 0) (cellZero t)).isOk = true ∧
      (place s q t row 0).cache.setInputVIdxs 1 (cellZero t) = some [row] ∧ s.cache.triattentionPageBudget = 0

/-- The runs without eviction whose copies are aligned, in a cache of 32 cells for each stream. -/
abbrev Run : PagedSys Nat → Prop :=
  RowsRun 0 (fun a b : Nat => decide (a < b)) 1 32 fun s op => s.cache.triattentionPageBudget = 0 ∧ op.CopyAligned 32 s

lemma run_place {s : PagedSys Nat} {q : SeqId} {t : Nat} {row : Int} (run : Run s) (h : Fits s q t row) (val : Nat) :
    Run (place s q t row val) := by
  obtain ⟨hlt, hok, hrows, hbudget⟩ := h
  have hone : ∀ r < (cellZero t).strm.length, r = 0 := fun r hr => Nat.lt_one_iff.1 hr
  have hsl : s.cache.SlotOk (cellZero t) := by
    refine ⟨?_, List.nodup_singleton t, ?_⟩
    · intro r hr
      rw [hone r hr]
      exact hlt
    · intro r hr
      rw [hone r hr]
      rfl
  have hstep : RowsStep 0 (fun a b : Nat => decide (a < b)) 1 32 s
      (.apply (cellZero t) (token q) (fun _ _ => 0) fun _ => val) (place s q t row val) :=
    .apply hsl (eq_ok_of_isOk hok s.cache) hrows
  exact .step run ⟨by exact ⟨hbudget, trivial⟩, hstep⟩

/-- Four streams of 32 cells. -/
def sys0 : PagedSys Nat := ⟨init false false true 32 4 0 .none 1 0, fun _ => 0, fun _ _ => 0⟩

/-- A token in each stream, stream 3 before stream 2: the blocks of the streams 0 to 3 are 1, 2, 4 and 3. -/
def sys4 : PagedSys Nat := place (place (place (place sys0 0 0 32 7) 1 1 64 8) 3 3 96 9) 2 2 128 10

/-- The copy of sequence 1 to sequence 2, that is of stream 1 to stream 2, and the update. -/
def sys5 : PagedSys Nat :=
  PagedSys.update 32
    { sys4 with
      cache := (sys4.cache.seqCp 1 2 (-1) (-1)).getD sys4.cache
      last := sys4.recordCp 1 2 }

section
variable {c : KvCache}

/-- There are no cells but the 32 of each stream. -/
lemma cell_eq_empty (hlen : c.vCells.length = 4) (hsize : ∀ t < 4, (c.cellsOf t).size = 32) {t i : Nat}
    (h : ¬ (t < 4 ∧ i < 32)) : c.cell t i = {} := by
  by_cases ht : t < 4
  · exact KvCells.cell_of_size_le (by rw [hsize t ht]; omega)
  · rw [KvCache.cell, KvCache.cellsOf, List.getD_eq_default _ _ (by omega)]
    rfl

/-- Sequence 1 has the cell 0 of stream 1 only, whose page has block 2, and that of stream 2 has block 4. -/
lemma copyAligned (hlen : c.vCells.length = 4) (hsize : ∀ t < 4, (c.cellsOf t).size = 32)
    (hsrc : c.seqToStream 1 = 1) (hdst : c.seqToStream 2 = 2) (honly : ∀ i < 32, (1 : SeqId) ∈ (c.cell 1 i).seq → i = 0)
    (hpage1 : c.page 1 0 = 2) (hpage2 : c.page 2 0 = 4) (hrow : c.vRow 2 0 = 128)
    (hothers : ∀ t < 4, t ≠ 2 → ∀ i < 32, (c.cell t i).pos ≠ -1 → ¬ InView 32 2 (c.vRow t i)) : c.CopyAligned 32 1 2 := by
  have hzero : ∀ i, (1 : SeqId) ∈ (c.cell 1 i).seq → i = 0 := by
    intro i hi
    by_cases hlt : i < 32
    · exact honly i hlt hi
    · rw [cell_eq_empty hlen hsize fun h => hlt h.2] at hi
      exact absurd hi (Finset.notMem_empty _)
  refine ⟨?_, ?_, ?_, ?_⟩
  · intro i hi
    rw [hsrc] at hi
    rw [hdst, hzero i hi, Nat.zero_div, hpage2]
    decide
  · intro i hi
    rw [hsrc] at hi
    rw [hsrc, hdst, hzero i hi, Nat.zero_div, hpage1, hpage2]
    decide
  · intro i hi
    rw [hsrc] at hi
    rw [hdst, hzero i hi, hrow]
    decide
  · intro t i ht hne
    rw [hdst] at ht ⊢
    by_cases hin : t < 4 ∧ i < 32
    · exact hothers t hin.1 ht i hin.2 hne
    · exact absurd (by rw [cell_eq_empty hlen hsize hin]) hne

end

lemma computed : Fits sys0 0 0 32 ∧ Fits (place sys0 0 0 32 7) 1 1 64 ∧
    Fits (place (place sys0 0 0 32 7) 1 1 64 8) 3 3 96 ∧
    Fits (place (place (place sys0 0 0 32 7) 1 1 64 8) 3 3 96 9) 2 2 128 ∧
    sys4.cache.triattentionPageBudget = 0 ∧ sys4.cache.vCells.length = 4 ∧
    (∀ t < 4, (sys4.cache.cellsOf t).size = 32) ∧ sys4.cache.seqToStream 1 = 1 ∧ sys4.cache.seqToStream 2 = 2 := by
  decide +kernel

lemma cells : (∀ i < 32, (1 : SeqId) ∈ (sys4.cache.cell 1 i).seq → i = 0) ∧ sys4.cache.page 1 0 = 2 ∧ sys4.cache.page 2 0 = 4 ∧
    sys4.cache.vRow 2 0 = 128 ∧
    (∀ t < 4, t ≠ 2 → ∀ i < 32, (sys4.cache.cell t i).pos ≠ -1 → ¬ InView 32 2 (sys4.cache.vRow t i)) ∧
    (sys4.cache.seqCp 1 2 (-1) (-1)).isSome = true ∧ (sys5.cache.cell 2 0).pos = 0 ∧
    sys4.vPool (sys4.cache.vRow 1 0) = 8 := by
  decide +kernel

end AlignedCopy

/-- The copy of a stream whose page has block 2 to one whose page has block 4, two blocks further, as its view is: the
    copied cell reads the value of its source cell. -/
theorem RowsRun.copied_reads_source_aligned : AlignedCopy.Run AlignedCopy.sys5 ∧ AlignedCopy.sys5.LiveRead ∧
      AlignedCopy.sys5.vPool (AlignedCopy.sys5.cache.vRow 2 0) = 8 := by
  obtain ⟨h0, h1, h3, h2, hbudget, hlen, hsize, hsrc, hdst⟩ := AlignedCopy.computed
  obtain ⟨honly, hpage1, hpage2, hrow, hothers, hsome, hpos, hval⟩ := AlignedCopy.cells
  have run0 : AlignedCopy.Run AlignedCopy.sys0 := .init ⟨false, 4, 0, .none, 1, 0, by decide, rfl, rfl⟩
  have run4 : AlignedCopy.Run AlignedCopy.sys4 :=
    AlignedCopy.run_place (AlignedCopy.run_place (AlignedCopy.run_place (AlignedCopy.run_place run0 h0 7) h1 8) h3 9) h2 10
  have hal : AlignedCopy.sys4.cache.CopyAligned 32 1 2 :=
    AlignedCopy.copyAligned hlen hsize hsrc hdst honly hpage1 hpage2 hrow hothers
  obtain ⟨c, hc⟩ := Option.isSome_iff_exists.1 hsome
  have hst : RowsStep 0 (fun a b : Nat => decide (a < b)) 1 32 AlignedCopy.sys4 (.seqCp 1 2 (-1) (-1)) AlignedCopy.sys5 := by
    rw [AlignedCopy.sys5, hc]
    exact .seqCp hc
  have run5 : AlignedCopy.Run AlignedCopy.sys5 := .step run4 ⟨by exact ⟨hbudget, fun _ => hal⟩, hst⟩
  have hne : AlignedCopy.sys4.cache.seqToStream 1 ≠ AlignedCopy.sys4.cache.seqToStream 2 := by
    rw [hsrc, hdst]
    decide
  have hread := (RowsRun.copied_reads_source run4).2 1 2 (-1) (-1) _ hbudget hne hal hst 0 (by rw [hdst, hpos]; decide)
  rw [hsrc, hdst, hval] at hread
  exact ⟨run5, (RowsRun.copied_reads_source run5).1, hread⟩

end Mallana
