import Mallana.KvCache.Frame

/-!
# The block pool

Model of `llama_kv_cache::pg_alloc_for_sinfo` and of the paged branch of `set_input_v_idxs`, and the
invariant of the block pool. Physical blocks `1 … pg_n_blocks` are either entries of the page table or
on the stack of free blocks; block 0 is the shared zero block. `PgInv` says that each of them is in
exactly one of the two places, exactly once. A page changes hands in two ways only, `releasePage` and
`takeBlock`, and both leave the bag of blocks unchanged.

The relevance score of a page comes from K rows and floating point arithmetic; it is a parameter here:
`score t lp` of a type `F` that is compared by `lt` and starts at `fmax` (`float`, `<` and
`numeric_limits<float>::max()`).
-/

namespace Mallana

open Lib List

/-- The ways in which `pg_alloc_for_sinfo` aborts. -/
inductive PgAbort where
  | lpageRange
  | outOfBlocks
deriving DecidableEq, Repr

namespace KvCache

/-- Pages of a stream (C++ `pg_page_table[0].size()`). -/
def nPagesPerStream (c : KvCache) : Nat := (c.pgPageTable.headD []).length

def allocatedCount (c : KvCache) (t : Nat) : Nat :=
  (List.range c.nPagesPerStream).countP fun lp => 0 ≤ c.page t lp

section Evict
variable {F : Type} (lt : F → F → Bool) (fmax : F) (score : Nat → Nat → F)

/-- The page with the least score among those with a block and outside the current batch, if one
    scores below `fmax` (C++ `evict_lp`). -/
def evictLp (c : KvCache) (t : Nat) (batch : List Nat) : Option Nat :=
  ((List.range c.nPagesPerStream).foldl
    (fun (acc : Option Nat × F) lp =>
      if 0 ≤ c.page t lp ∧ lp ∉ batch ∧ lt (score t lp) acc.2 then (some lp, score t lp) else acc)
    (none, fmax)).1

/-- TriAttention: release one page when the stream has used up its budget. -/
def evict (c : KvCache) (t : Nat) (batch : List Nat) : KvCache :=
  if 0 < c.triattentionPageBudget ∧ c.triattentionPageBudget ≤ c.allocatedCount t then
    match c.evictLp lt fmax score t batch with
    | some lp => c.releasePage t lp
    | none => c
  else c

def takeBlock (c : KvCache) (t lp : Nat) : Except PgAbort KvCache :=
  match c.pgFreeBlocks.getLast? with
  | none => .error .outOfBlocks
  | some b => .ok ({ c with pgFreeBlocks := c.pgFreeBlocks.dropLast }.setPage t lp b)

/-- The loop body of `pg_alloc_for_sinfo`: give the page of a cell a block if it has none. -/
def pgAllocCell (t : Nat) (batch : List Nat) (c : KvCache) (i : Nat) : Except PgAbort KvCache :=
  let lp := i / c.pgBlockSize
  if c.nPagesPerStream ≤ lp then .error .lpageRange
  else if 0 ≤ c.page t lp then .ok c
  else (c.evict lt fmax score t batch).takeBlock t lp

/-- C++ `pg_alloc_for_sinfo`. -/
def pgAllocForSinfo (c : KvCache) (sl : SlotInfo) : Except PgAbort KvCache :=
  if c.pgEnabled then
    (List.range sl.strm.length).foldlM
      (fun c s =>
        let idxs := sl.idxs.getD s []
        idxs.foldlM
          (pgAllocCell lt fmax score (sl.strm.getD s 0) (idxs.map (· / c.pgBlockSize))) c) c
  else .ok c

end Evict

def vRow (c : KvCache) (t i : Nat) : Int :=
  c.page t (i / c.pgBlockSize) * c.pgBlockSize + (i % c.pgBlockSize : Nat)

/-- The rows for a slot (C++ `set_input_v_idxs`, paged branch): the slot must have the size of the
    ubatch and every page a block. -/
def setInputVIdxs (c : KvCache) (nTokens : Nat) (sl : SlotInfo) : Option (List Int) :=
  if nTokens = sl.size * sl.strm.length ∧ ∀ e ∈ sl.entries, 0 ≤ c.page e.2.1 (e.2.2 / c.pgBlockSize) then
    some (sl.entries.map fun e => c.vRow e.2.1 e.2.2)
  else none

end KvCache

namespace SlotInfo

/-- Page `lp` of stream `t` contains a cell of the slot, among the streams listed in `l`. -/
def TouchesAt (sl : SlotInfo) (l : List Nat) (t lp : Nat) : Prop :=
  ∃ s ∈ l, sl.strm.getD s 0 = t ∧ lp ∈ (sl.idxs.getD s []).map (· / 32)

/-- Page `lp` of stream `t` contains a cell of the slot. -/
def Touches (sl : SlotInfo) (t lp : Nat) : Prop := sl.TouchesAt (List.range sl.strm.length) t lp

end SlotInfo

namespace KvCache

def blocks (c : KvCache) : List Int := c.pgPageTable.flatten.filter (0 ≤ ·) ++ c.pgFreeBlocks

/-- The usable blocks `1 … n`. -/
def allBlocks (n : Nat) : List Int := (List.range n).map fun i => ((i + 1 : Nat) : Int)

/-- The invariant of the pool of a cache with `kvSize` cells for each stream. -/
structure PgInv (kvSize : Nat) (c : KvCache) : Prop where
  shape : Shape kvSize c
  enabled : c.pgEnabled = true
  blockSize : c.pgBlockSize = 32
  nBlocks : c.pgNBlocks = (pagesFor kvSize 32 + 1) * c.nStream - 1
  table : c.pgPageTable.map List.length = List.replicate c.nStream (pagesFor kvSize 32)
  perm : c.blocks.Perm (allBlocks c.pgNBlocks)

variable {c c' : KvCache} {kvSize : Nat}

lemma perm_freshBlocks (n : Nat) : (freshBlocks n).Perm (allBlocks n) := by
  induction n with
  | zero => exact List.Perm.refl _
  | succ n ih =>
    have e1 : freshBlocks (n + 1) = ((n + 1 : Nat) : Int) :: freshBlocks n := by
      simp only [freshBlocks, range_succ_eq_map, map_cons, map_map]
      congr 1
      apply map_congr_left
      intro i _
      simp
    have e2 : allBlocks (n + 1) = allBlocks n ++ [((n + 1 : Nat) : Int)] := by
      simp [allBlocks, range_succ]
    rw [e1, e2]
    exact (ih.cons _).trans (perm_append_singleton _ _).symm

variable {b : Int} {t lp : Nat}

lemma mem_allBlocks {n : Nat} : b ∈ allBlocks n ↔ 1 ≤ b ∧ b ≤ n := by
  simp only [allBlocks, mem_map, mem_range]
  constructor
  · rintro ⟨i, hi, rfl⟩
    omega
  · rintro ⟨h1, h2⟩
    exact ⟨b.toNat - 1, by omega, by omega⟩

lemma nodup_allBlocks (n : Nat) : (allBlocks n).Nodup := by
  apply List.Nodup.map _ nodup_range
  intro i j h
  simp only at h
  omega

section
variable (h : PgInv kvSize c)
include h

lemma PgInv.mem_blocks : b ∈ c.blocks ↔ 1 ≤ b ∧ b ≤ c.pgNBlocks := by
  rw [h.perm.mem_iff, mem_allBlocks]

lemma PgInv.table_length : c.pgPageTable.length = c.nStream := by
  have := congrArg List.length h.table
  simpa using this

lemma PgInv.row_length (ht : t < c.nStream) : (c.pgPageTable.getD t []).length = pagesFor kvSize 32 := by
  have hlt : t < c.pgPageTable.length := by
    rw [h.table_length]
    exact ht
  have hmem : (c.pgPageTable.getD t []).length ∈ c.pgPageTable.map List.length := by
    rw [getD_eq_getElem _ _ hlt]
    exact mem_map_of_mem (getElem_mem hlt)
  rw [h.table] at hmem
  exact eq_of_mem_replicate hmem

lemma PgInv.nPages : c.nPagesPerStream = pagesFor kvSize 32 := by
  have := h.row_length h.shape.streams
  cases e : c.pgPageTable with
  | nil => simpa [nPagesPerStream, e] using this
  | cons r rs => simpa [nPagesPerStream, e] using this

lemma PgInv.hasPage (ht : t < c.nStream) (hlp : lp < pagesFor kvSize 32) : c.HasPage t lp :=
  ⟨by rw [h.table_length]; exact ht, by rw [h.row_length ht]; exact hlp⟩

lemma PgInv.page_mem (hp : 0 ≤ c.page t lp) : 1 ≤ c.page t lp ∧ c.page t lp ≤ c.pgNBlocks := by
  obtain ⟨ht, hlp⟩ := hasPage_of_nonneg hp
  rw [← h.mem_blocks]
  apply mem_append_left
  rw [mem_filter]
  refine ⟨?_, by simpa using hp⟩
  rw [mem_flatten]
  refine ⟨c.pgPageTable.getD t [], ?_, ?_⟩
  · rw [getD_eq_getElem _ _ ht]
    exact getElem_mem ht
  · rw [page, getD_eq_getElem _ _ hlp]
    exact getElem_mem hlp

end

lemma map_length_setPage (c : KvCache) (t lp : Nat) (b : Int) :
    (c.setPage t lp b).pgPageTable.map List.length = c.pgPageTable.map List.length := by
  apply ext_getD 0 (by simp [setPage])
  intro u hu
  simp only [length_map] at hu
  have hu' : u < c.pgPageTable.length := by simpa [setPage] using hu
  rw [getD_eq_getElem _ _ (by simpa using hu), getD_eq_getElem _ _ (by simpa using hu')]
  simp only [setPage, getElem_map, getElem_modify]
  split <;> simp

section
variable (h : PgInv kvSize c)
include h

lemma PgInv.congr (hk : Keeps c c') (hp : c'.pool = c.pool) : PgInv kvSize c' := by
  have h1 : c'.pgPageTable = c.pgPageTable := congrArg Prod.fst hp
  have h2 : c'.pgFreeBlocks = c.pgFreeBlocks := congrArg Prod.snd hp
  refine ⟨hk.shape h.shape, ?_, ?_, ?_, ?_, ?_⟩
  · rw [hk.params]
    exact h.enabled
  · rw [hk.params]
    exact h.blockSize
  · rw [hk.params]
    exact h.nBlocks
  · rw [h1, hk.params]
    exact h.table
  · rw [blocks, h1, h2, hk.params]
    exact h.perm

lemma PgInv.setPage {free : List Int}
    (hperm : ({ c with pgFreeBlocks := free }.setPage t lp b).blocks.Perm c.blocks) :
    PgInv kvSize ({ c with pgFreeBlocks := free }.setPage t lp b) := by
  refine ⟨h.shape.congr rfl rfl rfl, h.enabled, h.blockSize, h.nBlocks, ?_, hperm.trans h.perm⟩
  rw [map_length_setPage]
  exact h.table

lemma PgInv.releasePage (hp : 0 ≤ c.page t lp) : PgInv kvSize (c.releasePage t lp) := by
  obtain ⟨ht, hlp⟩ := hasPage_of_nonneg hp
  obtain ⟨rest, h1, h2⟩ := flatten_modify_modify_perm ht hlp (fun _ => -1) (-1)
  apply h.setPage
  have hold : (c.pgPageTable.flatten.filter (0 ≤ ·)).Perm
      (c.page t lp :: rest.filter (0 ≤ ·)) := by
    have := h1.filter (0 ≤ ·)
    rwa [filter_cons_of_pos (by simpa [page] using hp)] at this
  have hnew := h2.filter (0 ≤ ·)
  rw [filter_cons_of_neg (by simp)] at hnew
  refine (hnew.append_right (c.pgFreeBlocks ++ [c.page t lp])).trans ?_
  refine List.Perm.trans ?_ (hold.append_right _).symm
  rw [← append_assoc]
  exact perm_append_singleton _ _

lemma PgInv.free_ne_nil (hpg : c.HasPage t lp) (hp : c.page t lp < 0) : c.pgFreeBlocks ≠ [] := by
  intro e
  have hlen : (c.pgPageTable.flatten.filter (0 ≤ ·)).length = c.pgNBlocks := by
    have := h.perm.length_eq
    simpa [blocks, e, allBlocks] using this
  have hflat : c.pgPageTable.flatten.length = pagesFor kvSize 32 * c.nStream := by
    rw [length_flatten, h.table, sum_replicate_nat, mul_comm]
  have hlt : (c.pgPageTable.flatten.filter (0 ≤ ·)).length < c.pgPageTable.flatten.length := by
    rw [length_filter_lt_length_iff_exists]
    refine ⟨c.page t lp, ?_, by simpa using hp⟩
    rw [mem_flatten]
    refine ⟨c.pgPageTable.getD t [], ?_, ?_⟩
    · rw [getD_eq_getElem _ _ hpg.1]
      exact getElem_mem hpg.1
    · rw [page, getD_eq_getElem _ _ hpg.2]
      exact getElem_mem hpg.2
  have hn := h.nBlocks
  have hpos := h.shape.streams
  rw [add_mul, one_mul] at hn
  omega

lemma PgInv.takeBlock (hpg : c.HasPage t lp)
    (hp : c.page t lp < 0) : ∃ b free, c.pgFreeBlocks = free ++ [b] ∧ 1 ≤ b ∧
      c.takeBlock t lp = .ok ({ c with pgFreeBlocks := free }.setPage t lp b) ∧
      PgInv kvSize ({ c with pgFreeBlocks := free }.setPage t lp b) := by
  have hne := h.free_ne_nil hpg hp
  have hsplit := dropLast_append_getLast hne
  generalize c.pgFreeBlocks.getLast hne = b at hsplit
  generalize hfree : c.pgFreeBlocks.dropLast = free at hsplit
  have hb : 1 ≤ b := by
    apply (h.mem_blocks.1 _).1
    rw [blocks, ← hsplit]
    simp
  refine ⟨b, free, hsplit.symm, hb, ?_, ?_⟩
  · simp [KvCache.takeBlock, ← hsplit]
  obtain ⟨rest, h1, h2⟩ := flatten_modify_modify_perm hpg.1 hpg.2 (fun _ => b) (-1)
  apply h.setPage
  have hold := h1.filter (0 ≤ ·)
  rw [filter_cons_of_neg (by simpa [page] using hp)] at hold
  have hnew := h2.filter (0 ≤ ·)
  rw [filter_cons_of_pos (by simp; omega)] at hnew
  refine (hnew.append_right _).trans ?_
  rw [blocks, ← hsplit]
  refine List.Perm.trans ?_ (hold.append_right _).symm
  rw [← append_assoc]
  exact (perm_append_singleton _ _).symm

lemma PgInv.tryFreePage (t lp : Nat) : PgInv kvSize (c.tryFreePage t lp) := by
  unfold KvCache.tryFreePage
  split
  · exact h
  · rename_i hp
    split
    · exact h
    · exact h.releasePage (by omega)

lemma PgInv.freePages (t : Nat) : PgInv kvSize (c.freePages t) :=
  List.foldlRecOn _ _ h fun _ hb lp _ => hb.tryFreePage t lp

lemma PgInv.cellsOnly (hc : CellsOnly c c') : PgInv kvSize c' :=
  h.congr hc.keeps hc.pool

lemma PgInv.seqRm (seq : Option SeqId) (p0 p1 : Int) : PgInv kvSize (c.seqRm seq p0 p1) := by
  have hrm := h.cellsOnly (cellsOnly_rmCells c seq p0 p1)
  rw [seqRm_eq]
  split
  · exact List.foldlRecOn _ _ hrm fun _ hb t _ => hb.freePages t
  · exact hrm

lemma PgInv.purge (m : PosMaxRm) : PgInv kvSize (c.purge m) := by
  refine List.foldlRecOn _ _ h ?_
  intro b hb s _
  unfold purgeSeq
  simp only []
  split
  · exact hb.seqRm _ _ _
  · exact hb

lemma PgInv.applyUbatch (sl : SlotInfo) (u : Ubatch) : PgInv kvSize (c.applyUbatch sl u) :=
  ((h.cellsOnly (cellsOnly_applyTokens c sl u)).purge _).cellsOnly (cellsOnly_moveHeads _ sl)

end

lemma perm_blocks_fresh {n : Nat} (ht : ∀ b ∈ c.pgPageTable.flatten, b = -1)
    (hf : c.pgFreeBlocks = freshBlocks n) : c.blocks.Perm (allBlocks n) := by
  have : c.pgPageTable.flatten.filter (0 ≤ ·) = [] := by
    rw [filter_eq_nil_iff]
    intro b hb
    rw [ht b hb]
    simp
  rw [blocks, this, nil_append, hf]
  exact perm_freshBlocks n

lemma PgInv.clear (h : PgInv kvSize c) : PgInv kvSize c.clear := by
  have hc := cleared_clear c
  have htab : c.clear.pgPageTable = c.pgPageTable.map (·.map fun _ => -1) := by
    apply ext_getD [] (by simpa using hc.table_length)
    intro t ht
    rw [hc.table_length] at ht
    rw [hc.table t, if_pos ⟨h.enabled, by rw [← h.table_length]; exact ht⟩]
    simp [ht]
  refine ⟨(keeps_clear c).shape h.shape, ?_, ?_, ?_, ?_, ?_⟩
  · rw [hc.params]
    exact h.enabled
  · rw [hc.params]
    exact h.blockSize
  · rw [hc.params]
    exact h.nBlocks
  · rw [htab, hc.params, map_map]
    refine Eq.trans ?_ h.table
    apply map_congr_left
    intro r _
    simp
  · rw [hc.params]
    apply perm_blocks_fresh
    · intro b hb
      rw [htab] at hb
      simp only [mem_flatten, mem_map] at hb
      obtain ⟨_, ⟨r, _, rfl⟩, hb⟩ := hb
      simp only [mem_map] at hb
      obtain ⟨_, _, rfl⟩ := hb
      rfl
    · exact pgFreeBlocks_clear h.enabled

lemma pgInv_init (unified : Bool) (kvSize nSeqMax nSwa : Nat) (swaType : SwaType)
    (nPosPerEmbd budget : Nat) (hseq : 0 < nSeqMax) : PgInv kvSize
      (init false unified true kvSize nSeqMax nSwa swaType nPosPerEmbd budget) := by
  refine ⟨shape_init _ _ _ _ _ _ _ _ _ hseq, rfl, rfl, rfl, ?_, ?_⟩
  · simp [init]
  · apply perm_blocks_fresh
    · intro b hb
      simp only [init, if_true, mem_flatten] at hb
      obtain ⟨r, hr, hb⟩ := hb
      rw [eq_of_mem_replicate hr] at hb
      exact eq_of_mem_replicate hb
    · rfl

section Alloc
variable {F : Type} {lt : F → F → Bool} {fmax : F} {score : Nat → Nat → F}

variable {t : Nat} {batch : List Nat} {sl : SlotInfo}

lemma evictLp_some {e : Nat} (h : c.evictLp lt fmax score t batch = some e) : 0 ≤ c.page t e ∧ e ∉ batch := by
  revert h
  unfold evictLp
  refine List.foldlRecOn (motive := fun acc : Option Nat × F =>
    acc.1 = some e → 0 ≤ c.page t e ∧ e ∉ batch) _ _ (by simp) ?_
  intro acc ih lp _
  split
  · rename_i hc
    intro he
    cases he
    exact ⟨hc.1, hc.2.1⟩
  · exact ih

lemma evict_cases (lt : F → F → Bool) (fmax : F) (score : Nat → Nat → F) (c : KvCache) (t : Nat)
    (batch : List Nat) : c.evict lt fmax score t batch = c ∨
      ∃ e, 0 < c.triattentionPageBudget ∧ 0 ≤ c.page t e ∧ e ∉ batch ∧
        c.evict lt fmax score t batch = c.releasePage t e := by
  unfold evict
  split
  · rename_i hb
    cases he : c.evictLp lt fmax score t batch with
    | none => exact .inl rfl
    | some e => exact .inr ⟨e, hb.1, (evictLp_some he).1, (evictLp_some he).2, rfl⟩
  · exact .inl rfl

lemma PgInv.evict (h : PgInv kvSize c) (t : Nat) (batch : List Nat) :
    PgInv kvSize (c.evict lt fmax score t batch) := by
  obtain he | ⟨e, _, hp, _, he⟩ := evict_cases lt fmax score c t batch
  · rw [he]
    exact h
  · rw [he]
    exact h.releasePage hp

lemma page_evict_neg {lp : Nat} (batch : List Nat) (hp : c.page t lp < 0) :
    (c.evict lt fmax score t batch).page t lp < 0 := by
  obtain he | ⟨e, _, hpe, _, he⟩ := evict_cases lt fmax score c t batch
  · rw [he]
    exact hp
  · rw [he, page_releasePage hpe]
    split
    · decide
    · exact hp

lemma PgInv.pgAllocCell (h : PgInv kvSize c) (lt : F → F → Bool) (fmax : F)
    (score : Nat → Nat → F) (ht : t < c.nStream) (batch : List Nat) (i : Nat) :
    (pagesFor kvSize 32 ≤ i / 32 ∧ pgAllocCell lt fmax score t batch c i = .error .lpageRange) ∨
      ∃ c', pgAllocCell lt fmax score t batch c i = .ok c' ∧ PgInv kvSize c' ∧ (0 ≤ c.page t (i / 32) ∧ c' = c ∨
          c.page t (i / 32) < 0 ∧ ∃ b free, (c.evict lt fmax score t batch).pgFreeBlocks = free ++ [b] ∧ 1 ≤ b ∧
            (c.evict lt fmax score t batch).HasPage t (i / 32) ∧
            c' = { c.evict lt fmax score t batch with pgFreeBlocks := free }.setPage t (i / 32) b) := by
  unfold KvCache.pgAllocCell
  simp only [h.blockSize, h.nPages]
  split
  · rename_i hlp
    exact .inl ⟨hlp, rfl⟩
  · rename_i hlp
    right
    split
    · rename_i hp
      exact ⟨c, rfl, h, .inl ⟨hp, rfl⟩⟩
    · rename_i hp
      have hev : PgInv kvSize (c.evict lt fmax score t batch) := h.evict t batch
      have hst : (c.evict lt fmax score t batch).nStream = c.nStream := by
        obtain he | ⟨e, _, _, _, he⟩ :=
          evict_cases lt fmax score c t batch
        · rw [he]
        · rw [he]
          rfl
      have hpg : (c.evict lt fmax score t batch).HasPage t (i / 32) :=
        hev.hasPage (by rw [hst]; exact ht) (by omega)
      obtain ⟨b, free, hfree, hb, hok, hinv⟩ :=
        hev.takeBlock hpg (page_evict_neg batch (by omega))
      exact ⟨_, hok, hinv, .inr ⟨by omega, b, free, hfree, hb, hpg, rfl⟩⟩

/-- What allocating pages of the batch in stream `t` may do to the page table. -/
structure AllocStep (t : Nat) (batch : List Nat) (c c' : KvCache) : Prop where
  pages : PagesOnly c c'
  stream : ∀ u lp, u ≠ t → c'.page u lp = c.page u lp
  outside : ∀ lp, lp ∉ batch → c'.page t lp = c.page t lp ∨ c'.page t lp = -1
  inside : ∀ lp ∈ batch, 0 ≤ c.page t lp → c'.page t lp = c.page t lp
  /-- without a budget no page is evicted -/
  noEvict : c.triattentionPageBudget = 0 → ∀ lp, 0 ≤ c.page t lp → c'.page t lp = c.page t lp

lemma AllocStep.refl (t : Nat) (batch : List Nat) (c : KvCache) : AllocStep t batch c c :=
  ⟨PagesOnly.refl c, fun _ _ _ => rfl, fun _ _ => .inl rfl, fun _ _ _ => rfl, fun _ _ _ => rfl⟩

lemma AllocStep.trans {c'' : KvCache} (h1 : AllocStep t batch c c')
    (h2 : AllocStep t batch c' c'') : AllocStep t batch c c'' := by
  refine ⟨h1.pages.trans h2.pages, ?_, ?_, ?_, ?_⟩
  · intro u lp hu
    rw [h2.stream u lp hu, h1.stream u lp hu]
  · intro lp hlp
    obtain h | h := h2.outside lp hlp
    · rw [h]
      exact h1.outside lp hlp
    · exact .inr h
  · intro lp hlp hp
    have h := h1.inside lp hlp hp
    rw [h2.inside lp hlp (by rw [h]; exact hp), h]
  · intro hb lp hp
    have h := h1.noEvict hb lp hp
    rw [h2.noEvict (by rw [h1.pages.params]; exact hb) lp (by rw [h]; exact hp), h]

lemma allocStep_setPage {lp : Nat} {b : Int} {free : List Int} (hlp : lp ∈ batch) (hneg : c.page t lp < 0)
    (hpg : (c.evict lt fmax score t batch).HasPage t lp) : AllocStep t batch c
      ({ c.evict lt fmax score t batch with pgFreeBlocks := free }.setPage t lp b) := by
  have hpage : ∀ u mp, ({ c.evict lt fmax score t batch with pgFreeBlocks := free }.setPage t lp b).page
      u mp = if t = u ∧ lp = mp then b else (c.evict lt fmax score t batch).page u mp :=
    page_setPage (c := { c.evict lt fmax score t batch with pgFreeBlocks := free }) hpg b
  obtain he | ⟨e, hbud, hpe, hbatch, he⟩ :=
    evict_cases lt fmax score c t batch
  · rw [he] at hpage ⊢
    refine ⟨⟨rfl, rfl, rfl, rfl⟩, ?_, ?_, ?_, ?_⟩
    · intro u mp hu
      rw [hpage, if_neg (by tauto)]
    · intro mp hmp
      rw [hpage, if_neg (by rintro ⟨_, rfl⟩; exact hmp hlp)]
      exact .inl rfl
    · intro mp _ hp
      rw [hpage, if_neg (by rintro ⟨_, rfl⟩; omega)]
    · intro _ mp hp
      rw [hpage, if_neg (by rintro ⟨_, rfl⟩; omega)]
  · rw [he] at hpage ⊢
    refine ⟨⟨rfl, rfl, rfl, rfl⟩, ?_, ?_, ?_, ?_⟩
    · intro u mp hu
      rw [hpage, if_neg (by tauto), page_releasePage hpe, if_neg (by tauto)]
    · intro mp hmp
      rw [hpage, if_neg (by rintro ⟨_, rfl⟩; exact hmp hlp), page_releasePage hpe]
      split
      · exact .inr rfl
      · exact .inl rfl
    · intro mp hmp hp
      rw [hpage, if_neg (by rintro ⟨_, rfl⟩; omega), page_releasePage hpe,
        if_neg (by rintro ⟨_, rfl⟩; exact hbatch hmp)]
    · intro hb
      omega

lemma PgInv.pgAllocCells (h : PgInv kvSize c) (lt : F → F → Bool) (fmax : F)
    (score : Nat → Nat → F) (batch idxs : List Nat) (ht : t < c.nStream) (hb : ∀ i ∈ idxs, i / 32 ∈ batch) :
    (∃ i ∈ idxs, pagesFor kvSize 32 ≤ i / 32) ∧
        idxs.foldlM (KvCache.pgAllocCell lt fmax score t batch) c = .error .lpageRange ∨
      ∃ c', idxs.foldlM (KvCache.pgAllocCell lt fmax score t batch) c = .ok c' ∧ PgInv kvSize c' ∧
        AllocStep t batch c c' ∧ ∀ i ∈ idxs, 0 ≤ c'.page t (i / 32) := by
  induction idxs generalizing c with
  | nil => exact .inr ⟨c, rfl, h, AllocStep.refl t batch c, by simp⟩
  | cons i idxs ih =>
    simp only [mem_cons, forall_eq_or_imp] at hb
    obtain ⟨hlp, herr⟩ | ⟨c1, hok, h1, hstep⟩ :=
      h.pgAllocCell lt fmax score ht batch i
    · left
      refine ⟨⟨i, by simp, hlp⟩, ?_⟩
      rw [foldlM_cons, herr]
      rfl
    have hs1 : AllocStep t batch c c1 ∧ 0 ≤ c1.page t (i / 32) := by
      obtain ⟨hp, rfl⟩ | ⟨hp, b, free, _, hb1, hpg, rfl⟩ := hstep
      · exact ⟨AllocStep.refl t batch _, hp⟩
      · refine ⟨allocStep_setPage hb.1 hp hpg, ?_⟩
        rw [page_setPage (c := { c.evict lt fmax score t batch with pgFreeBlocks := free }) hpg, if_pos ⟨rfl, rfl⟩]
        omega
    have ht1 : t < c1.nStream := by
      rw [hs1.1.pages.params]
      exact ht
    have hcons : (i :: idxs).foldlM (KvCache.pgAllocCell lt fmax score t batch) c =
        idxs.foldlM (KvCache.pgAllocCell lt fmax score t batch) c1 := by
      rw [foldlM_cons, hok]
      rfl
    rw [hcons]
    obtain ⟨⟨j, hj, hjp⟩, herr⟩ | ⟨c2, hok2, h2, hs2, hall⟩ := ih h1 ht1 hb.2
    · exact .inl ⟨⟨j, mem_cons_of_mem _ hj, hjp⟩, herr⟩
    · refine .inr ⟨c2, hok2, h2, hs1.1.trans hs2, ?_⟩
      intro j hj
      obtain rfl | hj := mem_cons.1 hj
      · rw [hs2.inside _ hb.1 hs1.2]
        exact hs1.2
      · exact hall j hj

/-- What the allocation for the streams listed in `l` of a slot does to the page table. -/
structure AllocRun (sl : SlotInfo) (l : List Nat) (c c' : KvCache) : Prop where
  streams : ∀ t lp, t ∉ l.map (sl.strm.getD · 0) → c'.page t lp = c.page t lp
  outside : ∀ t lp, ¬ sl.TouchesAt l t lp → c'.page t lp = c.page t lp ∨ c'.page t lp = -1
  inside : ∀ t lp, sl.TouchesAt l t lp → 0 ≤ c.page t lp → c'.page t lp = c.page t lp
  alloc : ∀ t lp, sl.TouchesAt l t lp → 0 ≤ c'.page t lp
  noEvict : c.triattentionPageBudget = 0 → ∀ t lp, 0 ≤ c.page t lp → c'.page t lp = c.page t lp

lemma AllocRun.nil (sl : SlotInfo) (c : KvCache) : AllocRun sl [] c c := by
  refine ⟨fun _ _ _ => rfl, fun _ _ _ => .inl rfl, fun _ _ _ _ => rfl, ?_, fun _ _ _ _ => rfl⟩
  rintro t lp ⟨s, hs, _⟩
  cases hs

lemma AllocRun.cons {s : Nat} {l : List Nat} {c'' : KvCache}
    (h1 : AllocStep (sl.strm.getD s 0) ((sl.idxs.getD s []).map (· / 32)) c c')
    (ha : ∀ lp ∈ (sl.idxs.getD s []).map (· / 32), 0 ≤ c'.page (sl.strm.getD s 0) lp)
    (h2 : AllocRun sl l c' c'') (hs : sl.strm.getD s 0 ∉ l.map (sl.strm.getD · 0)) :
    AllocRun sl (s :: l) c c'' := by
  have hcases : ∀ t lp, sl.TouchesAt (s :: l) t lp ↔
      (sl.strm.getD s 0 = t ∧ lp ∈ (sl.idxs.getD s []).map (· / 32)) ∨ sl.TouchesAt l t lp := by
    intro t lp
    simp only [SlotInfo.TouchesAt, mem_cons, exists_eq_or_imp]
  -- the streams that follow do not touch this one
  have hne : ∀ t lp, sl.TouchesAt l t lp → t ≠ sl.strm.getD s 0 := by
    rintro t lp ⟨r, hr, rfl, _⟩ e
    exact hs (mem_map.2 ⟨r, hr, e⟩)
  refine ⟨?_, ?_, ?_, ?_, ?_⟩
  · intro t lp ht
    simp only [map_cons, mem_cons, not_or] at ht
    rw [h2.streams t lp ht.2, h1.stream t lp ht.1]
  · intro t lp ht
    rw [hcases, not_or] at ht
    obtain h | h := h2.outside t lp ht.2
    · rw [h]
      by_cases e : t = sl.strm.getD s 0
      · subst e
        exact h1.outside lp fun hlp => ht.1 ⟨rfl, hlp⟩
      · exact .inl (h1.stream t lp e)
    · exact .inr h
  · intro t lp ht hp
    obtain ⟨rfl, hlp⟩ | ht := (hcases t lp).1 ht
    · rw [h2.streams _ lp hs, h1.inside lp hlp hp]
    · have e := h1.stream t lp (hne t lp ht)
      rw [h2.inside t lp ht (by rw [e]; exact hp), e]
  · intro t lp ht
    obtain ⟨rfl, hlp⟩ | ht := (hcases t lp).1 ht
    · rw [h2.streams _ lp hs]
      exact ha lp hlp
    · exact h2.alloc t lp ht
  · intro hb t lp hp
    have e : c'.page t lp = c.page t lp := by
      by_cases e : t = sl.strm.getD s 0
      · subst e
        exact h1.noEvict hb lp hp
      · exact h1.stream t lp e
    rw [h2.noEvict (by rw [h1.pages.params]; exact hb) t lp (by rw [e]; exact hp), e]

lemma PgInv.pgAllocStreams (h : PgInv kvSize c) (lt : F → F → Bool) (fmax : F)
    (score : Nat → Nat → F) (l : List Nat) (hl : ∀ s ∈ l, sl.strm.getD s 0 < c.nStream) :
    let body := fun (c : KvCache) (s : Nat) => (sl.idxs.getD s []).foldlM
      (KvCache.pgAllocCell lt fmax score (sl.strm.getD s 0)
        ((sl.idxs.getD s []).map (· / c.pgBlockSize))) c
    (∃ s ∈ l, ∃ i ∈ sl.idxs.getD s [], pagesFor kvSize 32 ≤ i / 32) ∧ l.foldlM body c = .error .lpageRange ∨
      ∃ c', l.foldlM body c = .ok c' ∧ PgInv kvSize c' ∧ PagesOnly c c' ∧
        ((l.map (sl.strm.getD · 0)).Nodup → AllocRun sl l c c') := by
  induction l generalizing c with
  | nil => exact .inr ⟨c, rfl, h, PagesOnly.refl c, fun _ => AllocRun.nil sl c⟩
  | cons s l ih =>
    intro body
    simp only [mem_cons, forall_eq_or_imp] at hl
    have hbody : body c s = (sl.idxs.getD s []).foldlM (KvCache.pgAllocCell lt fmax score
        (sl.strm.getD s 0) ((sl.idxs.getD s []).map (· / 32))) c := by
      simp only [body, h.blockSize]
    obtain ⟨⟨i, hi, hip⟩, herr⟩ | ⟨c1, hok, h1, hs1, hall⟩ :=
      h.pgAllocCells lt fmax score ((sl.idxs.getD s []).map (· / 32)) (sl.idxs.getD s []) hl.1
        (fun i hi => mem_map_of_mem hi)
    · left
      refine ⟨⟨s, by simp, i, hi, hip⟩, ?_⟩
      rw [foldlM_cons, hbody, herr]
      rfl
    have hcons : (s :: l).foldlM body c = l.foldlM body c1 := by
      rw [foldlM_cons, hbody, hok]
      rfl
    rw [hcons]
    have hl1 : ∀ r ∈ l, sl.strm.getD r 0 < c1.nStream := by
      rw [hs1.pages.params]
      exact hl.2
    obtain ⟨⟨r, hr, hbad⟩, herr⟩ | ⟨c2, hok2, h2, hp2, hrun⟩ := ih h1 hl1
    · exact .inl ⟨⟨r, mem_cons_of_mem _ hr, hbad⟩, herr⟩
    · refine .inr ⟨c2, hok2, h2, hs1.pages.trans hp2, ?_⟩
      intro hnd
      simp only [map_cons, nodup_cons] at hnd
      refine AllocRun.cons hs1 ?_ (hrun hnd.2) hnd.1
      intro lp hlp
      obtain ⟨i, hi, rfl⟩ := mem_map.1 hlp
      exact hall i hi

def InStreams (c : KvCache) (sl : SlotInfo) : Prop :=
  ∀ s < sl.strm.length, sl.strm.getD s 0 < c.nStream

/-- `pg_alloc_for_sinfo` aborts only for a cell outside the page table; otherwise it keeps the
    invariant, and with distinct streams every page of the slot has a block afterwards. -/
lemma PgInv.pgAllocForSinfo (h : PgInv kvSize c) (lt : F → F → Bool) (fmax : F)
    (score : Nat → Nat → F) (hl : c.InStreams sl) :
    (∃ s < sl.strm.length, ∃ i ∈ sl.idxs.getD s [], pagesFor kvSize 32 ≤ i / 32) ∧
        c.pgAllocForSinfo lt fmax score sl = .error .lpageRange ∨
      ∃ c', c.pgAllocForSinfo lt fmax score sl = .ok c' ∧ PgInv kvSize c' ∧ PagesOnly c c' ∧
        (sl.strm.Nodup → AllocRun sl (List.range sl.strm.length) c c') := by
  have hmap : (List.range sl.strm.length).map (sl.strm.getD · 0) = sl.strm := by
    apply ext_getElem (by simp)
    intro s h1 h2
    simp [h2]
  have hrange : ∀ s ∈ List.range sl.strm.length, sl.strm.getD s 0 < c.nStream :=
    fun s hs => hl s (mem_range.1 hs)
  have hrun := h.pgAllocStreams lt fmax score _ hrange
  simp only [mem_range, hmap] at hrun
  unfold KvCache.pgAllocForSinfo
  rw [if_pos h.enabled]
  exact hrun

end Alloc

lemma PgInv.page_inj (h : PgInv kvSize c) {u mp : Nat} (hp : 0 ≤ c.page t lp)
    (he : c.page t lp = c.page u mp) : t = u ∧ lp = mp := by
  by_contra hne
  have h1 := h.releasePage hp
  have hnd : (c.releasePage t lp).blocks.Nodup := h1.perm.nodup_iff.2 (nodup_allBlocks _)
  have hu : (c.releasePage t lp).page u mp = c.page t lp := by
    rw [page_releasePage hp, if_neg hne, he]
  have hpg : (c.releasePage t lp).HasPage u mp := hasPage_of_nonneg (by rw [hu]; exact hp)
  obtain ⟨ht, hlp⟩ := hpg
  rw [blocks, nodup_append] at hnd
  refine hnd.2.2 (c.page t lp) ?_ (c.page t lp) ?_ rfl
  · rw [mem_filter, mem_flatten]
    refine ⟨⟨(c.releasePage t lp).pgPageTable.getD u [], ?_, ?_⟩, by simpa using hp⟩
    · rw [getD_eq_getElem _ _ ht]
      exact getElem_mem ht
    · rw [← hu, page, getD_eq_getElem _ _ hlp]
      exact getElem_mem hlp
  · simp [KvCache.releasePage, KvCache.setPage]

lemma PgInv.vRow_inj (h : PgInv kvSize c) {u i j : Nat} (hp : 0 ≤ c.page t (i / 32))
    (he : c.vRow t i = c.vRow u j) : t = u ∧ i = j := by
  simp only [vRow, h.blockSize] at he
  have hpage : c.page t (i / 32) = c.page u (j / 32) := by omega
  obtain ⟨rfl, hd⟩ := h.page_inj hp hpage
  refine ⟨rfl, ?_⟩
  rw [← hd] at he
  omega

lemma PgInv.vRow_bounds (h : PgInv kvSize c) {i : Nat} (hp : 0 ≤ c.page t (i / 32)) :
    32 ≤ c.vRow t i ∧ c.vRow t i < 32 * (c.pgNBlocks + 1) := by
  obtain ⟨h1, h2⟩ := h.page_mem hp
  simp only [vRow, h.blockSize]
  omega

lemma PgInv.pool_rows (h : PgInv kvSize c) (hd : 32 ∣ kvSize) :
    32 * (c.pgNBlocks + 1) = (kvSize + 32) * c.nStream := by
  obtain ⟨m, rfl⟩ := hd
  have hpos := h.shape.streams
  have hpages : pagesFor (32 * m) 32 = m := by
    unfold pagesFor
    omega
  have hge : c.nStream ≤ (m + 1) * c.nStream := Nat.le_mul_of_pos_left _ (Nat.succ_pos m)
  rw [h.nBlocks, hpages, Nat.sub_add_cancel (le_trans hpos hge), ← mul_assoc]
  congr 1

lemma setInputVIdxs_some {nTokens : Nat} {sl : SlotInfo} {rows : List Int}
    (h : c.setInputVIdxs nTokens sl = some rows) : rows = sl.entries.map (fun e => c.vRow e.2.1 e.2.2) ∧
      ∀ e ∈ sl.entries, 0 ≤ c.page e.2.1 (e.2.2 / c.pgBlockSize) := by
  unfold setInputVIdxs at h
  split at h
  · rename_i hc
    cases h
    exact ⟨rfl, hc.2⟩
  · cases h

/-- A slot as `find_slot` builds it: distinct streams, with the same number of cells in each. -/
structure SlotOk (c : KvCache) (sl : SlotInfo) : Prop where
  streams : c.InStreams sl
  nodup : sl.strm.Nodup
  lengths : ∀ s < sl.strm.length, (sl.idxs.getD s []).length = sl.size

lemma SlotOk.touches {c : KvCache} {sl : SlotInfo} (h : c.SlotOk sl) {t i : Nat}
    (hi : sl.Has t i) : sl.Touches t (i / 32) := by
  obtain ⟨e, he, hti⟩ := hi
  simp only [SlotInfo.entries, mem_flatMap, mem_map, mem_range] at he
  obtain ⟨s, hs, ii, hii, rfl⟩ := he
  simp only [Prod.mk.injEq] at hti
  obtain ⟨rfl, rfl⟩ := hti
  refine ⟨s, mem_range.2 hs, rfl, ?_⟩
  rw [← h.lengths s hs] at hii
  rw [getD_eq_getElem _ _ hii]
  exact mem_map.2 ⟨_, getElem_mem hii, rfl⟩

end KvCache

lemma eq_ok_of_isOk {ε α : Type} {r : Except ε α} (h : r.isOk = true) (d : α) : r = .ok (r.toOption.getD d) := by
  cases r with
  | ok a => rfl
  | error e => cases h

/-- Tokens of sequence 0 at the positions from `p` on. -/
def Ubatch.tokens (p n : Nat) : Ubatch :=
  { nTokens := n, nPos := 1, pos := (List.range' p n).map fun k => (k : Int),
    seqId := List.replicate n [0], seqIdUnq := [0] }

/-- The cells from `i` on of stream 0. -/
def SlotInfo.cellsFrom (i n : Nat) : SlotInfo :=
  { s0 := 0, s1 := 0, strm := [0], idxs := [List.range' i n] }

namespace KvCache

lemma slotOk_cellsFrom {c : KvCache} {i n : Nat} (hn : 0 < c.nStream) : c.SlotOk (.cellsFrom i n) := by
  have hone : ∀ r < (SlotInfo.cellsFrom i n).strm.length, r = 0 := by
    intro r hr
    simpa [SlotInfo.cellsFrom] using hr
  refine ⟨?_, by simp [SlotInfo.cellsFrom], ?_⟩
  · intro r hr
    rw [hone r hr]
    exact hn
  · intro r hr
    rw [hone r hr]
    simp [SlotInfo.cellsFrom, SlotInfo.size]

/-- Place `n` tokens from position `p` on into the cells from `i` on; every page has score 0. -/
def place (c : KvCache) (i p n : Nat) : KvCache :=
  ((c.applyUbatch (.cellsFrom i n) (.tokens p n)).pgAllocForSinfo (fun a b : Nat => decide (a < b)) 1
    (fun _ _ => 0) (.cellsFrom i n)).toOption.getD c

end KvCache

end Mallana
