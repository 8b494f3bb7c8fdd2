import Mallana.Lib.Reach
import Mallana.Paged.Pool

/-!
# Runs with paging: conservation of the blocks

The cache with paging enabled, used in any way: the constructor for any parameters, then any sequence
of `clear`, the sequence operations and applied ubatches, each ubatch with its own page scores. A ubatch
may go into any slot in existing streams, not only one that `find_slot` would return. An operation that
aborts ends the run.

In every state of every run each physical block is in exactly one place (`PagedRun.pool_conserved`).
-/

namespace Mallana

open Lib KvCache List

/-- The operations; `F` is the type of page scores. -/
inductive PagedOp (F : Type) where
  | clear
  | seqRm (seq : Option SeqId) (p0 p1 : Int)
  | seqCp (src dst : SeqId) (p0 p1 : Int)
  | seqKeep (s : SeqId)
  | seqAdd (s : SeqId) (p0 p1 shift : Int)
  | seqDiv (s : SeqId) (p0 p1 d : Int)
  /-- `apply_ubatch` followed by `pg_alloc_for_sinfo` (C++ `llama_kv_cache_context::apply`) -/
  | apply (sl : SlotInfo) (u : Ubatch) (score : Nat → Nat → F)

section Run
variable {F : Type} (lt : F → F → Bool) (fmax : F)

/-- One operation that does not abort. -/
inductive PagedStep : KvCache → PagedOp F → KvCache → Prop where
  | clear {c} : PagedStep c .clear c.clear
  | seqRm {c seq p0 p1} : PagedStep c (.seqRm seq p0 p1) (c.seqRm seq p0 p1)
  | seqCp {c c' src dst p0 p1} :
    c.seqCp src dst p0 p1 = some c' → PagedStep c (.seqCp src dst p0 p1) c'
  | seqKeep {c s} : PagedStep c (.seqKeep s) (c.seqKeep s)
  | seqAdd {c c' s p0 p1 d} : c.seqAdd s p0 p1 d = some c' → PagedStep c (.seqAdd s p0 p1 d) c'
  | seqDiv {c c' s p0 p1 d} : c.seqDiv s p0 p1 d = some c' → PagedStep c (.seqDiv s p0 p1 d) c'
  | apply {c c' sl u score} :
    c.InStreams sl →
    (c.applyUbatch sl u).pgAllocForSinfo lt fmax score sl = .ok c' →
    PagedStep c (.apply sl u score) c'

/-- A freshly constructed cache with paging. `n_seq_max` is at least one. -/
def PagedInit (kvSize : Nat) (c : KvCache) : Prop :=
  ∃ unified nSeqMax nSwa swaType nPosPerEmbd budget, 0 < nSeqMax ∧
    c = init false unified true kvSize nSeqMax nSwa swaType nPosPerEmbd budget

/-- The states of the runs of a cache with `kvSize` cells for each stream. -/
def PagedRun (kvSize : Nat) : KvCache → Prop := Reach (PagedInit kvSize) (PagedStep lt fmax)

end Run

section Conservation
variable {F : Type} {lt : F → F → Bool} {fmax : F} {kvSize : Nat} {c c' : KvCache}

/-- Applying a ubatch to a slot in existing streams aborts only for a cell outside the page table. -/
lemma KvCache.PgInv.apply_cases (h : PgInv kvSize c) {sl : SlotInfo} (u : Ubatch) (score : Nat → Nat → F) (hin : c.InStreams sl) :
    (c.applyUbatch sl u).pgAllocForSinfo lt fmax score sl = .error .lpageRange ∨
      ∃ c', (c.applyUbatch sl u).pgAllocForSinfo lt fmax score sl = .ok c' ∧ PgInv kvSize c' ∧
        (sl.strm.Nodup → AllocRun sl (List.range sl.strm.length) (c.applyUbatch sl u) c') := by
  have hin' : (c.applyUbatch sl u).InStreams sl := by
    unfold InStreams
    rw [(keeps_applyUbatch c sl u).params]
    exact hin
  obtain ⟨_, herr⟩ | ⟨c', hok, h', _, hrun⟩ := (h.applyUbatch sl u).pgAllocForSinfo lt fmax score hin'
  · exact .inl herr
  · exact .inr ⟨c', hok, h', hrun⟩

lemma KvCache.PgInv.applied (h : PgInv kvSize c) {sl : SlotInfo} {u : Ubatch} {score : Nat → Nat → F} (hin : c.InStreams sl)
    (hok : (c.applyUbatch sl u).pgAllocForSinfo lt fmax score sl = .ok c') :
    PgInv kvSize c' ∧ (sl.strm.Nodup → AllocRun sl (List.range sl.strm.length) (c.applyUbatch sl u) c') := by
  obtain herr | ⟨_, hok', h'⟩ := @apply_cases F lt fmax _ _ h _ u score hin
  · rw [herr] at hok
    cases hok
  · rw [hok'] at hok
    cases hok
    exact h'

lemma PagedStep.pgInv {op : PagedOp F} (st : PagedStep lt fmax c op c') (h : PgInv kvSize c) :
    PgInv kvSize c' := by
  cases st with
  | clear => exact h.clear
  | seqRm => exact h.seqRm _ _ _
  | seqCp hok => exact h.congr (keeps_seqCp hok).1 (keeps_seqCp hok).2
  | seqKeep => exact h.cellsOnly (cellsOnly_seqKeep c _)
  | seqAdd hok => exact h.cellsOnly (cellsOnly_seqAdd hok)
  | seqDiv hok => exact h.cellsOnly (cellsOnly_seqDiv hok)
  | apply hin hok => exact (h.applied hin hok).1

lemma PagedRun.pgInv (run : PagedRun lt fmax kvSize c) : PgInv kvSize c := by
  apply Reach.invariant run
  · rintro _ ⟨unified, nSeqMax, nSwa, swaType, nPosPerEmbd, budget, hseq, rfl⟩
    exact pgInv_init _ _ _ _ _ _ _ hseq
  · intro s op s' hs st
    exact st.pgInv hs

lemma KvCache.PgInv.setInputVIdxs (h : PgInv kvSize c') {sl : SlotInfo} {u : Ubatch}
    (hsl : c.SlotOk sl) (hrun : AllocRun sl (List.range sl.strm.length) (c.applyUbatch sl u) c') :
    (c'.setInputVIdxs (sl.size * sl.strm.length) sl).isSome := by
  have hpage : ∀ e ∈ sl.entries, 0 ≤ c'.page e.2.1 (e.2.2 / c'.pgBlockSize) := by
    intro e he
    rw [h.blockSize]
    exact hrun.alloc _ _ (hsl.touches ⟨e, he, rfl⟩)
  rw [KvCache.setInputVIdxs, if_pos ⟨rfl, hpage⟩]
  exact rfl

/-- In every state of every run, each block `1 … pg_n_blocks` occurs exactly once among the blocks of
    the page table and the free blocks, and block 0 does not occur; allocating pages never runs out
    of blocks, whatever the slot, and `set_input_v_idxs` then has a row for each cell of a slot as `find_slot` builds it;
    and the rows that `set_input_v_idxs` computes belong to one cell each, avoid block 0 and stay inside the V tensor. -/
theorem PagedRun.pool_conserved (run : PagedRun lt fmax kvSize c) : (∀ b : Int, 1 ≤ b → b ≤ c.pgNBlocks →
      (c.pgPageTable.flatten.filter (0 ≤ ·) ++ c.pgFreeBlocks).count b = 1) ∧
    (0 ∉ c.pgPageTable.flatten ∧ 0 ∉ c.pgFreeBlocks) ∧ (∀ sl u score, c.InStreams sl →
      (c.applyUbatch sl u).pgAllocForSinfo lt fmax score sl ≠ .error .outOfBlocks) ∧
    (∀ sl u score c', c.SlotOk sl → (c.applyUbatch sl u).pgAllocForSinfo lt fmax score sl = .ok c' →
      (c'.setInputVIdxs (sl.size * sl.strm.length) sl).isSome) ∧
    (32 ∣ kvSize → ∀ nTokens sl rows, c.setInputVIdxs nTokens sl = some rows → rows.length = sl.entries.length ∧
      (∀ r ∈ rows, c.pgBlockSize ≤ r ∧ r < (kvSize + c.pgBlockSize) * c.nStream) ∧
      (∀ nTokens' sl' rows', c.setInputVIdxs nTokens' sl' = some rows' → ∀ k < rows.length, ∀ l < rows'.length,
          (sl.entries.getD k default).2 ≠ (sl'.entries.getD l default).2 → rows.getD k 0 ≠ rows'.getD l 0)) := by
  have h := run.pgInv
  refine ⟨?_, ?_, ?_, ?_, ?_⟩
  · intro b h1 h2
    have hmem : b ∈ c.blocks := h.mem_blocks.2 ⟨h1, h2⟩
    exact count_eq_one_of_mem (h.perm.nodup_iff.2 (nodup_allBlocks _)) hmem
  · have h0 : (0 : Int) ∉ c.blocks := by
      rw [h.mem_blocks]
      omega
    rw [blocks, mem_append, not_or] at h0
    refine ⟨?_, h0.2⟩
    intro hmem
    exact h0.1 (mem_filter.2 ⟨hmem, by simp⟩)
  · intro sl u score hin
    obtain herr | ⟨_, hok, _⟩ := h.apply_cases u score hin
    · rw [herr]
      simp
    · rw [hok]
      simp
  · intro sl u score c' hsl hok
    obtain ⟨h', hrun⟩ := h.applied hsl.streams hok
    exact h'.setInputVIdxs hsl (hrun hsl.nodup)
  · intro hd nTokens sl rows hrows
    obtain ⟨rfl, hall⟩ := setInputVIdxs_some hrows
    rw [h.blockSize] at hall ⊢
    refine ⟨by simp, ?_, ?_⟩
    · intro r hr
      obtain ⟨e, he, rfl⟩ := mem_map.1 hr
      obtain ⟨h1, h2⟩ := h.vRow_bounds (hall e he)
      have := h.pool_rows hd
      push_cast
      refine ⟨h1, ?_⟩
      exact_mod_cast (by rw [← this]; exact_mod_cast h2 :
        c.vRow e.2.1 e.2.2 < ((kvSize + 32) * c.nStream : Nat))
    · intro nTokens' sl' rows' hrows' k hk l hl hne he
      obtain ⟨rfl, _⟩ := setInputVIdxs_some hrows'
      simp only [length_map] at hk hl
      rw [getD_eq_getElem _ _ hk, getD_eq_getElem _ _ hl] at hne
      simp only [getD_eq_getElem?_getD, getElem?_map, getElem?_eq_getElem hk,
        getElem?_eq_getElem hl, Option.map_some, Option.getD_some] at he
      obtain ⟨h1, h2⟩ := h.vRow_inj (hall _ (getElem_mem hk)) he
      exact hne (Prod.ext h1 h2)

/-- Two pages and a budget of one. -/
def twoPages : KvCache := init false true true 64 1 0 .none 1 1

/-- 32 tokens get block 1; for the next token page 0 is evicted, and page 1 gets the block. -/
theorem PagedRun.pool_conserved_evicted :
    ((twoPages.place 0 0 32).place 32 32 1).page 0 0 = -1 ∧
      (((twoPages.place 0 0 32).place 32 32 1).pgPageTable.flatten.filter (0 ≤ ·) ++
        ((twoPages.place 0 0 32).place 32 32 1).pgFreeBlocks).count 1 = 1 ∧
      (((twoPages.place 0 0 32).place 32 32 1).setInputVIdxs 1 (.cellsFrom 32 1)).isSome := by
  generalize h0 : twoPages = c0
  generalize h1 : c0.place 0 0 32 = c1
  generalize h2 : c1.place 32 32 1 = c2
  have hok : (0 < c0.nStream ∧ ((c0.applyUbatch (.cellsFrom 0 32) (.tokens 0 32)).pgAllocForSinfo
        (fun a b : Nat => decide (a < b)) 1 (fun _ _ => 0) (.cellsFrom 0 32)).isOk = true) ∧
      (0 < c1.nStream ∧ ((c1.applyUbatch (.cellsFrom 32 1) (.tokens 32 1)).pgAllocForSinfo
        (fun a b : Nat => decide (a < b)) 1 (fun _ _ => 0) (.cellsFrom 32 1)).isOk = true) ∧
      c2.page 0 0 = -1 ∧ c2.pgNBlocks = 2 := by
    subst h0 h1 h2
    decide +kernel
  obtain ⟨⟨hn0, hok0⟩, ⟨hn1, hok1⟩, hpage, hblocks⟩ := hok
  have run0 : PagedRun (fun a b : Nat => decide (a < b)) 1 64 c0 :=
    .init ⟨true, 1, 0, .none, 1, 1, by decide, h0.symm⟩
  have hok0 := eq_ok_of_isOk hok0 c0
  have hok1 := eq_ok_of_isOk hok1 c1
  rw [← place, h1] at hok0
  rw [← place, h2] at hok1
  have run1 := run0.step (.apply (slotOk_cellsFrom hn0).streams hok0)
  have run2 := run1.step (.apply (slotOk_cellsFrom hn1).streams hok1)
  exact ⟨hpage, (PagedRun.pool_conserved run2).1 1 le_rfl (by rw [hblocks]; decide),
    (PagedRun.pool_conserved run1).2.2.2.1 _ _ _ _ (slotOk_cellsFrom hn1) hok1⟩

end Conservation

end Mallana
