import Mathlib.Data.Finset.Card
import Mallana.Lib.Scan
import Mallana.Paged.Run

/-!
# The page budget

What the TriAttention eviction of `pg_alloc_for_sinfo` does to the number of pages of a stream that have a
block. Allocation and eviction alternate cell by cell. A new block is paid for in one of three ways: the
budget is not used up, a page outside the batch is released, or all pages with a block belong to the batch,
which has room for one more of its own. So the number never exceeds the budget, the pages of the batch and
the number before, whichever is largest (`mapped_card_le`).
-/

namespace Mallana

open Lib List Finset

namespace SlotInfo

/-- The distinct pages of stream `t` that contain a cell of the slot. -/
def pages (sl : SlotInfo) (t : Nat) : Finset Nat :=
  (((List.range sl.strm.length).filter fun s => sl.strm.getD s 0 = t).flatMap fun s =>
    (sl.idxs.getD s []).map (· / 32)).toFinset

lemma mem_pages {sl : SlotInfo} {t lp : Nat} : lp ∈ sl.pages t ↔ sl.Touches t lp := by
  simp only [pages, mem_toFinset, mem_flatMap, List.mem_filter, decide_eq_true_eq, Touches, TouchesAt, and_assoc]

lemma pages_eq {sl : SlotInfo} (hnd : sl.strm.Nodup) {s : Nat} (hs : s < sl.strm.length) :
    sl.pages (sl.strm.getD s 0) = ((sl.idxs.getD s []).map (· / 32)).toFinset := by
  ext lp
  rw [mem_pages, mem_toFinset]
  constructor
  · rintro ⟨s', hs', e, hlp⟩
    have hs'' := List.mem_range.1 hs'
    rw [getD_eq_getElem _ _ hs'', getD_eq_getElem _ _ hs] at e
    rwa [(hnd.getElem_inj_iff).1 e] at hlp
  · intro hlp
    exact ⟨s, List.mem_range.2 hs, rfl, hlp⟩

end SlotInfo

namespace KvCache

/-- The pages of stream `t` that have a block, of `n` pages. -/
def mapped (c : KvCache) (n t : Nat) : Finset Nat := (Finset.range n).filter fun lp => 0 ≤ c.page t lp

section Budget
variable {F : Type} {lt : F → F → Bool} {fmax : F} {score : Nat → Nat → F} {c c' : KvCache} {kvSize t : Nat}
  {batch : List Nat}

lemma mem_mapped {n lp : Nat} : lp ∈ c.mapped n t ↔ lp < n ∧ 0 ≤ c.page t lp := by
  rw [mapped, Finset.mem_filter, Finset.mem_range]

lemma allocatedCount_eq (h : PgInv kvSize c) : c.allocatedCount t = (c.mapped (pagesFor kvSize 32) t).card := by
  rw [allocatedCount, h.nPages, countP_eq_length_filter]
  rfl

lemma evictLp_none (hscore : ∀ u lp, lt (score u lp) fmax = true) (h : c.evictLp lt fmax score t batch = none) :
    ∀ lp < c.nPagesPerStream, 0 ≤ c.page t lp → lp ∈ batch := by
  have hscan := foldl_scan (l := List.range c.nPagesPerStream)
    (f := fun (acc : Option Nat × F) lp =>
      if 0 ≤ c.page t lp ∧ lp ∉ batch ∧ lt (score t lp) acc.2 then (some lp, score t lp) else acc)
    (P := fun pre (acc : Option Nat × F) => acc.1 = none → acc.2 = fmax ∧ ∀ lp ∈ pre, 0 ≤ c.page t lp → lp ∈ batch)
    (s := (none, fmax)) (fun _ => ⟨rfl, fun _ hlp => absurd hlp not_mem_nil⟩) ?_
  · intro lp hlp
    exact (hscan h).2 lp (List.mem_range.2 hlp)
  · intro pre x post acc _ hacc
    split
    · intro hnone
      cases hnone
    · rename_i hskip
      intro hnone
      obtain ⟨hmax, hpre⟩ := hacc hnone
      refine ⟨hmax, fun lp hlp hp => ?_⟩
      rcases mem_append.1 hlp with hlp | hlp
      · exact hpre lp hlp hp
      · obtain rfl := List.mem_singleton.1 hlp
        by_contra hout
        exact hskip ⟨hp, hout, by rw [hmax]; exact hscore t lp⟩

lemma evict_room (t : Nat) (batch : List Nat) (hscore : ∀ u lp, lt (score u lp) fmax = true) (hbud : 0 < c.triattentionPageBudget) :
    (c.evict lt fmax score t batch = c ∧ c.allocatedCount t < c.triattentionPageBudget) ∨
    (c.evict lt fmax score t batch = c ∧ ∀ lp < c.nPagesPerStream, 0 ≤ c.page t lp → lp ∈ batch) ∨
    ∃ e, 0 ≤ c.page t e ∧ e ∉ batch ∧ c.evict lt fmax score t batch = c.releasePage t e := by
  unfold evict
  split
  · rename_i hfull
    cases he : c.evictLp lt fmax score t batch with
    | none => exact .inr (.inl ⟨rfl, evictLp_none hscore he⟩)
    | some e => exact .inr (.inr ⟨e, (evictLp_some he).1, (evictLp_some he).2, rfl⟩)
  · rename_i hroom
    exact .inl ⟨rfl, Nat.lt_of_not_le fun hle => hroom ⟨hbud, hle⟩⟩

lemma mapped_releasePage {n e : Nat} (he : 0 ≤ c.page t e) : (c.releasePage t e).mapped n t = (c.mapped n t).erase e := by
  ext lp
  rw [mem_erase, mem_mapped, mem_mapped, page_releasePage he]
  by_cases hlp : e = lp
  · rw [if_pos ⟨rfl, hlp⟩]
    constructor
    · rintro ⟨_, h⟩
      exact absurd h (by decide)
    · rintro ⟨h, _⟩
      exact absurd hlp.symm h
  · rw [if_neg (fun h => hlp h.2)]
    exact ⟨fun h => ⟨Ne.symm hlp, h⟩, fun h => h.2⟩

lemma mapped_setPage {n lp : Nat} {b : Int} {free : List Int} (hpg : c.HasPage t lp) (hlp : lp < n) (hb : 1 ≤ b) :
    ({ c with pgFreeBlocks := free }.setPage t lp b).mapped n t = insert lp (c.mapped n t) := by
  have hpage : ∀ mp, ({ c with pgFreeBlocks := free }.setPage t lp b).page t mp = if t = t ∧ lp = mp then b else c.page t mp :=
    page_setPage (c := { c with pgFreeBlocks := free }) hpg b t
  ext mp
  rw [mem_insert, mem_mapped, mem_mapped, hpage]
  by_cases hmp : lp = mp
  · rw [if_pos ⟨rfl, hmp⟩]
    subst hmp
    exact ⟨fun _ => .inl rfl, fun _ => ⟨hlp, by omega⟩⟩
  · rw [if_neg (fun h => hmp h.2)]
    exact ⟨.inr, fun h => h.resolve_left (Ne.symm hmp)⟩

lemma nStream_evict (lt : F → F → Bool) (fmax : F) (score : Nat → Nat → F) (c : KvCache) (t : Nat) (batch : List Nat) :
    (c.evict lt fmax score t batch).nStream = c.nStream := by
  obtain he | ⟨e, _, _, _, he⟩ := evict_cases lt fmax score c t batch
  · rw [he]
  · rw [he]
    rfl

section
variable (h : PgInv kvSize c) (hscore : ∀ u lp, lt (score u lp) fmax = true) (hbud : 0 < c.triattentionPageBudget)
  (ht : t < c.nStream)
include h hscore hbud ht

lemma mapped_card_pgAllocCell {i : Nat} (hi : i / 32 ∈ batch)
    (hok : pgAllocCell lt fmax score t batch c i = .ok c') : (c'.mapped (pagesFor kvSize 32) t).card
      ≤ max c.triattentionPageBudget (max batch.toFinset.card (c.mapped (pagesFor kvSize 32) t).card) := by
  obtain ⟨_, herr⟩ | ⟨c1, hok1, _, hstep⟩ := h.pgAllocCell lt fmax score ht batch i
  · rw [herr] at hok
    cases hok
  · rw [hok1] at hok
    cases hok
    obtain ⟨_, rfl⟩ | ⟨hneg, b, free, _, hb, hpg, rfl⟩ := hstep
    · omega
    · have hlt : i / 32 < pagesFor kvSize 32 := by
        have hrow := (h.evict t batch : PgInv kvSize (c.evict lt fmax score t batch)).row_length
          (by rw [nStream_evict]; exact ht)
        rw [← hrow]
        exact hpg.2
      rw [mapped_setPage hpg hlt hb]
      rcases evict_room t batch hscore hbud with ⟨he, hroom⟩ | ⟨he, hall⟩ | ⟨e, hpe, _, he⟩
      · -- within the budget
        rw [allocatedCount_eq h] at hroom
        have hcard := card_insert_le (i / 32) (c.mapped (pagesFor kvSize 32) t)
        rw [he]
        omega
      · -- all pages with a block are pages of the batch, and so is the new one
        have hsub : insert (i / 32) (c.mapped (pagesFor kvSize 32) t) ⊆ batch.toFinset := by
          intro lp hlp
          rw [mem_toFinset]
          rcases mem_insert.1 hlp with rfl | hlp
          · exact hi
          · obtain ⟨hn, hp⟩ := mem_mapped.1 hlp
            exact hall lp (by rw [h.nPages]; exact hn) hp
        have hcard := card_le_card hsub
        rw [he]
        omega
      · -- the released page makes room
        have hn : e < pagesFor kvSize 32 := by
          have hpage := (hasPage_of_nonneg hpe).2
          rwa [h.row_length ht] at hpage
        have hmem : e ∈ c.mapped (pagesFor kvSize 32) t := mem_mapped.2 ⟨hn, hpe⟩
        have hpos := card_pos.2 ⟨e, hmem⟩
        have hcard := card_insert_le (i / 32) ((c.mapped (pagesFor kvSize 32) t).erase e)
        rw [card_erase_of_mem hmem] at hcard
        rw [he, mapped_releasePage hpe]
        omega

lemma mapped_card_cells {idxs : List Nat} (hidxs : ∀ i ∈ idxs, i / 32 ∈ batch)
    (hok : idxs.foldlM (pgAllocCell lt fmax score t batch) c = .ok c') : (c'.mapped (pagesFor kvSize 32) t).card
      ≤ max c.triattentionPageBudget (max batch.toFinset.card (c.mapped (pagesFor kvSize 32) t).card) := by
  induction idxs generalizing c with
  | nil =>
    cases hok
    omega
  | cons i idxs ih =>
    have hi := hidxs i List.mem_cons_self
    rw [foldlM_cons] at hok
    obtain ⟨_, herr⟩ | ⟨c1, hok1, h1, hstep⟩ := h.pgAllocCell lt fmax score ht batch i
    · rw [herr] at hok
      cases hok
    · have hparams : c1.toKvParams = c.toKvParams := by
        obtain ⟨_, rfl⟩ | ⟨hneg, b, free, _, _, hpg, rfl⟩ := hstep
        · rfl
        · exact (allocStep_setPage hi hneg hpg).pages.params
      have hfst := mapped_card_pgAllocCell h hscore hbud ht hi hok1
      rw [hok1] at hok
      have hrest := ih h1 (by rw [hparams]; exact hbud) (by rw [hparams]; exact ht)
        (fun j hj => hidxs j (List.mem_cons_of_mem _ hj)) hok
      rw [hparams] at hrest
      omega

end

lemma mapped_of_page {n : Nat} (h : ∀ lp, c'.page t lp = c.page t lp) : c'.mapped n t = c.mapped n t := by
  ext lp
  rw [mem_mapped, mem_mapped, h]

lemma mapped_card_streams (h : PgInv kvSize c) (hscore : ∀ u lp, lt (score u lp) fmax = true)
    (hbud : 0 < c.triattentionPageBudget) {sl : SlotInfo} (hnd : sl.strm.Nodup) (l : List Nat) (hln : l.Nodup)
    (hl : ∀ s ∈ l, s < sl.strm.length ∧ sl.strm.getD s 0 < c.nStream) {body : KvCache → Nat → Except PgAbort KvCache}
    (hbody : ∀ c : KvCache, c.pgBlockSize = 32 → ∀ s, body c s = (sl.idxs.getD s []).foldlM
      (KvCache.pgAllocCell lt fmax score (sl.strm.getD s 0) ((sl.idxs.getD s []).map (· / 32))) c)
    (hok : l.foldlM body c = .ok c') (t : Nat) : (c'.mapped (pagesFor kvSize 32) t).card
      ≤ max c.triattentionPageBudget (max (sl.pages t).card (c.mapped (pagesFor kvSize 32) t).card) := by
  induction l generalizing c with
  | nil =>
    cases hok
    omega
  | cons s l ih =>
    obtain ⟨hs, hst⟩ := hl s List.mem_cons_self
    rw [foldlM_cons, hbody c h.blockSize s] at hok
    obtain ⟨_, herr⟩ | ⟨c1, hok1, h1, hstep, _⟩ :=
      h.pgAllocCells lt fmax score ((sl.idxs.getD s []).map (· / 32)) (sl.idxs.getD s []) hst
        (fun i hi => List.mem_map_of_mem hi)
    · rw [herr] at hok
      cases hok
    · have hparams := hstep.pages.params
      have hrest := ih h1 (by rw [hparams]; exact hbud) (nodup_cons.1 hln).2
        (fun r hr => by rw [hparams]; exact hl r (List.mem_cons_of_mem _ hr)) (by rw [hok1] at hok; exact hok)
      rw [hparams] at hrest
      by_cases e : t = sl.strm.getD s 0
      · have hcells := mapped_card_cells h hscore hbud hst (fun i hi => List.mem_map_of_mem hi) hok1
        subst e
        rw [SlotInfo.pages_eq hnd hs] at hrest ⊢
        omega
      · rw [mapped_of_page (fun lp => hstep.stream t lp e)] at hrest
        exact hrest

/-- For every stream, every slot in distinct streams and every page score below the maximum:
    `pg_alloc_for_sinfo` ends with a block for the page of every cell of the slot; the pages of the slot keep
    their blocks, and eviction never chooses one of them; and with a positive budget the pages with a block of a
    stream number at most the budget, the distinct pages of the slot or the pages before, whichever is largest. -/
theorem pgAllocForSinfo_budget (h : PgInv kvSize c) (lt : F → F → Bool) (fmax : F) (score : Nat → Nat → F)
    (hscore : ∀ t lp, lt (score t lp) fmax = true) {sl : SlotInfo} (hl : c.InStreams sl) (hnd : sl.strm.Nodup)
    (hcells : ∀ s < sl.strm.length, ∀ i ∈ sl.idxs.getD s [], i / 32 < pagesFor kvSize 32) :
    ∃ c', c.pgAllocForSinfo lt fmax score sl = .ok c' ∧
      (∀ s < sl.strm.length, ∀ i ∈ sl.idxs.getD s [], 0 ≤ c'.page (sl.strm.getD s 0) (i / 32)) ∧
      (∀ t, ∀ lp ∈ sl.pages t, 0 ≤ c.page t lp → c'.page t lp = c.page t lp) ∧
      (∀ (c1 : KvCache), ∀ s < sl.strm.length, ∀ e,
        c1.evictLp lt fmax score (sl.strm.getD s 0) ((sl.idxs.getD s []).map (· / 32)) = some e →
        e ∉ sl.pages (sl.strm.getD s 0)) ∧ (0 < c.triattentionPageBudget → ∀ t, c'.allocatedCount t
        ≤ max c.triattentionPageBudget (max (sl.pages t).card (c.allocatedCount t))) := by
  obtain ⟨⟨s, hs, i, hi, hbad⟩, _⟩ | ⟨c', hok, h', _, hrun⟩ := h.pgAllocForSinfo lt fmax score hl
  · exact absurd hbad (Nat.not_le_of_lt (hcells s hs i hi))
  · have hr := hrun hnd
    refine ⟨c', hok, ?_, ?_, ?_, ?_⟩
    · intro s hs i hi
      exact hr.alloc _ _ ⟨s, List.mem_range.2 hs, rfl, List.mem_map_of_mem hi⟩
    · intro t lp hlp hp
      exact hr.inside t lp (SlotInfo.mem_pages.1 hlp) hp
    · intro c1 s hs e he hin
      rw [SlotInfo.pages_eq hnd hs, mem_toFinset] at hin
      exact (evictLp_some he).2 hin
    · intro hbud t
      rw [allocatedCount_eq h', allocatedCount_eq h]
      unfold KvCache.pgAllocForSinfo at hok
      rw [if_pos h.enabled] at hok
      refine mapped_card_streams h hscore hbud hnd (List.range sl.strm.length) nodup_range ?_ ?_ hok t
      · intro s hs
        have hs' := List.mem_range.1 hs
        exact ⟨hs', hl s hs'⟩
      · intro c1 hc1 s
        simp only [hc1]

/-- Two pages into a stream with a budget of one page: both get a block. -/
theorem pgAllocForSinfo_two_pages :
    ∃ c', (init false true true 64 1 0 .none 1 1).pgAllocForSinfo (fun a b : Nat => decide (a < b)) 1 (fun _ _ => 0)
        { s0 := 0, s1 := 0, strm := [0], idxs := [[0, 33]] } = .ok c' ∧ c'.allocatedCount 0 ≤ 2 := by
  have hin : InStreams (init false true true 64 1 0 .none 1 1) { s0 := 0, s1 := 0, strm := [0], idxs := [[0, 33]] } := by
    unfold InStreams
    decide
  obtain ⟨c', hok, _, _, _, hcount⟩ := pgAllocForSinfo_budget (pgInv_init true 64 1 0 .none 1 1 (by decide))
    (fun a b : Nat => decide (a < b)) 1 (fun _ _ => 0) (fun _ _ => rfl) hin (by decide) (by decide)
  exact ⟨c', hok, hcount (by decide) 0⟩

end Budget

end KvCache

end Mallana
