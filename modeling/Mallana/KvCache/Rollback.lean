import Mallana.Batch.Streams
import Mallana.KvCache.Prepare

/-!
# The ubatch that failed

Model of the error path of `llama_context::decode`: a ubatch is applied to the cache before its graph is computed, and if
that fails, its positions are removed again. The removal looks at the first sequence of every token only; a token of
several sequences stays in the cache for the others.
-/

namespace Mallana

open Lib KvCells Ubatch List

namespace KvCache

/-- The error path of `decode`: for every sequence all positions from the least one on that the ubatch has for it. -/
def rollback (c : KvCache) (u : Ubatch) : KvCache :=
  (List.finRange llamaMaxSeq).foldl
    (fun c s => if u.seqPosMin s = int32Max then c else c.seqRm (some s) (u.seqPosMin s) (-1)) c

def seqPositions (c : KvCache) (s : SeqId) : Set Int := (c.cellsOf (c.seqToStream s)).positions s

def memoryPos (c : KvCache) : MemoryPos where
  seqPosMin := fun s => (c.cellsOf (c.seqToStream s)).seqPosMin s
  seqPosMax := fun s => (c.cellsOf (c.seqToStream s)).seqPosMax s

/-- A slot for the tokens of a ubatch. With several streams the tokens of a sequence form a block. -/
structure Fits (kvSize : Nat) (c : KvCache) (sl : SlotInfo) (u : Ubatch) : Prop where
  wf : Wf kvSize c
  ubatch : UbatchOk c u
  found : Found c (c.slotTokens u) sl
  strm : sl.strm = (c.slotSeqs u).map c.seqToStream
  length : u.seqId.length = u.nTokens
  seq : ∀ k < u.nTokens, u.seqId.getD k [] ≠ []
  pos : ∀ k < u.nTokens, 0 ≤ u.tokenPos k
  blocks : 1 < c.nStream → u.nTokens = u.seqIdUnq.length * c.slotTokens u ∧
    ∀ k < u.nTokens, u.seqId.getD k [] = [u.seqIdUnq.getD (k / c.slotTokens u) 0]

/-- After a failure the ubatch is out of the cache: no token is left in any of its sequences, and where the positions of
the ubatch passed the checks before, they pass them again. -/
structure RolledBack (c c' : KvCache) (u : Ubatch) : Prop where
  removed : ∀ k < u.nTokens, ∀ s ∈ u.seqId.getD k [], u.tokenPos k ∉ c'.seqPositions s
  accepted : ∀ nPosPerEmbd hasToken, ∀ k < u.nTokens, ∀ s ∈ u.seqId.getD k [],
    LlamaBatch.PosOk nPosPerEmbd hasToken (some c.memoryPos) u.seqId u.pos s →
    LlamaBatch.PosOk nPosPerEmbd hasToken (some c'.memoryPos) u.seqId u.pos s

/-- Token `k` is removed from sequence `s`: by the error path, as a token with `s` in front has no later position, or
before, as the slot overwrites that or a later position. -/
def Reached (c : KvCache) (sl : SlotInfo) (u : Ubatch) (k : Nat) (s : SeqId) : Prop :=
  (u.tokenPos k < int32Max ∧ ∃ i < u.nTokens, u.firstSeq i = s ∧ u.tokenPos i ≤ u.tokenPos k) ∨
    c.Overwrites sl s (u.tokenPos k)

section
variable {c : KvCache} {u : Ubatch} {sl : SlotInfo} {kvSize : Nat}

lemma rollback_foldl (hs : Shape kvSize c) (h : ∀ t, Inv (c.cellsOf t)) : PurgeKeep c (c.rollback u) ∧
    ∀ t i r, r ∈ ((c.rollback u).cell t i).seq ↔ r ∈ (c.cell t i).seq ∧ ¬ (t = c.seqToStream r ∧
      u.seqPosMin r ≠ int32Max ∧ rangeLo (u.seqPosMin r) ≤ (c.cell t i).pos ∧ (c.cell t i).pos < llamaPosMax) := by
  have hall := @cuts_foldl c kvSize (fun c s => if u.seqPosMin s = int32Max then c
      else c.seqRm (some s) (u.seqPosMin s) (-1))
    (fun r p => u.seqPosMin r ≠ int32Max ∧ rangeLo (u.seqPosMin r) ≤ p ∧ p < llamaPosMax)
    ?_ ?_ (List.finRange llamaMaxSeq) hs h
  · simpa [rollback] using hall
  · intro c hs h q
    split
    · exact ⟨Keeps.refl c, rfl, h, fun _ => rfl, fun _ _ => Cell.Cut.refl _⟩
    · refine ⟨keeps_seqRm _ _ _ _, scInfo_seqRm _ _ _ _, inv_seqRm _ _ _ hs h, hasShift_seqRm_some _ _ _ hs, ?_⟩
      intro t i
      rw [cell_seqRm_some _ _ _ hs]
      split
      · exact cut_cutSeq _ _ _ _
      · exact Cell.Cut.refl _
  · intro c hs h q t i r
    by_cases hq : u.seqPosMin q = int32Max
    · rw [if_pos hq]
      refine ⟨fun hr => ⟨hr, ?_⟩, fun h => h.1⟩
      rintro ⟨rfl, -, hne, -⟩
      exact hne hq
    · rw [if_neg hq, cell_seqRm_some _ _ _ hs]
      split
      · rename_i ht
        rw [mem_cutSeq]
        refine and_congr_right fun _ => not_congr ⟨?_, ?_⟩
        · rintro ⟨rfl, hlo, hhi⟩
          exact ⟨rfl, ht, hq, hlo, hhi⟩
        · rintro ⟨rfl, -, -, hlo, hhi⟩
          exact ⟨rfl, hlo, hhi⟩
      · rename_i ht
        refine ⟨fun hr => ⟨hr, ?_⟩, fun h => h.1⟩
        rintro ⟨rfl, ht', -⟩
        exact ht ht'

lemma Fits.nodup (h : Fits kvSize c sl u) : (sl.entries.map Prod.snd).Nodup :=
  h.found.nodup (h.strm ▸ nodup_slotSeqs h.ubatch.seqs)

lemma Fits.tokenOk (h : Fits kvSize c sl u) : ∀ e ∈ sl.entries, u.TokenOk e.1 :=
  fun _ he => h.ubatch.token _ (lt_nTokens_of_mem_entries h.found h.strm he)

variable {k : Nat} {s : SeqId} {p : Int}

lemma Fits.exists_entry (h : Fits kvSize c sl u) (hk : k < u.nTokens) : ∃ e ∈ sl.entries, e.1 = k := by
  have hsize := h.found.size
  have hcount : k < sl.strm.length * c.slotTokens u := by
    by_cases hn : 1 < c.nStream
    · rw [h.strm, length_map, show c.slotSeqs u = u.seqIdUnq from if_pos hn, ← (h.blocks hn).1]
      exact hk
    · have htok : c.slotTokens u = u.nTokens := if_neg hn
      rw [htok]
      exact lt_of_lt_of_le hk (Nat.le_mul_of_pos_left _ h.found.nonempty)
  have hpos : 0 < c.slotTokens u := by
    by_contra hzero
    rw [Nat.eq_zero_of_not_pos hzero, mul_zero] at hcount
    exact absurd hcount (Nat.not_lt_zero k)
  have hmem : (k / c.slotTokens u * c.slotTokens u + k % c.slotTokens u, sl.strm.getD (k / c.slotTokens u) 0,
      (sl.idxs.getD (k / c.slotTokens u) []).getD (k % c.slotTokens u) 0) ∈ sl.entries := by
    simp only [SlotInfo.entries, mem_flatMap, mem_map, mem_range, hsize]
    exact ⟨k / c.slotTokens u, Nat.div_lt_of_lt_mul (Nat.mul_comm _ _ ▸ hcount), k % c.slotTokens u,
      Nat.mod_lt _ hpos, rfl⟩
  exact ⟨_, hmem, Nat.div_add_mod' k _⟩

lemma Fits.wf_applyUbatch (h : Fits kvSize c sl u) : Wf kvSize (c.applyUbatch sl u) := by
  refine h.wf.applyUbatch h.found ?_ (h.strm ▸ nodup_slotSeqs h.ubatch.seqs) h.tokenOk
  by_contra hzero
  obtain ⟨_, he, -⟩ := h.exists_entry h.ubatch.tokens
  rw [SlotInfo.entries, h.found.size, Nat.eq_zero_of_not_pos hzero] at he
  simp at he

lemma mem_seqPositions : p ∈ c.seqPositions s ↔
    ∃ i, s ∈ (c.cell (c.seqToStream s) i).seq ∧ (c.cell (c.seqToStream s) i).pos = p :=
  ⟨fun ⟨i, _, hi, hp⟩ => ⟨i, hi, hp⟩, fun ⟨i, hi, hp⟩ => ⟨i, lt_size_of_mem_seq hi, hi, hp⟩⟩

lemma seqPosMax_spec (h : ∀ t, Inv (c.cellsOf t)) (s : SeqId) :
    (c.seqPositions s = ∅ ∧ c.memoryPos.seqPosMax s = -1) ∨ IsGreatest (c.seqPositions s) (c.memoryPos.seqPosMax s) :=
  (h (c.seqToStream s)).seqPosMax_spec s

lemma PurgeKeep.mem_seqPositions_iff {c' : KvCache} (h : PurgeKeep c c') {P : Int → Prop}
    (hmem : ∀ i, s ∈ (c'.cell (c.seqToStream s) i).seq ↔
      s ∈ (c.cell (c.seqToStream s) i).seq ∧ ¬ P (c.cell (c.seqToStream s) i).pos) :
    p ∈ c'.seqPositions s ↔ p ∈ c.seqPositions s ∧ ¬ P p := by
  -- a cell that still holds the sequence kept its position
  have hpos : ∀ i, s ∈ (c'.cell (c.seqToStream s) i).seq →
      (c'.cell (c.seqToStream s) i).pos = (c.cell (c.seqToStream s) i).pos := by
    intro i hi
    refine (h.cut _ i).pos_eq fun hneg => ?_
    rw [cell, ((h.inv _).empty i hneg).1] at hi
    exact absurd hi (Finset.notMem_empty s)
  rw [mem_seqPositions, mem_seqPositions, seqToStream_congr h.keeps.params]
  constructor
  · rintro ⟨i, hi, rfl⟩
    obtain ⟨hi', hno⟩ := (hmem i).1 hi
    rw [hpos i hi]
    exact ⟨⟨i, hi', rfl⟩, hno⟩
  · rintro ⟨⟨i, hi, rfl⟩, hno⟩
    have hi' := (hmem i).2 ⟨hi, hno⟩
    exact ⟨i, hi', hpos i hi'⟩

lemma mem_rollback_iff (hs : Shape kvSize c) (h : ∀ t, Inv (c.cellsOf t)) :
    p ∈ (c.rollback u).seqPositions s ↔ p ∈ c.seqPositions s ∧
      ¬ (u.seqPosMin s ≠ int32Max ∧ rangeLo (u.seqPosMin s) ≤ p ∧ p < llamaPosMax) := by
  obtain ⟨hkeep, hmem⟩ := rollback_foldl (u := u) hs h
  refine hkeep.mem_seqPositions_iff (P := fun p => u.seqPosMin s ≠ int32Max ∧ rangeLo (u.seqPosMin s) ≤ p ∧
    p < llamaPosMax) fun i => ?_
  rw [hmem, and_iff_right (rfl : c.seqToStream s = c.seqToStream s)]

section
variable (h : Fits kvSize c sl u)
include h

lemma Fits.mem_applyUbatch_iff : p ∈ (c.applyUbatch sl u).seqPositions s ↔
      (∃ i, s ∈ (c.written sl u (c.seqToStream s) i).seq ∧ (c.written sl u (c.seqToStream s) i).pos = p) ∧
      ¬ (0 ≤ p ∧ c.Overwrites sl s p) := by
  have hs := h.wf.shape
  have htk := tokensKeep_applyTokens hs h.found h.tokenOk
  have hst := htk.only.shape hs
  have hinv := htk.inv h.wf.inv
  have hm := posMax_ge (c := c) (u := u) h.nodup
  have hpurge : p ∈ ((c.applyTokens sl u).1.purge (c.applyTokens sl u).2).seqPositions s ↔
      p ∈ (c.applyTokens sl u).1.seqPositions s ∧ ¬ (0 ≤ p ∧ p ≤ (c.applyTokens sl u).2 s) := by
    refine (purgeKeep_purge hm hst hinv).mem_seqPositions_iff
      (P := fun p => 0 ≤ p ∧ p ≤ (c.applyTokens sl u).2 s) fun i => ?_
    rw [mem_seq_purge hm hst hinv, and_iff_right (rfl : (c.applyTokens sl u).1.seqToStream s = _)]
  have hmove : (c.applyUbatch sl u).seqPositions s =
      ((c.applyTokens sl u).1.purge (c.applyTokens sl u).2).seqPositions s := by
    ext q
    rw [mem_seqPositions, mem_seqPositions, applyUbatch]
    simp only [cell_moveHeads]
    rw [seqToStream_congr (cellsOnly_moveHeads _ sl).params]
  rw [hmove, hpurge, mem_seqPositions, seqToStream_congr htk.only.params]
  simp only [cell_applyTokens (u := u) hs (fun e he => h.found.lt hs ⟨e, he, rfl⟩) h.nodup]
  exact and_congr_right fun _ => not_congr (and_congr_right fun h0 => le_posMax_of_nonneg h.nodup s h0)

lemma Fits.seqToStream_eq {e : Nat × Nat × Nat} (he : e ∈ sl.entries)
    (hs : s ∈ u.seqId.getD e.1 []) : c.seqToStream s = e.2.1 := by
  have hlt := lt_nTokens_of_mem_entries h.found h.strm he
  simp only [SlotInfo.entries, mem_flatMap, mem_map, mem_range] at he
  obtain ⟨b, hb, ii, hii, rfl⟩ := he
  rw [h.strm, length_map] at hb
  dsimp only at hs hlt ⊢
  rw [h.strm, getD_eq_getElem _ _ (by rw [length_map]; exact hb), getElem_map]
  rw [h.found.size] at hii hs hlt
  by_cases hn : 1 < c.nStream
  · obtain ⟨-, hblock⟩ := h.blocks hn
    have hdiv : (b * c.slotTokens u + ii) / c.slotTokens u = b := by
      rw [Nat.add_comm, Nat.add_mul_div_right _ _ (Nat.lt_of_le_of_lt (Nat.zero_le _) hii), Nat.div_eq_of_lt hii,
        zero_add]
    rw [hblock _ hlt, hdiv, mem_singleton] at hs
    have hseqs : c.slotSeqs u = u.seqIdUnq := if_pos hn
    have hb' : b < u.seqIdUnq.length := hseqs ▸ hb
    rw [hs, getD_eq_getElem _ _ hb']
    simp only [hseqs]
  · have hzero : ∀ q, c.seqToStream q = 0 := fun q => if_neg fun hq => hn hq.1
    rw [hzero, hzero]

lemma Fits.written_iff :
    (∃ i, s ∈ (c.written sl u (c.seqToStream s) i).seq ∧ (c.written sl u (c.seqToStream s) i).pos = p) ↔
      (∃ k < u.nTokens, s ∈ u.seqId.getD k [] ∧ u.tokenPos k = p) ∨
      ∃ i, ¬ sl.Has (c.seqToStream s) i ∧ s ∈ (c.cell (c.seqToStream s) i).seq ∧ (c.cell (c.seqToStream s) i).pos = p := by
  have hcell : ∀ e ∈ sl.entries, (c.written sl u e.2.1 e.2.2).pos = u.tokenPos e.1 ∧
      ∀ s, s ∈ (c.written sl u e.2.1 e.2.2).seq ↔ s ∈ u.seqId.getD e.1 [] := by
    intro e he
    rw [written_of_mem h.nodup he]
    refine ⟨rfl, fun s => ?_⟩
    have hnone : (if (c.cell e.2.1 e.2.2).pos = -1 then c.cell e.2.1 e.2.2 else ({} : Cell)).seq = ∅ := by
      split
      · rename_i hneg
        exact ((h.wf.inv e.2.1).empty e.2.2 hneg).1
      · rfl
    rw [tokenCell]
    dsimp only
    rw [hnone, Finset.union_empty, mem_toFinset]
  constructor
  · rintro ⟨i, hi, rfl⟩
    by_cases hhas : sl.Has (c.seqToStream s) i
    · obtain ⟨e, he, heq⟩ := hhas
      obtain ⟨ht, rfl⟩ := Prod.mk.inj heq
      obtain ⟨hp, hseq⟩ := hcell e he
      rw [← ht] at hi ⊢
      exact .inl ⟨e.1, lt_nTokens_of_mem_entries h.found h.strm he, (hseq s).1 hi, hp.symm⟩
    · rw [written_of_not_has hhas] at hi ⊢
      exact .inr ⟨i, hhas, hi, rfl⟩
  · rintro (⟨k, hk, hs, rfl⟩ | ⟨i, hhas, hi, rfl⟩)
    · obtain ⟨e, he, rfl⟩ := h.exists_entry hk
      obtain ⟨hp, hseq⟩ := hcell e he
      rw [h.seqToStream_eq he hs]
      exact ⟨e.2.2, (hseq s).2 hs, hp⟩
    · refine ⟨i, ?_⟩
      rw [written_of_not_has hhas]
      exact ⟨hi, rfl⟩

lemma Fits.mem_seqPositions_iff (hp : 0 ≤ p) : p ∈ ((c.applyUbatch sl u).rollback u).seqPositions s ↔
      ((∃ k < u.nTokens, s ∈ u.seqId.getD k [] ∧ u.tokenPos k = p) ∨
        ∃ i, ¬ sl.Has (c.seqToStream s) i ∧ s ∈ (c.cell (c.seqToStream s) i).seq ∧
          (c.cell (c.seqToStream s) i).pos = p) ∧ ¬ c.Overwrites sl s p ∧
      ¬ (p < int32Max ∧ ∃ i < u.nTokens, u.firstSeq i = s ∧ u.tokenPos i ≤ p) := by
  have hhit : u.seqPosMin s ≠ int32Max ∧ rangeLo (u.seqPosMin s) ≤ p ∧ p < llamaPosMax ↔
      p < int32Max ∧ ∃ i < u.nTokens, u.firstSeq i = s ∧ u.tokenPos i ≤ p := by
    have hlo : rangeLo (u.seqPosMin s) ≤ p ↔ u.seqPosMin s ≤ p := by
      unfold rangeLo
      split <;> omega
    have hmax : llamaPosMax = int32Max := rfl
    rw [hlo, seqPosMin_le_iff, hmax]
    constructor
    · rintro ⟨-, hle | hex, hlt⟩
      · omega
      · exact ⟨hlt, hex⟩
    · rintro ⟨hlt, hex⟩
      have hmin : u.seqPosMin s ≤ p := seqPosMin_le_iff.2 (.inr hex)
      exact ⟨by omega, .inr hex, hlt⟩
  have hkeep : Keeps c (c.applyUbatch sl u) := keeps_applyUbatch c sl u
  rw [mem_rollback_iff (hkeep.shape h.wf.shape) h.wf_applyUbatch.inv, h.mem_applyUbatch_iff, h.written_iff, hhit,
    and_assoc, and_iff_right hp]

lemma Fits.removed_iff (hk : k < u.nTokens) (hs : s ∈ u.seqId.getD k []) :
    u.tokenPos k ∉ ((c.applyUbatch sl u).rollback u).seqPositions s ↔ c.Reached sl u k s := by
  rw [h.mem_seqPositions_iff (h.pos k hk), and_iff_right (.inl ⟨k, hk, hs, rfl⟩), ← not_or, not_not, or_comm]
  rfl

lemma Fits.overwrites {i : Nat} (hhas : sl.Has (c.seqToStream s) i)
    (hs : s ∈ (c.cell (c.seqToStream s) i).seq) : c.Overwrites sl s (c.cell (c.seqToStream s) i).pos := by
  have huse : c.canUse (c.cellsOf (c.seqToStream s)) i = true := by
    obtain ⟨b, hb, ht, hi⟩ := h.found.has_iff.1 hhas
    have := (h.found.cells b hb).usable i hi
    rwa [ht] at this
  have hne : (c.cell (c.seqToStream s) i).pos ≠ -1 := by
    intro hneg
    rw [cell, ((h.wf.inv _).empty i hneg).1] at hs
    exact absurd hs (Finset.notMem_empty s)
  -- an occupied cell of the slot has a single sequence
  have hcard : (c.cell (c.seqToStream s) i).seq.card = 1 := by
    rcases Bool.or_eq_true_iff.1 huse with hempty | hone
    · exact absurd (of_decide_eq_true hempty) hne
    · exact of_decide_eq_true (Bool.and_eq_true_iff.1 hone).1
  obtain ⟨r, hr⟩ := Finset.card_eq_one.1 hcard
  have hfirst : (c.cell (c.seqToStream s) i).first = some s := by
    rw [hr, Finset.mem_singleton] at hs
    subst hs
    simp [Cell.first, hr]
  obtain ⟨e, he, heq⟩ := hhas
  refine ⟨e, he, ?_⟩
  rw [heq]
  exact ⟨hne, hfirst, Int.le_refl _⟩

end

lemma seqPosMin_le_tokenPos (hs : s ∈ u.seqId.getD k []) :
    LlamaBatch.seqPosMin u.seqId u.pos s ≤ u.tokenPos k := by
  have hmem : u.tokenPos k ∈ LlamaBatch.seqPos u.seqId u.pos s := LlamaBatch.mem_seqPos.2 ⟨k, hs, rfl⟩
  rw [LlamaBatch.seqPosMin, dif_pos ⟨_, hmem⟩]
  exact Finset.min'_le _ _ hmem

lemma posOk_of_positions {c' : KvCache} {nPosPerEmbd : Nat} {hasToken : Bool} {seqId : List (List SeqId)} {pos : List Int} (hinv : ∀ t, Inv (c.cellsOf t)) (hinv' : ∀ t, Inv (c'.cellsOf t))
    (hold : ∀ p, 0 ≤ p → p ∈ c'.seqPositions s → p ∈ c.seqPositions s)
    (hlast : ∀ p, 0 ≤ p → p ∈ c'.seqPositions s → ∀ q ∈ c.seqPositions s, p ≤ q →
      LlamaBatch.seqPosMin seqId pos s = q + 1 → q ∈ c'.seqPositions s)
    (hok : LlamaBatch.PosOk nPosPerEmbd hasToken (some c.memoryPos) seqId pos s) :
    LlamaBatch.PosOk nPosPerEmbd hasToken (some c'.memoryPos) seqId pos s := by
  unfold LlamaBatch.PosOk at hok ⊢
  dsimp only [Option.elim_some] at hok ⊢
  rcases seqPosMax_spec hinv' s with ⟨-, hneg⟩ | hmax'
  · -- nothing is left
    have hno : ¬ 0 ≤ c'.memoryPos.seqPosMax s := by omega
    split
    · split <;> exact fun h => hno h.1
    · rename_i hone
      rw [if_neg hone] at hok
      exact ⟨fun h0 => absurd h0 hno, hok.2⟩
  · have hmax : 0 ≤ c'.memoryPos.seqPosMax s → IsGreatest (c.seqPositions s) (c.memoryPos.seqPosMax s) := by
      intro h0
      rcases seqPosMax_spec hinv s with ⟨hempty, -⟩ | hmax
      · have hmem := hold _ h0 hmax'.1
        rw [hempty] at hmem
        exact absurd hmem (Set.notMem_empty _)
      · exact hmax
    have hle : 0 ≤ c'.memoryPos.seqPosMax s → c'.memoryPos.seqPosMax s ≤ c.memoryPos.seqPosMax s :=
      fun h0 => (hmax h0).2 (hold _ h0 hmax'.1)
    split
    · rename_i hmany
      rw [if_pos hmany] at hok
      cases hasToken with
      | true => exact fun h => hok ⟨h.1.trans (hle h.1), h.2.trans (hle h.1)⟩
      | false => exact fun h => hok ⟨h.1.trans (hle h.1), h.2.trans_le (hle h.1)⟩
    · rename_i hone
      rw [if_neg hone] at hok
      refine ⟨fun h0 => ?_, hok.2⟩
      have hnext := hok.1 (h0.trans (hle h0))
      rw [hnext, (hle h0).antisymm (hmax'.2 (hlast _ h0 hmax'.1 _ (hmax h0).1 (hle h0) hnext))]

lemma Fits.posOk (h : Fits kvSize c sl u) (hremoved : ∀ k < u.nTokens, ∀ s ∈ u.seqId.getD k [],
      u.tokenPos k ∉ ((c.applyUbatch sl u).rollback u).seqPositions s) {nPosPerEmbd : Nat} {hasToken : Bool}
    (hok : LlamaBatch.PosOk nPosPerEmbd hasToken (some c.memoryPos) u.seqId u.pos s) :
    LlamaBatch.PosOk nPosPerEmbd hasToken (some ((c.applyUbatch sl u).rollback u).memoryPos) u.seqId u.pos s := by
  -- what is left was there before
  have hold : ∀ p, 0 ≤ p → p ∈ ((c.applyUbatch sl u).rollback u).seqPositions s →
      p ∈ c.seqPositions s ∧ ¬ c.Overwrites sl s p := by
    intro p hp hmem
    obtain ⟨hwritten, hno, -⟩ := (h.mem_seqPositions_iff hp).1 hmem
    rcases hwritten with ⟨k, hk, hs, hpos⟩ | ⟨i, -, hi, hpos⟩
    · exact absurd (hpos ▸ hmem) (hremoved k hk s hs)
    · exact ⟨mem_seqPositions.2 ⟨i, hi, hpos⟩, hno⟩
  refine posOk_of_positions h.wf.inv (rollback_foldl h.wf_applyUbatch.shape h.wf_applyUbatch.inv).1.inv
    (fun p hp hmem => (hold p hp hmem).1) (fun p hp hmem q hq hle hnext => ?_) hok
  have hno := (hold p hp hmem).2
  rw [h.mem_seqPositions_iff (hp.trans hle)]
  refine ⟨.inr ?_, fun hov => hno (hov.mono hle), ?_⟩
  · obtain ⟨i, hi, hpos⟩ := mem_seqPositions.1 hq
    exact ⟨i, fun hhas => hno ((h.overwrites hhas hi).mono (hpos ▸ hle)), hi, hpos⟩
  · rintro ⟨-, i, hi, hfirst, hpos⟩
    have hs : s ∈ u.seqId.getD i [] := by
      cases hids : u.seqId.getD i [] with
      | nil => exact absurd hids (h.seq i hi)
      | cons r rest =>
        rw [firstSeq, hids] at hfirst
        exact hfirst ▸ mem_cons_self
    have := seqPosMin_le_tokenPos hs
    omega

/-- After a failure the ubatch is out of the cache exactly when every token is removed from each of its sequences. -/
theorem rolledBack_iff (h : Fits kvSize c sl u) : RolledBack c ((c.applyUbatch sl u).rollback u) u ↔
    ∀ k < u.nTokens, ∀ s ∈ u.seqId.getD k [], c.Reached sl u k s := by
  constructor
  · intro hback k hk s hs
    exact (h.removed_iff hk hs).1 (hback.removed k hk s hs)
  · intro hreach
    have hremoved : ∀ k < u.nTokens, ∀ s ∈ u.seqId.getD k [],
        u.tokenPos k ∉ ((c.applyUbatch sl u).rollback u).seqPositions s :=
      fun k hk s hs => (h.removed_iff hk hs).2 (hreach k hk s hs)
    exact ⟨hremoved, fun _ _ _ _ _ _ hok => h.posOk hremoved hok⟩

end

end KvCache

namespace Rollback

open KvCache DryRun

def unified : KvCache := KvCache.init false true false 4 2 0 .none 1 0

/-- A token of the sequences 0 and 1. -/
def shared : Ubatch := { nTokens := 1, nPos := 1, pos := [0], seqId := [[0, 1]], seqIdUnq := [0, 1] }

/-- The token of both sequences comes behind one of sequence 1. -/
def led : Ubatch := { nTokens := 2, nPos := 1, pos := [0, 1], seqId := [[1], [0, 1]], seqIdUnq := [1, 0] }

def firstTwo : SlotInfo := { s0 := 0, s1 := 0, strm := [0], idxs := [[0, 1]] }

lemma fits_unified {u : Ubatch} {sl : SlotInfo} (hslot : unified.findSlot u false = .ok (some sl))
    (hok : 0 < u.nTokens ∧ u.seqIdUnq.Nodup ∧ u.seqId.length = u.nTokens ∧ ∀ k < u.nTokens,
      (u.seqId.getD k []).Nodup ∧ u.seqId.getD k [] ≠ [] ∧ 0 ≤ u.tokenPos k) : Fits 4 unified sl u := by
  obtain ⟨hn, hnd, hlen, htoken⟩ := hok
  have hwf : Wf 4 unified := (steady_init _ _ _ 4 _ _ _ _ (by decide)).wf
  have hone : ¬ 1 < unified.nStream := by decide
  obtain ⟨hf, hstrm⟩ := found_of_findSlot hwf.shape hwf.head_le hslot
  refine ⟨hwf, ⟨hn, ⟨hnd, fun h => absurd h hone⟩, fun k hk => ⟨?_, (htoken k hk).1⟩⟩, hf, hstrm, hlen,
    fun k hk => (htoken k hk).2.1, fun k hk => (htoken k hk).2.2, fun h => absurd h hone⟩
  have hpos : 0 ≤ u.pos.getD k 0 := (htoken k hk).2.2
  omega

lemma fits_shared : Fits 4 unified (cellZero 0) shared := fits_unified (by decide +kernel) (by decide)

end Rollback

open Rollback DryRun in
/-- Each sequence of a failed ubatch is in front at one of its tokens: both tokens are rolled back. -/
theorem KvCache.rolledBack_led : RolledBack unified ((unified.applyUbatch firstTwo led).rollback led) led := by
  refine (rolledBack_iff (fits_unified (by decide +kernel) (by decide))).2 ?_
  have hfirst : ∀ k < 2, ∀ s ∈ led.seqId.getD k [], led.tokenPos k < int32Max ∧
      ∃ i < led.nTokens, led.firstSeq i = s ∧ led.tokenPos i ≤ led.tokenPos k := by decide +kernel
  exact fun k hk s hs => .inl (hfirst k hk s hs)

open Rollback DryRun in
/-- A failed token of two sequences stays in the cache for the second one. -/
theorem KvCache.not_rolledBack_shared : ¬ ∀ (kvSize : Nat) (c : KvCache) (sl : SlotInfo) (u : Ubatch),
    Fits kvSize c sl u → RolledBack c ((c.applyUbatch sl u).rollback u) u := by
  intro h
  have hback := h 4 unified (cellZero 0) shared fits_shared
  have hmem : (1 : SeqId) ∈ shared.seqId.getD 0 [] := by decide
  rcases (fits_shared.removed_iff one_pos hmem).1 (hback.removed 0 one_pos 1 hmem) with ⟨-, i, hi, hfirst, -⟩ | hov
  · obtain rfl : i = 0 := Nat.lt_one_iff.1 hi
    exact absurd hfirst (by decide)
  · obtain ⟨e, -, hne, -⟩ := hov
    have hempty : unified.cell e.2.1 e.2.2 = {} := cell_init _ _ _ _ _ _ _ _ _ _ _
    rw [hempty] at hne
    exact hne rfl

end Mallana
