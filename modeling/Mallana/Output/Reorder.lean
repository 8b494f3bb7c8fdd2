import Mallana.Output.Basic

/-!
# Outputs in the order of the batch

The rows of the output buffers stand in the order of the ubatches (`decode_eq`), the recorded exchanges sort them, and
`output_ids` agrees with the sorted order. `output_reorder` exchanges the rows of the embeddings with the width of the
model's embeddings instead of its output embeddings: if the two differ, the exchanges miss the rows.
-/

namespace Mallana

open Lib List Option

/-- A buffer with rows for some tokens, and old contents behind them. -/
def filled (row : Nat → Nat → UInt32) (stride : Nat) (tokens : List Nat) (old : Nat → UInt32) : Nat → UInt32 :=
  fun x => if x < tokens.length * stride then row (tokens.getD (x / stride) 0) (x % stride) else old x

section Filled
variable {row : Nat → Nat → UInt32} {stride : Nat} {tokens more : List Nat} {old : Nat → UInt32} {size : Nat}

lemma filled_row {r k : Nat} (hr : r < tokens.length) (hk : k < stride) :
    filled row stride tokens old (r * stride + k) = row (tokens.getD r 0) k := by
  have hpos : 0 < stride := Nat.lt_of_le_of_lt (Nat.zero_le k) hk
  rw [filled, if_pos (row_lt hr hk (le_refl _)), add_comm, Nat.add_mul_div_right _ _ hpos, Nat.div_eq_of_lt hk,
    zero_add, Nat.add_mul_mod_self_right, Nat.mod_eq_of_lt hk]

lemma get_filled : BufferView.get ⟨filled row stride tokens old, size⟩ (rowsTensor row stride more)
    (tokens.length * stride) (more.length * stride) = ⟨filled row stride (tokens ++ more) old, size⟩ := by
  have hpos : ∀ {x q}, x < q * stride → 0 < stride := by
    intro x q hx
    by_contra hzero
    rw [Nat.eq_zero_of_not_pos hzero, mul_zero] at hx
    exact absurd hx (Nat.not_lt_zero x)
  rw [BufferView.get]
  congr 1
  funext x
  unfold filled
  dsimp only
  rw [length_append, add_mul]
  rcases lt_or_ge x (tokens.length * stride) with hlt | hge
  · have hdiv : x / stride < tokens.length := (Nat.div_lt_iff_lt_mul (hpos hlt)).2 hlt
    rw [if_neg (by omega), if_pos hlt, if_pos (by omega), getD_append _ _ _ _ hdiv]
  · obtain ⟨y, rfl⟩ := Nat.exists_eq_add_of_le hge
    by_cases hin : y < more.length * stride
    · have hdiv : (tokens.length * stride + y) / stride = tokens.length + y / stride := by
        rw [add_comm, Nat.add_mul_div_right _ _ (hpos hin), add_comm]
      have hmod : (tokens.length * stride + y) % stride = y % stride := by
        rw [add_comm, Nat.add_mul_mod_self_right]
      rw [if_pos ⟨hge, by omega⟩, if_pos (by omega), rowsTensor, hdiv, hmod, Nat.add_sub_cancel_left,
        getD_append_right _ _ _ _ (Nat.le_add_right _ _), Nat.add_sub_cancel_left]
    · rw [if_neg (by omega), if_neg (by omega), if_neg (by omega)]

end Filled

namespace SplitBatch

variable {c : OutputParams} {b : SplitBatch}

def sortedIds (c : OutputParams) (b : SplitBatch) : List Nat := (List.range b.nTokens).filter (b.isOutput c)

lemma outIds_perm : (b.outIds c).Perm (b.sortedIds c) := b.perm.filter _

lemma length_outIds : (b.outIds c).length = b.nOutputsAll c := outIds_perm.length_eq

lemma nodup_outIds : (b.outIds c).Nodup := outIds_perm.nodup_iff.2 (nodup_range.filter _)

lemma sortedIds_lt {k l : Nat} (hkl : k < l) (hl : l < b.nOutputsAll c) :
    (b.sortedIds c).getD k 0 < (b.sortedIds c).getD l 0 := by
  have hsorted : (b.sortedIds c).Pairwise (· < ·) := pairwise_lt_range.filter _
  have hk : k < (b.sortedIds c).length := lt_trans hkl hl
  rw [getD_eq_getElem _ _ hk, getD_eq_getElem (b.sortedIds c) 0 hl]
  exact pairwise_iff_getElem.1 hsorted k l hk hl hkl

lemma sortedIds_inj {k l : Nat} (hk : k < b.nOutputsAll c) (hl : l < b.nOutputsAll c)
    (h : (b.sortedIds c).getD k 0 = (b.sortedIds c).getD l 0) : k = l := by
  rcases lt_trichotomy k l with hlt | rfl | hgt
  · exact absurd h (ne_of_lt (sortedIds_lt hlt hl))
  · rfl
  · exact absurd h.symm (ne_of_lt (sortedIds_lt hgt hk))

lemma arranges_outIds : Arranges (b.nOutputsAll c) ((b.sortedIds c).getD · 0) ((b.outIds c).getD · 0) := by
  have hmem : ∀ {l l' : List Nat}, (∀ x ∈ l, x ∈ l') → ∀ k < l.length, ∃ j < l'.length, l.getD k 0 = l'.getD j 0 := by
    intro l l' hsub k hk
    rw [getD_eq_getElem _ _ hk]
    obtain ⟨j, hj, heq⟩ := getElem_of_mem (hsub _ (getElem_mem hk))
    exact ⟨j, hj, by rw [getD_eq_getElem _ _ hj, heq]⟩
  have hlen : (b.sortedIds c).length = b.nOutputsAll c := rfl
  refine ⟨fun k hk => ?_, fun l hl => ?_, fun k l hk hl heq => ?_⟩
  · exact hmem (fun x hx => outIds_perm.mem_iff.1 hx) k (length_outIds ▸ hk)
  · obtain ⟨k, hk, heq⟩ := hmem (fun x hx => (outIds_perm (c := c) (b := b)).mem_iff.2 hx) l hl
    exact ⟨k, length_outIds ▸ hk, heq.symm⟩
  · rw [← length_outIds] at hk hl
    simp only [getD_eq_getElem _ _ hk, getD_eq_getElem _ _ hl] at heq
    exact (List.Nodup.getElem_inj_iff nodup_outIds).1 heq

end SplitBatch

namespace Outputs

variable {c : OutputParams} {b : SplitBatch} {old : Nat → UInt32} {logitsRow embdRow : Nat → Nat → UInt32}

def withRows (c : OutputParams) (b : SplitBatch) (old : Nat → UInt32) (logitsRow embdRow : Nat → Nat → UInt32)
    (tokens : List Nat) : Outputs :=
  let s := outputReserve c (b.nOutputsAll c) old
  { s with
    logits := ⟨filled logitsRow c.nVocab tokens s.logits.data, s.logits.size⟩
    embd := if c.embeddings then ⟨filled embdRow c.nEmbdOut tokens s.embd.data, s.embd.size⟩ else s.embd }

lemma withRows_nil : withRows c b old logitsRow embdRow [] = outputReserve c (b.nOutputsAll c) old := by
  have hfilled : ∀ (row : Nat → Nat → UInt32) (stride : Nat) (d : Nat → UInt32), filled row stride [] d = d := by
    intro row stride d
    funext x
    rw [filled, if_neg (by simp)]
  unfold withRows
  simp only [hfilled]
  split <;> rfl

lemma extract_withRows {tokens ubatch : List Nat}
    (hall : b.nOutputsAll c = b.nTokens → (ubatch.filter (b.isOutput c)) = ubatch)
    (hle : (tokens ++ ubatch.filter (b.isOutput c)).length ≤ b.nOutputsAll c) :
    extract c b logitsRow embdRow (withRows c b old logitsRow embdRow tokens, tokens.length) ubatch =
      some (withRows c b old logitsRow embdRow (tokens ++ ubatch.filter (b.isOutput c)),
        (tokens ++ ubatch.filter (b.isOutput c)).length) := by
  obtain ⟨more, hmore⟩ : ∃ more, more = ubatch.filter (b.isOutput c) := ⟨_, rfl⟩
  have hcount : (if b.nOutputsAll c = b.nTokens then ubatch.length else more.length) = more.length := by
    split
    · rename_i hn
      rw [hmore, hall hn]
    · rfl
  rw [extract]
  rw [← hmore] at hle ⊢
  rw [hcount]
  rw [length_append] at hle ⊢
  by_cases hzero : more.length = 0
  · rw [if_pos hzero, eq_nil_of_length_eq_zero hzero, append_nil, length_nil, add_zero]
  · have hmax : b.nOutputsAll c ≤ max (b.nOutputsAll c) c.nSeqMax := le_max_left _ _
    have hlogits : (tokens.length + more.length) * c.nVocab ≤ c.nVocab * max (b.nOutputsAll c) c.nSeqMax := by
      rw [mul_comm]
      exact Nat.mul_le_mul_left _ (hle.trans hmax)
    have hembd : c.embeddings = true → (tokens.length + more.length) * c.nEmbdOut ≤
        (withRows c b old logitsRow embdRow tokens).embd.size := by
      intro hemb
      simp only [withRows, outputReserve, hemb, if_true]
      rw [mul_comm]
      exact Nat.mul_le_mul_left _ (hle.trans hmax)
    rw [if_neg hzero, if_pos ⟨hle, hlogits, hembd⟩]
    congr 2
    unfold withRows
    dsimp only
    rw [get_filled]
    cases c.embeddings with
    | false => rfl
    | true =>
      simp only [if_true]
      rw [get_filled]

lemma filter_ubatch (hn : b.nOutputsAll c = b.nTokens) {ubatch : List Nat} (hub : ubatch ∈ b.ubatches) :
    ubatch.filter (b.isOutput c) = ubatch := by
  have hall : ∀ t ∈ List.range b.nTokens, b.isOutput c t = true := by
    apply length_filter_eq_length_iff.1
    rw [length_range]
    exact hn
  rw [filter_eq_self]
  intro t ht
  apply hall
  exact b.perm.mem_iff.1 (mem_flatten.2 ⟨ubatch, hub, ht⟩)

lemma foldlM_extract (rest pre : List (List Nat)) (hsplit : b.ubatches = pre ++ rest) :
    rest.foldlM (extract c b logitsRow embdRow)
        (withRows c b old logitsRow embdRow (pre.flatten.filter (b.isOutput c)), (pre.flatten.filter (b.isOutput c)).length) =
      some (withRows c b old logitsRow embdRow (b.outIds c), (b.outIds c).length) := by
  induction rest generalizing pre with
  | nil =>
    rw [append_nil] at hsplit
    rw [SplitBatch.outIds, hsplit]
    rfl
  | cons ubatch rest ih =>
    have hub : ubatch ∈ b.ubatches := hsplit ▸ mem_append_right _ mem_cons_self
    have hnext : pre.flatten.filter (b.isOutput c) ++ ubatch.filter (b.isOutput c) =
        (pre ++ [ubatch]).flatten.filter (b.isOutput c) := by
      rw [flatten_append, filter_append, flatten_singleton]
    have hle : (pre.flatten.filter (b.isOutput c) ++ ubatch.filter (b.isOutput c)).length ≤ b.nOutputsAll c := by
      rw [← SplitBatch.length_outIds, SplitBatch.outIds, hsplit, flatten_append, flatten_cons, filter_append,
        filter_append, ← append_assoc]
      exact (sublist_append_left _ _).length_le
    rw [foldlM_cons, extract_withRows (fun hn => filter_ubatch hn hub) hle, hnext]
    refine ih (pre ++ [ubatch]) ?_
    rw [hsplit, append_assoc, singleton_append]

lemma decode_eq : decode c b old logitsRow embdRow = some (mapOutputs (fun i => (b.outIds c).getD i 0)
    { withRows c b old logitsRow embdRow (b.outIds c) with nOutputs := b.nOutputsAll c }) := by
  have hfold := @foldlM_extract c b old logitsRow embdRow b.ubatches [] rfl
  rw [flatten_nil, filter_nil, withRows_nil] at hfold
  rw [decode, ← length_nil, hfold]
  rfl

lemma assignIds_spec {ids : Nat → Nat} {n : Nat} (hinj : ∀ k l, k < n → l < n → ids k = ids l → k = l) (d : Nat → Int) :
    (∀ k < n, assignIds ids n d (ids k) = k) ∧ ∀ t, (∀ k < n, ids k ≠ t) → assignIds ids n d t = d t := by
  refine ⟨fun k hk => ?_, fun t ht => ?_⟩
  · refine (foldl_write (P := fun i => i = k) (v := (k : Int)) (p := ids k) ?_ ?_ d).1 ⟨k, mem_range.2 hk, rfl⟩
    · rintro d i - rfl
      exact Function.update_self _ _ _
    · intro d i hi hik
      exact Function.update_of_ne (fun heq => hik (hinj i k (mem_range.1 hi) hk heq.symm)) _ _
  · refine (foldl_write (P := fun _ => False) (v := (0 : Int)) (p := t) (fun _ _ _ h => h.elim) ?_ d).2 fun _ _ h => h
    intro d i hi _
    exact Function.update_of_ne (ht i (mem_range.1 hi)).symm _ _

lemma mapOutputs_spec {s : Outputs} {n : Nat} {ids sorted : Nat → Nat} (hids : s.outputIds = fun _ => -1)
    (hswaps : s.outputSwaps = []) (hn : s.nOutputs = n) (hs : ∀ k l, k < l → l < n → sorted k < sorted l)
    (ha : Arranges n sorted ids) : ∃ swaps, Selects n sorted 0 ids swaps ∧ mapOutputs ids s = { s with
      outputSwaps := swaps, outputIds := assignIds (replay swaps ids) n fun _ => -1 } := by
  cases s with
  | mk logits embd outputIds outputSwaps nOutputs =>
    subst hids hswaps hn
    rw [mapOutputs]
    dsimp only at hs ha ⊢
    split
    · split
      · obtain ⟨hsel, hrep⟩ := selectionSort_selects hs ha
        refine ⟨_, hsel, ?_⟩
        rw [nil_append, hrep]
      · rename_i hsorted
        refine ⟨[], .done (ha.eq_of_lt hs fun k l hkl hl => ?_), rfl⟩
        -- the outputs are the first tokens, or there is one only
        rcases Decidable.not_and_iff_not_or_not.1 hsorted with hall | hone
        · have hself : ∀ i < nOutputs, ids i = i := by simpa using hall
          rw [hself k (lt_trans hkl hl), hself l hl]
          exact hkl
        · omega
    · rename_i hzero
      obtain rfl : nOutputs = 0 := Nat.eq_zero_of_not_pos hzero
      exact ⟨[], .done fun k hk => absurd hk (Nat.not_lt_zero k), rfl⟩

end Outputs

section Exchange
variable {row : Nat → Nat → UInt32} {stride n size : Nat} {tokens : List Nat} {old : Nat → UInt32} {sorted : Nat → Nat}
  {swaps : List (Nat × Nat)}

lemma BufferView.foldlM_swapRows {d : Nat → UInt32} (hsize : 0 < size) :
    swaps.foldlM (BufferView.swapRows stride) ⟨d, size⟩ = (replayRows stride size swaps d).map (⟨·, size⟩) := by
  induction swaps generalizing d with
  | nil => rfl
  | cons swap swaps ih =>
    rw [foldlM_cons, replayRows_cons, BufferView.swapRows, if_pos hsize]
    cases hstep : Lib.swapRows stride size d swap.1 swap.2 with
    | none => rfl
    | some d' => exact ih

lemma BufferView.foldlM_swapRows_zero {d : Nat → UInt32} :
    swaps.foldlM (BufferView.swapRows stride) ⟨d, 0⟩ = some ⟨d, 0⟩ := by
  induction swaps with
  | nil => rfl
  | cons swap swaps ih =>
    rw [foldlM_cons, BufferView.swapRows, if_neg (lt_irrefl 0)]
    exact ih

lemma BufferView.foldlM_swapRows_filled (row : Nat → Nat → UInt32) (old : Nat → UInt32)
    (hsel : Selects n sorted 0 (tokens.getD · 0) swaps) (hn : tokens.length = n)
    (hsize : n * stride ≤ size) : ∃ d, swaps.foldlM (BufferView.swapRows stride) ⟨filled row stride tokens old, size⟩ =
      some ⟨d, size⟩ ∧ ∀ r < n, ∀ k < stride, d (r * stride + k) = row (sorted r) k := by
  rcases Nat.eq_zero_or_pos size with hzero | hpos
  · subst hzero
    exact ⟨_, foldlM_swapRows_zero, fun r hr k hk => absurd (row_lt hr hk hsize) (Nat.not_lt_zero _)⟩
  · have hlt : ∀ s ∈ swaps, s.1 < n ∧ s.2 < n :=
      fun e he => ⟨lt_trans (hsel.lt e he).2.1 (hsel.lt e he).2.2, (hsel.lt e he).2.2⟩
    obtain ⟨d, hd⟩ := isSome_iff_exists.1 (replayRows_isSome hlt hsize (m := filled row stride tokens old))
    refine ⟨d, ?_, fun r hr k hk => ?_⟩
    · rw [foldlM_swapRows hpos, hd]
      rfl
    · rw [replayRows_spec (fun e he => ne_of_lt (hsel.lt e he).2.1) hd r hk]
      calc replay swaps (fun r => filled row stride tokens old (r * stride + k)) r
          = replay swaps ((row · k) ∘ (tokens.getD · 0)) r :=
            replay_congr hlt (fun q hq => filled_row (hn ▸ hq) hk) r hr
        _ = row (replay swaps (tokens.getD · 0) r) k := by rw [replay_comp]; rfl
        _ = row (sorted r) k := by rw [hsel.replay_eq (fun q hq => absurd hq (Nat.not_lt_zero q)) r hr]

end Exchange

namespace Outputs

variable {c : OutputParams} {b : SplitBatch} {old : Nat → UInt32} {logitsRow embdRow : Nat → Nat → UInt32}

variable {swaps : List (Nat × Nat)}

lemma foldlM_swapOutputs {s : Outputs} : swaps.foldlM (swapOutputs c) s =
    (swaps.foldlM (BufferView.swapRows c.nVocab) s.logits).bind fun logits =>
      (swaps.foldlM (BufferView.swapRows c.nEmbd) s.embd).map fun embd => { s with logits := logits, embd := embd } := by
  induction swaps generalizing s with
  | nil => rfl
  | cons swap swaps ih =>
    rw [foldlM_cons, foldlM_cons, foldlM_cons, swapOutputs]
    cases s.logits.swapRows c.nVocab swap with
    | none => rfl
    | some logits =>
      cases s.embd.swapRows c.nEmbd swap with
      | none =>
        cases hrest : swaps.foldlM (BufferView.swapRows c.nVocab) logits with
        | none => simp [hrest]
        | some _ => simp [hrest]
      | some embd => exact ih

/-- The outputs after `output_reorder`: `output_ids` has the row of every output and -1 for the other tokens, the rows are
the rows computed for their tokens, and they stand in the order of the batch. -/
structure InBatchOrder (c : OutputParams) (b : SplitBatch) (logitsRow embdRow : Nat → Nat → UInt32) (s : Outputs) :
    Prop where
  absent : ∀ t < b.nTokens, s.outputIds t = -1 ↔ b.isOutput c t = false
  row : ∀ t < b.nTokens, b.isOutput c t = true → ∃ r < s.nOutputs, s.outputIds t = (r : Int) ∧
    (∀ k < c.nVocab, s.logits.data (r * c.nVocab + k) = logitsRow t k) ∧
    (c.embeddings = true → ∀ k < c.nEmbdOut, s.embd.data (r * c.nEmbdOut + k) = embdRow t k)
  order : ∀ t u, t < u → u < b.nTokens → b.isOutput c t = true → b.isOutput c u = true → s.outputIds t < s.outputIds u

/-- Whatever the buffers hold and whatever is computed, the outputs come in the order of the batch. -/
def Reordered (c : OutputParams) (b : SplitBatch) : Prop :=
  ∀ (old : Nat → UInt32) (logitsRow embdRow : Nat → Nat → UInt32),
    ∃ s, (decode c b old logitsRow embdRow).bind (outputReorder c) = some s ∧ InBatchOrder c b logitsRow embdRow s

lemma reorder_eq (c : OutputParams) (b : SplitBatch) (old : Nat → UInt32) (logitsRow embdRow : Nat → Nat → UInt32) :
    ∃ swaps outputIds, Selects (b.nOutputsAll c) ((b.sortedIds c).getD · 0) 0 ((b.outIds c).getD · 0) swaps ∧
      (∀ k < b.nOutputsAll c, outputIds ((b.sortedIds c).getD k 0) = (k : Int)) ∧
      (∀ t, (∀ k < b.nOutputsAll c, (b.sortedIds c).getD k 0 ≠ t) → outputIds t = -1) ∧
      (decode c b old logitsRow embdRow).bind (outputReorder c) =
        (swaps.foldlM (BufferView.swapRows c.nVocab) (withRows c b old logitsRow embdRow (b.outIds c)).logits).bind
          fun logits =>
            (swaps.foldlM (BufferView.swapRows c.nEmbd) (withRows c b old logitsRow embdRow (b.outIds c)).embd).map
              fun embd => ⟨logits, embd, outputIds, [], b.nOutputsAll c⟩ := by
  obtain ⟨swaps, hsel, hmap⟩ := mapOutputs_spec (n := b.nOutputsAll c)
    (s := { withRows c b old logitsRow embdRow (b.outIds c) with nOutputs := b.nOutputsAll c }) rfl rfl rfl
    (fun k l hkl hl => SplitBatch.sortedIds_lt hkl hl) SplitBatch.arranges_outIds
  have heq := hsel.replay_eq fun k hk => absurd hk (Nat.not_lt_zero k)
  have hinj : ∀ k l, k < b.nOutputsAll c → l < b.nOutputsAll c →
      replay swaps ((b.outIds c).getD · 0) k = replay swaps ((b.outIds c).getD · 0) l → k = l := by
    intro k l hk hl h
    rw [heq k hk, heq l hl] at h
    exact SplitBatch.sortedIds_inj hk hl h
  obtain ⟨hset, hrest⟩ := assignIds_spec hinj fun _ => -1
  refine ⟨swaps, _, hsel, fun k hk => ?_, fun t ht => hrest t fun k hk => ?_, ?_⟩
  · have := hset k hk
    rwa [heq k hk] at this
  · rw [heq k hk]
    exact ht k hk
  · rw [decode_eq, hmap, bind_some, outputReorder, foldlM_swapOutputs]
    simp only [bind_eq_bind, bind_assoc, map_eq_bind]
    rfl

lemma isOutput_iff {t : Nat} (ht : t < b.nTokens) :
    b.isOutput c t = true ↔ ∃ r < b.nOutputsAll c, (b.sortedIds c).getD r 0 = t := by
  have hmem : b.isOutput c t = true ↔ t ∈ b.sortedIds c := by
    rw [SplitBatch.sortedIds, mem_filter, mem_range]
    exact (and_iff_right ht).symm
  rw [hmem]
  refine ⟨fun h => ?_, ?_⟩
  · obtain ⟨r, hr, heq⟩ := getElem_of_mem h
    exact ⟨r, hr, by rw [getD_eq_getElem _ _ hr, heq]⟩
  · rintro ⟨r, hr, rfl⟩
    have hr' : r < (b.sortedIds c).length := hr
    rw [getD_eq_getElem _ _ hr']
    exact getElem_mem hr'

lemma inBatchOrder {outputIds : Nat → Int} {logits embd : BufferView}
    (hids : ∀ k < b.nOutputsAll c, outputIds ((b.sortedIds c).getD k 0) = (k : Int))
    (hnone : ∀ t, (∀ k < b.nOutputsAll c, (b.sortedIds c).getD k 0 ≠ t) → outputIds t = -1)
    (hlogits : ∀ r < b.nOutputsAll c, ∀ k < c.nVocab,
      logits.data (r * c.nVocab + k) = logitsRow ((b.sortedIds c).getD r 0) k)
    (hembd : c.embeddings = true → ∀ r < b.nOutputsAll c, ∀ k < c.nEmbdOut,
      embd.data (r * c.nEmbdOut + k) = embdRow ((b.sortedIds c).getD r 0) k) :
    InBatchOrder c b logitsRow embdRow ⟨logits, embd, outputIds, swaps, b.nOutputsAll c⟩ where
  absent := fun t ht => by
    cases hout : b.isOutput c t with
    | false =>
      refine iff_of_true (hnone t fun k hk heq => ?_) rfl
      rw [(isOutput_iff ht).2 ⟨k, hk, heq⟩] at hout
      cases hout
    | true =>
      obtain ⟨r, hr, rfl⟩ := (isOutput_iff ht).1 hout
      have := hids r hr
      refine iff_of_false ?_ Bool.noConfusion
      change outputIds _ ≠ -1
      omega
  row := fun t ht hout => by
    obtain ⟨r, hr, rfl⟩ := (isOutput_iff ht).1 hout
    exact ⟨r, hr, hids r hr, hlogits r hr, fun hemb => hembd hemb r hr⟩
  order := fun t u htu hu ht' hu' => by
    obtain ⟨r, hr, rfl⟩ := (isOutput_iff (lt_trans htu hu)).1 ht'
    obtain ⟨q, hq, rfl⟩ := (isOutput_iff hu).1 hu'
    change outputIds _ < outputIds _
    rw [hids r hr, hids q hq]
    have hrq : r < q := by
      by_contra hge
      rcases Nat.eq_or_lt_of_le (Nat.le_of_not_lt hge) with rfl | hlt
      · exact lt_irrefl _ htu
      · exact lt_asymm htu (SplitBatch.sortedIds_lt hlt hr)
    exact Int.ofNat_lt.2 hrq

lemma size_logits : b.nOutputsAll c * c.nVocab ≤ c.nVocab * max (b.nOutputsAll c) c.nSeqMax := by
  rw [mul_comm]
  exact Nat.mul_le_mul_left _ (le_max_left _ _)

lemma reordered_of_embd
    (h : ∀ old embdRow swaps, Selects (b.nOutputsAll c) ((b.sortedIds c).getD · 0) 0 ((b.outIds c).getD · 0) swaps →
      ∃ v, swaps.foldlM (BufferView.swapRows c.nEmbd) (withRows c b old (fun _ _ => 0) embdRow (b.outIds c)).embd = some v ∧
        (c.embeddings = true → ∀ r < b.nOutputsAll c, ∀ k < c.nEmbdOut,
          v.data (r * c.nEmbdOut + k) = embdRow ((b.sortedIds c).getD r 0) k)) : Reordered c b := by
  intro old logitsRow embdRow
  obtain ⟨swaps, outputIds, hsel, hids, hnone, heq⟩ := reorder_eq c b old logitsRow embdRow
  obtain ⟨d, hd, hlogits⟩ := BufferView.foldlM_swapRows_filled logitsRow old hsel
    SplitBatch.length_outIds size_logits
  obtain ⟨v, hv, hembd⟩ := h old embdRow swaps hsel
  refine ⟨⟨⟨d, c.nVocab * max (b.nOutputsAll c) c.nSeqMax⟩, v, outputIds, [], b.nOutputsAll c⟩, ?_,
    inBatchOrder hids hnone hlogits hembd⟩
  rw [heq]
  change (swaps.foldlM (BufferView.swapRows c.nVocab) ⟨filled logitsRow c.nVocab (b.outIds c) old,
    c.nVocab * max (b.nOutputsAll c) c.nSeqMax⟩).bind _ = _
  rw [hd, bind_some]
  change (swaps.foldlM (BufferView.swapRows c.nEmbd) (withRows c b old (fun _ _ => 0) embdRow (b.outIds c)).embd).map _ = _
  rw [hv]
  rfl

lemma embd_withRows (hemb : c.embeddings = true) : (withRows c b old logitsRow embdRow (b.outIds c)).embd =
    ⟨filled embdRow c.nEmbdOut (b.outIds c) fun x => old (c.nVocab * max (b.nOutputsAll c) c.nSeqMax + x),
      c.nEmbdOut * max (b.nOutputsAll c) c.nSeqMax⟩ := by
  simp only [withRows, outputReserve, hemb, if_true]

lemma reordered_of_no_embd (hemb : c.embeddings = false) : Reordered c b := by
  refine reordered_of_embd fun old embdRow swaps _ => ?_
  have hembd : (withRows c b old (fun _ _ => 0) embdRow (b.outIds c)).embd =
      ⟨fun x => old (c.nVocab * max (b.nOutputsAll c) c.nSeqMax + x), 0⟩ := by
    simp [withRows, outputReserve, hemb]
  rw [hembd]
  refine ⟨_, BufferView.foldlM_swapRows_zero, fun h => ?_⟩
  rw [hemb] at h
  cases h

lemma reordered_of_width (hwidth : c.nEmbdOut = c.nEmbd) : Reordered c b := by
  cases hemb : c.embeddings with
  | false => exact reordered_of_no_embd hemb
  | true =>
    refine reordered_of_embd fun old embdRow swaps hsel => ?_
    have hsize : b.nOutputsAll c * c.nEmbd ≤ c.nEmbdOut * max (b.nOutputsAll c) c.nSeqMax := by
      rw [hwidth, mul_comm]
      exact Nat.mul_le_mul_left _ (le_max_left _ _)
    rw [embd_withRows hemb, hwidth]
    obtain ⟨d, hd, hrows⟩ := BufferView.foldlM_swapRows_filled embdRow _ hsel SplitBatch.length_outIds (hwidth ▸ hsize)
    exact ⟨_, hd, fun _ => hrows⟩

lemma reordered_of_sorted (hsorted : (b.outIds c).Pairwise (· < ·)) : Reordered c b := by
  cases hemb : c.embeddings with
  | false => exact reordered_of_no_embd hemb
  | true =>
    refine reordered_of_embd fun old embdRow swaps hsel => ?_
    have hplace : ∀ k < b.nOutputsAll c, (b.outIds c).getD k 0 = (b.sortedIds c).getD k 0 := by
      refine SplitBatch.arranges_outIds.eq_of_lt (fun k l hkl hl => SplitBatch.sortedIds_lt hkl hl) fun k l hkl hl => ?_
      rw [← SplitBatch.length_outIds] at hl
      rw [getD_eq_getElem _ _ (lt_trans hkl hl), getD_eq_getElem (b.outIds c) 0 hl]
      exact pairwise_iff_getElem.1 hsorted k l (lt_trans hkl hl) hl hkl
    rw [hsel.eq_nil hplace, embd_withRows hemb]
    refine ⟨_, rfl, fun _ r hr k hk => ?_⟩
    dsimp only
    rw [filled_row (SplitBatch.length_outIds (c := c) ▸ hr) hk, hplace r hr]

/-- An entry of the embeddings that the exchanges do not bring to its place. -/
structure Misses (c : OutputParams) (b : SplitBatch) (swaps : List (Nat × Nat)) (r k : Nat) : Prop where
  row_lt : r < b.nOutputsAll c
  col_lt : k < c.nEmbdOut
  wrong : ∀ size d, replayRows c.nEmbd size swaps (filled (fun t q => if t = (b.sortedIds c).getD r 0 ∧ q = k then 1 else 0)
    c.nEmbdOut (b.outIds c) fun _ => 0) = some d → d (r * c.nEmbdOut + k) = 0

lemma misses_of_lt (hpos : 0 < c.nEmbdOut) (hwidth : c.nEmbdOut < c.nEmbd)
    (hsel : Selects (b.nOutputsAll c) ((b.sortedIds c).getD · 0) 0 ((b.outIds c).getD · 0) swaps) {i : Nat}
    (hi : i < b.nOutputsAll c) (hbefore : ∀ k < i, (b.outIds c).getD k 0 = (b.sortedIds c).getD k 0)
    (hwrong : (b.outIds c).getD i 0 ≠ (b.sortedIds c).getD i 0) : Misses c b swaps i 0 := by
  refine ⟨hi, hpos, fun size d hd => ?_⟩
  obtain ⟨j, rest, rfl, hij, hj, hji, hrest⟩ := hsel.first (Nat.zero_le i) hi (fun k _ hk => hbefore k hk) hwrong
  have hlen : (b.outIds c).length = b.nOutputsAll c := SplitBatch.length_outIds
  rcases Nat.eq_zero_or_pos i with rfl | hipos
  · -- the exchange brings an entry of another place to the front
    rw [replayRows_cons] at hd
    obtain ⟨d₁, hd₁, hd⟩ := bind_eq_some_iff.1 hd
    have hfirst := swapRows_spec (ne_of_lt hij) hd₁ 0 (lt_trans hpos hwidth)
    rw [zero_mul, Equiv.swap_apply_left] at hfirst
    rw [zero_mul, replayRows_untouched hd ?_, hfirst, filled]
    · split
      · rename_i hin
        rw [add_zero] at hin ⊢
        refine if_neg fun ⟨htok, hmod⟩ => ?_
        have hq : j * c.nEmbd / c.nEmbdOut < b.nOutputsAll c := hlen ▸ (Nat.div_lt_iff_lt_mul hpos).2 hin
        have hqj := SplitBatch.arranges_outIds.inj _ j hq hj (htok.trans hji.symm)
        have hdiv := Nat.div_add_mod (j * c.nEmbd) c.nEmbdOut
        rw [hqj, hmod, add_zero, mul_comm] at hdiv
        exact absurd (Nat.eq_of_mul_eq_mul_left hij hdiv) (ne_of_lt hwidth)
      · rfl
    · intro e he k _
      have hle : 1 * c.nEmbd ≤ e.1 * c.nEmbd := Nat.mul_le_mul_right _ (hrest e he)
      have hle' : 1 * c.nEmbd ≤ e.2 * c.nEmbd :=
        Nat.mul_le_mul_right _ (lt_trans (hrest e he) (hsel.lt e (mem_cons_of_mem _ he)).2.1)
      omega
  · have hlt : i * c.nEmbdOut < i * c.nEmbd := Nat.mul_lt_mul_of_pos_left hwidth hipos
    rw [replayRows_untouched hd ?_, filled_row (hlen ▸ hi) hpos]
    · exact if_neg fun h => hwrong h.1
    · intro e he k _
      have hge : i ≤ e.1 := by
        rcases mem_cons.1 he with rfl | he
        · exact le_refl _
        · exact le_of_lt (hrest e he)
      have hle : i * c.nEmbd ≤ e.1 * c.nEmbd := Nat.mul_le_mul_right _ hge
      have hle' : i * c.nEmbd ≤ e.2 * c.nEmbd :=
        Nat.mul_le_mul_right _ (le_of_lt (lt_of_le_of_lt hge (hsel.lt e he).2.1))
      omega

lemma misses_of_gt (hwidth : c.nEmbd < c.nEmbdOut)
    (hsel : Selects (b.nOutputsAll c) ((b.sortedIds c).getD · 0) 0 ((b.outIds c).getD · 0) swaps) {i : Nat}
    (hi : i < b.nOutputsAll c)
    (hbehind : ∀ k, i < k → k < b.nOutputsAll c → (b.outIds c).getD k 0 = (b.sortedIds c).getD k 0)
    (hwrong : (b.outIds c).getD i 0 ≠ (b.sortedIds c).getD i 0) : Misses c b swaps i (c.nEmbdOut - 1) := by
  have hcol : c.nEmbdOut - 1 < c.nEmbdOut := by omega
  refine ⟨hi, hcol, fun size d hd => ?_⟩
  have hlen : (b.outIds c).length = b.nOutputsAll c := SplitBatch.length_outIds
  have hlast := hsel.snd_le (fun k l => SplitBatch.sortedIds_inj) hbehind
  rw [replayRows_untouched hd ?_, filled_row (hlen ▸ hi) hcol]
  · exact if_neg fun h => hwrong h.1
  · intro e he k hk
    have hle : e.2 * c.nEmbd ≤ i * c.nEmbd := Nat.mul_le_mul_right _ (hlast e he)
    have hle' : e.1 * c.nEmbd ≤ e.2 * c.nEmbd := Nat.mul_le_mul_right _ (le_of_lt (hsel.lt e he).2.1)
    have hwide : i * c.nEmbd ≤ i * c.nEmbdOut := Nat.mul_le_mul_left _ (le_of_lt hwidth)
    omega

lemma exists_misses (hwidth : c.nEmbdOut ≠ c.nEmbd) (hsorted : ¬ (b.outIds c).Pairwise (· < ·)) :
    ∃ r k, ∀ swaps, Selects (b.nOutputsAll c) ((b.sortedIds c).getD · 0) 0 ((b.outIds c).getD · 0) swaps →
      Misses c b swaps r k := by
  have hpos : 0 < c.nEmbdOut := by
    rw [OutputParams.nEmbdOut] at hwidth ⊢
    split
    · assumption
    · rename_i hzero
      exact absurd (if_neg hzero) hwidth
  have hwrong : ∃ i, i < b.nOutputsAll c ∧ (b.outIds c).getD i 0 ≠ (b.sortedIds c).getD i 0 := by
    by_contra hall
    have hplace : ∀ k < b.nOutputsAll c, (b.outIds c).getD k 0 = (b.sortedIds c).getD k 0 :=
      fun k hk => Decidable.not_not.1 fun hne => hall ⟨k, hk, hne⟩
    apply hsorted
    rw [pairwise_iff_getElem]
    intro k l hk hl hkl
    rw [← getD_eq_getElem _ 0 hk, ← getD_eq_getElem _ 0 hl]
    rw [SplitBatch.length_outIds] at hk hl
    rw [hplace k hk, hplace l hl]
    exact SplitBatch.sortedIds_lt hkl hl
  rcases Nat.lt_or_gt_of_ne hwidth with hlt | hgt
  · obtain ⟨hi, hne⟩ := Nat.find_spec hwrong
    refine ⟨Nat.find hwrong, 0, fun swaps hsel => misses_of_lt hpos hlt hsel hi (fun k hk => ?_) hne⟩
    exact Decidable.not_not.1 fun hk' => Nat.find_min hwrong hk ⟨lt_trans hk hi, hk'⟩
  · obtain ⟨i, hi, hne⟩ := hwrong
    obtain ⟨hlast, hlast'⟩ := Nat.findGreatest_spec (P := fun i => i < b.nOutputsAll c ∧
      (b.outIds c).getD i 0 ≠ (b.sortedIds c).getD i 0) (le_of_lt hi) ⟨hi, hne⟩
    refine ⟨_, _, fun swaps hsel => misses_of_gt hgt hsel hlast (fun k hk hkn => ?_) hlast'⟩
    exact Decidable.not_not.1 fun hk' => Nat.findGreatest_is_greatest hk (le_of_lt hkn) ⟨hkn, hk'⟩

/-- A width of the output embeddings that is not the model's, and a split by sequences. -/
def wideOutput : OutputParams := ⟨1, 1, 2, 1, true⟩

/-- Three tokens of two sequences, `[0, 0, 1]`, split equally. -/
def twoOfThree : SplitBatch := ⟨3, fun _ => true, [[0, 2], [1]], by decide⟩

/-- The outputs come in the order of the batch, whatever is computed, if and only if no embeddings are computed, the
output embeddings have the width of the model's embeddings, or the split visits the outputs in the order of the batch. -/
theorem reordered_iff (c : OutputParams) (b : SplitBatch) :
    Reordered c b ↔ c.embeddings = false ∨ c.nEmbdOut = c.nEmbd ∨ (b.outIds c).Pairwise (· < ·) := by
  constructor
  · intro h
    by_contra hnot
    obtain ⟨hemb, hnot⟩ := not_or.1 hnot
    obtain ⟨hwidth, hsorted⟩ := not_or.1 hnot
    have hemb : c.embeddings = true := Bool.eq_true_of_not_eq_false hemb
    obtain ⟨r, k, hmiss⟩ := exists_misses hwidth hsorted
    -- the embedding of one token has a single entry that is not zero
    obtain ⟨embdRow, hrow⟩ : ∃ embdRow : Nat → Nat → UInt32,
        embdRow = fun t q => if t = (b.sortedIds c).getD r 0 ∧ q = k then 1 else 0 := ⟨_, rfl⟩
    obtain ⟨s, hs, hord⟩ := h (fun _ => 0) (fun _ _ => 0) embdRow
    obtain ⟨swaps, outputIds, hsel, hids, -, heq⟩ := reorder_eq c b (fun _ => 0) (fun _ _ => 0) embdRow
    obtain ⟨hr, hk, hwrong⟩ := hmiss swaps hsel
    rw [heq] at hs
    obtain ⟨logits, -, hs⟩ := bind_eq_some_iff.1 hs
    obtain ⟨embd, hembd, rfl⟩ := map_eq_some_iff.1 hs
    have hpos : 0 < c.nEmbdOut * max (b.nOutputsAll c) c.nSeqMax := by
      refine Nat.mul_pos (Nat.lt_of_le_of_lt (Nat.zero_le _) hk) (Nat.lt_of_lt_of_le ?_ (Nat.le_max_left _ _))
      exact Nat.lt_of_le_of_lt (Nat.zero_le _) hr
    rw [embd_withRows hemb, BufferView.foldlM_swapRows hpos] at hembd
    obtain ⟨d, hd, rfl⟩ := map_eq_some_iff.1 hembd
    have hzero := hwrong _ d (hrow ▸ hd)
    -- its row is the row of the token
    have htok : (b.sortedIds c).getD r 0 < b.nTokens ∧ b.isOutput c ((b.sortedIds c).getD r 0) = true := by
      have hmem : (b.sortedIds c).getD r 0 ∈ b.sortedIds c := by
        rw [getD_eq_getElem (b.sortedIds c) 0 hr]
        exact getElem_mem hr
      obtain ⟨hlt, hout⟩ := mem_filter.1 hmem
      exact ⟨mem_range.1 hlt, hout⟩
    obtain ⟨q, -, hq, -, hrows⟩ := hord.row _ htok.1 htok.2
    obtain rfl : r = q := Int.ofNat.inj ((hids r hr).symm.trans hq)
    have hone : d (r * c.nEmbdOut + k) = 1 := by
      have := hrows hemb k hk
      rw [hrow] at this
      exact this.trans (if_pos ⟨rfl, rfl⟩)
    exact absurd (hzero.symm.trans hone) (by decide)
  · rintro (hemb | hwidth | hsorted)
    · exact reordered_of_no_embd hemb
    · exact reordered_of_width hwidth
    · exact reordered_of_sorted hsorted

/-- The embeddings of the tokens are torn apart. -/
theorem not_reordered_twoOfThree : ¬ Reordered wideOutput twoOfThree := by
  intro h
  obtain ⟨s, hs, hord⟩ := h (fun _ => 0) (fun _ _ => 0) fun t k => (10 * t + k).toUInt32
  obtain ⟨r, -, hids, -, hrows⟩ := hord.row 1 (by decide) rfl
  have hrun : ((decode wideOutput twoOfThree (fun _ => 0) (fun _ _ => 0) fun t k => (10 * t + k).toUInt32).bind
      (outputReorder wideOutput)).map (fun s => (s.outputIds 1, s.embd.data 3)) = some (1, 21) := by
    decide +kernel
  rw [hs, map_some] at hrun
  obtain ⟨hid, hentry⟩ := Prod.mk.inj (Option.some.inj hrun)
  obtain rfl : r = 1 := Int.ofNat.inj (hids.symm.trans hid)
  have := (hrows rfl 1 (by decide)).symm.trans hentry
  revert this
  decide

end Outputs

end Mallana
