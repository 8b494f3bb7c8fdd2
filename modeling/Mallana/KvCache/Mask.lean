import Mallana.KvCache.Ubatch

/-!
# The KQ mask

Model of `llama_kv_cache::set_input_kq_mask`. The row of a token says which cells it attends to. For the first token of a
sequence all cells are evaluated, and those whose position is near the positions of the batch are recorded; for a later
token of the sequence the row is copied and only the recorded cells are evaluated again. That is right if the other
cells of the sequence are so far in front of all tokens of the batch that they are visible to all of them, or outside the
window of all of them (`visible_congr`). The distance is computed in `int32_t`: a window of nearly `2^31` makes the sum
negative, and then cells next to the tokens are skipped (`setInputKqMask_hugeWindow`).

The mask is a list of rows. A value is the negative of a distance, or minus infinity.
-/

namespace Mallana

open List Function

/-- An entry of the mask. -/
inductive MaskVal where
  | negInf
  | bias (distance : Nat)
deriving DecidableEq, Repr

/-- C++ `llama_kv_cell_ext::is_2d_gt`. -/
def KvCellExt.is2dGt (e : KvCellExt) (ox oy : Int) : Bool := oy < e.y || (e.y == oy && ox < e.x)

namespace Ubatch

/-- The first sequence of token `i` (C++ `seq_id[i][0]`). -/
def firstSeq (u : Ubatch) (i : Nat) : SeqId := (u.seqId.getD i []).headD 0

/-- The position of token `i`. -/
def tokenPos (u : Ubatch) (i : Nat) : Int := u.pos.getD i 0

/-- Token `t` is the first one in the stream of token `i`, of `nTps` tokens, that has the sequence of token `i`. -/
def IsSource (u : Ubatch) (nTps t i : Nat) : Prop :=
  i / nTps * nTps ≤ t ∧ t ≤ i ∧ u.firstSeq t = u.firstSeq i ∧
    ∀ k, i / nTps * nTps ≤ k → k < t → u.firstSeq k ≠ u.firstSeq i

/-- C++ `INT32_MAX`. -/
def int32Max : Int := 2147483647

/-- The least position in the batch for each sequence (C++ `seq_pos_min`). -/
def seqPosMin (u : Ubatch) : SeqId → Int :=
  (List.range u.nTokens).foldl
    (fun m i => Function.update m (u.firstSeq i) (min (m (u.firstSeq i)) (u.tokenPos i))) fun _ => int32Max

end Ubatch

namespace KvCache

/-- The parameters of `set_input_kq_mask_impl`. -/
structure MaskArgs where
  causal : Bool
  alibi : Bool
  nKv : Nat

section
variable (c : KvCache) (u : Ubatch) (a : MaskArgs)

def tokenCells (i : Nat) : KvCells := c.cellsOf (c.seqToStream (u.firstSeq i))

/-- Cell `j` is in the future of token `i`. -/
def isFuture (i j : Nat) : Bool :=
  let x := c.tokenCells u i
  u.tokenPos i < x.posGet j ||
    (u.isPos2d && x.posGet j == u.tokenPos i &&
      (x.extGet j).is2dGt (u.pos.getD (i + u.nTokens * 2) 0) (u.pos.getD (i + u.nTokens) 0))

/-- The loop body for token `i` and cell `j`: the value that is written. -/
def verdict (i j : Nat) : MaskVal :=
  let x := c.tokenCells u i
  if x.isEmpty j then .negInf
  else if ¬ x.seqHas j (u.firstSeq i) then .negInf
  else if a.causal && c.isFuture u i j then .negInf
  else if c.swaType ≠ .none ∧ isMaskedSwa c.nSwa c.swaType (x.posGet j) (u.tokenPos i) then .negInf
  else if a.alibi then .bias (x.posGet j - u.tokenPos i).natAbs
  else .bias 0

/-- The cells that are recorded when the row of the first token of a sequence is evaluated. -/
def recorded (i : Nat) : List Nat :=
  let x := c.tokenCells u i
  (List.range a.nKv).filter fun j =>
    !x.isEmpty j && x.seqHas j (u.firstSeq i) &&
      -- `p0 + (int32_t) (n_swa + 32) >= seq_pos_min[seq_id]`
      decide (u.seqPosMin (u.firstSeq i) ≤ toInt32 (x.posGet j + toInt32 ((c.nSwa : Int) + 32)))

/-- An occupied cell of the sequence of token `i` that is not recorded. -/
def Skipped (i j : Nat) : Prop :=
  let x := c.tokenCells u i
  x.isEmpty j = false ∧ x.seqHas j (u.firstSeq i) = true ∧
    toInt32 (x.posGet j + toInt32 ((c.nSwa : Int) + 32)) < u.seqPosMin (u.firstSeq i)

instance (i j : Nat) : Decidable (c.Skipped u i j) := inferInstanceAs (Decidable (_ ∧ _ ∧ _))

/-- The rows so far, and for each sequence the number of its first row and the recorded cells. -/
structure MaskState where
  rows : List (List MaskVal)
  srct : SeqId → Option Nat
  idxs : SeqId → List Nat

def fullRow (i : Nat) : List MaskVal := (List.range a.nKv).map (c.verdict u a i)

def updateRow (row : List MaskVal) (i : Nat) (js : List Nat) : List MaskVal :=
  js.foldl (fun row j => row.set j (c.verdict u a i j)) row

def maskToken (st : MaskState) (i : Nat) : MaskState :=
  let q := u.firstSeq i
  if a.alibi then { st with rows := st.rows ++ [c.fullRow u a i] }
  else
    match st.srct q with
    | some t => { st with rows := st.rows ++ [c.updateRow u a (st.rows.getD t []) i (st.idxs q)] }
    | none =>
      { rows := st.rows ++ [c.fullRow u a i]
        srct := Function.update st.srct q (some i)
        idxs := Function.update st.idxs q (c.recorded u a i) }

def maskStream (nTps : Nat) (rows : List (List MaskVal)) (s : Nat) : List (List MaskVal) :=
  ((List.range nTps).foldl (fun st ii => c.maskToken u a st (s * nTps + ii))
    { rows, srct := fun _ => none, idxs := fun _ => [] }).rows

/-- C++ `set_input_kq_mask`; `none` if an assertion fails. -/
def setInputKqMask (nStream : Nat) : Option (List (List MaskVal)) :=
  if nStream = 0 ∨ u.nTokens % nStream ≠ 0 then none
  else if ∃ i ∈ List.range u.nTokens, u.seqId.getD i [] = [] then none
  else some ((List.range nStream).foldl (c.maskStream u a (u.nTokens / nStream)) [])

/-- Cell `j` is visible to token `i`. -/
def Visible (i j : Nat) : Prop :=
  let x := c.tokenCells u i
  x.isEmpty j = false ∧ x.seqHas j (u.firstSeq i) = true ∧ (a.causal = true → c.isFuture u i j = false) ∧
    isMaskedSwa c.nSwa c.swaType (x.posGet j) (u.tokenPos i) = false

instance (i j : Nat) : Decidable (c.Visible u a i j) := inferInstanceAs (Decidable (_ ∧ _ ∧ (_ → _) ∧ _))

end

section
variable {c : KvCache} {u : Ubatch} {a : MaskArgs} {i j t : Nat}

lemma seqPosMin_le_iff {q : SeqId} {p : Int} :
    u.seqPosMin q ≤ p ↔ Ubatch.int32Max ≤ p ∨ ∃ i < u.nTokens, u.firstSeq i = q ∧ u.tokenPos i ≤ p := by
  have main : ∀ (is : List Nat) (m : SeqId → Int), (is.foldl (fun m i => Function.update m (u.firstSeq i)
      (min (m (u.firstSeq i)) (u.tokenPos i))) m) q ≤ p ↔ m q ≤ p ∨ ∃ i ∈ is, u.firstSeq i = q ∧ u.tokenPos i ≤ p := by
    intro is
    induction is with
    | nil => exact fun m => (or_iff_left fun ⟨i, hi, _⟩ => absurd hi not_mem_nil).symm
    | cons k is ih =>
      intro m
      have hstep : Function.update m (u.firstSeq k) (min (m (u.firstSeq k)) (u.tokenPos k)) q ≤ p ↔
          m q ≤ p ∨ u.firstSeq k = q ∧ u.tokenPos k ≤ p := by
        by_cases hq : q = u.firstSeq k
        · rw [hq, update_self, min_le_iff, and_iff_right rfl]
        · rw [update_of_ne hq]
          exact (or_iff_left fun h => hq h.1.symm).symm
      rw [foldl_cons, ih, hstep, or_assoc]
      simp only [mem_cons, exists_eq_or_imp]
  rw [Ubatch.seqPosMin, main]
  simp only [mem_range]

lemma seqPosMin_le (h : i < u.nTokens) : u.seqPosMin (u.firstSeq i) ≤ u.tokenPos i :=
  seqPosMin_le_iff.2 (.inr ⟨i, h, rfl, Int.le_refl _⟩)

lemma chunk_start (n : Nat) (p : Int) (hn : 0 < n) : p - n < p / n * n := by
  have hmod := Int.emod_lt_of_pos p (b := (n : Int)) (by omega)
  have hsplit := Int.mul_ediv_add_emod p n
  rw [Int.mul_comm] at hsplit
  omega

/-- A key that is more than the window in front of two queries is masked for both or for neither. -/
lemma isMaskedSwa_congr {n : Nat} (swaType : SwaType) {p0 p1 p2 lo : Int} (hn : n + 32 < 2147483648) (h1 : lo ≤ p1)
    (h2 : lo ≤ p2) (hfar : p0 + (n + 32) < lo) : isMaskedSwa n swaType p0 p1 = isMaskedSwa n swaType p0 p2 := by
  have hint : toInt32 n = n := toInt32_eq (by omega) (by omega)
  cases swaType with
  | none => rfl
  | standard =>
    have hone : (n : Int) ≤ p1 - p0 := by omega
    have htwo : (n : Int) ≤ p2 - p0 := by omega
    simp only [isMaskedSwa, hint, hone, htwo]
  | chunked =>
    rcases Nat.eq_zero_or_pos n with rfl | hpos
    · simp only [isMaskedSwa, Int.natCast_zero, Int.mul_zero]
    · have hone : p0 < p1 / n * n := by
        have := chunk_start n p1 hpos
        omega
      have htwo : p0 < p2 / n * n := by
        have := chunk_start n p2 hpos
        omega
      simp only [isMaskedSwa, hone, htwo]
  | symmetric =>
    have hhalf : (n : Int).tdiv 2 ≤ n := by
      rw [Int.tdiv_eq_ediv_of_nonneg (Int.natCast_nonneg n)]
      omega
    have hone : (n : Int).tdiv 2 < p1 - p0 := by omega
    have htwo : (n : Int).tdiv 2 < p2 - p0 := by omega
    simp only [isMaskedSwa, hint, hone, htwo, or_true]

lemma tokenCells_congr (hseq : u.firstSeq i = u.firstSeq t) : c.tokenCells u i = c.tokenCells u t := by
  rw [tokenCells, hseq, tokenCells]

/-- Where nothing wraps, a skipped cell is visible to both tokens of a sequence or to neither. -/
lemma visible_congr (hi : i < u.nTokens) (ht : t < u.nTokens) (hseq : u.firstSeq t = u.firstSeq i)
    (hn : c.nSwa + 32 < 2147483648) (hlo : 0 ≤ (c.tokenCells u t).posGet j)
    (hhi : (c.tokenCells u t).posGet j + ((c.nSwa : Int) + 32) ≤ 2147483647) (hskip : c.Skipped u t j) :
    c.Visible u a t j ↔ c.Visible u a i j := by
  obtain ⟨hempty, hhas, hfar⟩ := hskip
  rw [toInt32_eq (n := (c.nSwa : Int) + 32) (by omega) (by omega), toInt32_eq (by omega) hhi] at hfar
  have hti := seqPosMin_le hi
  have htt := seqPosMin_le ht
  rw [← hseq] at hti
  -- the cell is far in front of both tokens
  have hfuture : ∀ k, k < u.nTokens → u.firstSeq k = u.firstSeq t → c.isFuture u k j = false := by
    intro k hk hkseq
    have hmin := seqPosMin_le hk
    have hkcells := tokenCells_congr (c := c) hkseq
    rw [hkseq] at hmin
    unfold isFuture
    simp only [hkcells]
    rw [decide_eq_false (by omega), beq_eq_false_iff_ne.2 (by omega), Bool.and_false, Bool.false_and, Bool.or_false]
  have hwindow := isMaskedSwa_congr c.swaType hn htt hti hfar
  unfold Visible
  simp only [tokenCells_congr (c := c) hseq.symm, ← hseq, hfuture t ht rfl, hfuture i hi hseq.symm, hwindow]

/-- Without ALiBi a verdict says whether the cell is visible. -/
lemma verdict_eq (halibi : a.alibi = false) :
    c.verdict u a i j = if c.Visible u a i j then .bias 0 else .negInf := by
  unfold verdict
  simp only []
  split
  next h => exact (if_neg fun hv : c.Visible u a i j => Bool.noConfusion (h.symm.trans hv.1)).symm
  next hempty =>
    split
    next h => exact (if_neg fun hv : c.Visible u a i j => h hv.2.1).symm
    next hhas =>
      rw [not_not] at hhas
      split
      next h =>
        obtain ⟨hcausal, hfuture⟩ := Bool.and_eq_true_iff.1 h
        exact (if_neg fun hv : c.Visible u a i j => Bool.noConfusion (hfuture.symm.trans (hv.2.2.1 hcausal))).symm
      next hfuture =>
        split
        next h => exact (if_neg fun hv : c.Visible u a i j => Bool.noConfusion (h.2.symm.trans hv.2.2.2)).symm
        next hswa =>
          have hwindow : isMaskedSwa c.nSwa c.swaType ((c.tokenCells u i).posGet j) (u.tokenPos i) = false := by
            by_cases hnone : c.swaType = .none
            · rw [hnone]
              rfl
            · exact Bool.eq_false_of_not_eq_true fun h => hswa ⟨hnone, h⟩
          have hpast : a.causal = true → c.isFuture u i j = false := by
            intro hcausal
            rw [hcausal, Bool.true_and] at hfuture
            exact Bool.eq_false_of_not_eq_true hfuture
          rw [halibi, if_neg Bool.false_ne_true]
          exact (if_pos ⟨Bool.eq_false_of_not_eq_true hempty, hhas, hpast, hwindow⟩).symm

lemma getD_fullRow (hj : j < a.nKv) : (c.fullRow u a i).getD j .negInf = c.verdict u a i j := by
  rw [fullRow, getD_eq_getElem _ _ (by simpa using hj), getElem_map, getElem_range]

lemma length_fullRow : (c.fullRow u a i).length = a.nKv := by
  rw [fullRow, length_map, length_range]

lemma length_updateRow (row : List MaskVal) (js : List Nat) : (c.updateRow u a row i js).length = row.length := by
  unfold updateRow
  induction js generalizing row with
  | nil => rfl
  | cons k js ih =>
    rw [foldl_cons, ih]
    exact length_set

lemma getD_updateRow {row : List MaskVal} {js : List Nat} (hj : j < row.length) :
    (c.updateRow u a row i js).getD j .negInf = if j ∈ js then c.verdict u a i j else row.getD j .negInf := by
  unfold updateRow
  induction js generalizing row with
  | nil => exact (if_neg not_mem_nil).symm
  | cons k js ih =>
    rw [foldl_cons, ih (by rwa [length_set])]
    by_cases hmem : j ∈ js
    · rw [if_pos hmem, if_pos (mem_cons_of_mem k hmem)]
    · rw [if_neg hmem]
      by_cases hk : j = k
      · rw [if_pos (hk ▸ mem_cons_self), ← hk, getD_eq_getElem _ _ (by rwa [length_set]),
          getElem_set_self]
      · have hnot : j ∉ k :: js := fun h => (mem_cons.1 h).elim hk hmem
        rw [if_neg hnot, getD_eq_getElem _ _ (by rwa [length_set]), getElem_set_ne (Ne.symm hk),
          getD_eq_getElem _ _ hj]

/-- An occupied cell of the sequence is recorded or skipped. -/
lemma skipped_of_not_recorded (hj : j < a.nKv) (hempty : (c.tokenCells u t).isEmpty j = false)
    (hhas : (c.tokenCells u t).seqHas j (u.firstSeq t) = true) (hfree : j ∉ c.recorded u a t) : c.Skipped u t j := by
  refine ⟨hempty, hhas, ?_⟩
  by_contra hnear
  apply hfree
  refine mem_filter.2 ⟨mem_range.2 hj, ?_⟩
  rw [hempty, hhas, decide_eq_true (Int.not_lt.1 hnear)]
  rfl

lemma Skipped.not_recorded (h : c.Skipped u t j) : j ∉ c.recorded u a t := by
  intro hmem
  have hnear := of_decide_eq_true (Bool.and_eq_true_iff.1 (mem_filter.1 hmem).2).2
  exact absurd h.2.2 (not_lt.2 hnear)

/-- The row that the loop writes for token `i` whose sequence begins at token `t`. -/
def writtenRow (c : KvCache) (u : Ubatch) (a : MaskArgs) (t i : Nat) : List MaskVal :=
  c.updateRow u a (c.fullRow u a t) i (c.recorded u a t)

lemma length_writtenRow : (c.writtenRow u a t i).length = a.nKv := by
  rw [writtenRow, length_updateRow, length_fullRow]

lemma getD_writtenRow (hj : j < a.nKv) : (c.writtenRow u a t i).getD j .negInf =
    if j ∈ c.recorded u a t then c.verdict u a i j else c.verdict u a t j := by
  rw [writtenRow, getD_updateRow (by rwa [length_fullRow]), getD_fullRow hj]

/-- The first token of a sequence gets the plain row. -/
lemma writtenRow_self : c.writtenRow u a i i = c.fullRow u a i := by
  refine Lib.ext_getD .negInf (by rw [length_writtenRow, length_fullRow]) fun j hj => ?_
  rw [length_writtenRow] at hj
  rw [getD_writtenRow hj, getD_fullRow hj, ite_self]

/-- The first token of a sequence in a stream is unique. -/
lemma source_unique {nTps t' : Nat} (h : u.IsSource nTps t i) (h' : u.IsSource nTps t' i) : t = t' := by
  rcases lt_trichotomy t t' with hlt | heq | hlt
  · exact absurd h.2.2.1 (h'.2.2.2 t h.1 hlt)
  · exact heq
  · exact absurd h'.2.2.1 (h.2.2.2 t' h'.1 hlt)

/-- The first `n` rows are those that the loop writes. -/
structure Written (c : KvCache) (u : Ubatch) (a : MaskArgs) (nTps n : Nat) (rows : List (List MaskVal)) : Prop where
  length : rows.length = n
  row : ∀ i < n, ∃ t, u.IsSource nTps t i ∧ rows.getD i [] = c.writtenRow u a t i

lemma Written.push {nTps n : Nat} {rows : List (List MaskVal)} (h : Written c u a nTps n rows)
    (hs : u.IsSource nTps t n) : Written c u a nTps (n + 1) (rows ++ [c.writtenRow u a t n]) := by
  refine ⟨by rw [length_append, h.length, length_singleton], fun i hi => ?_⟩
  rcases Nat.lt_succ_iff_lt_or_eq.1 hi with hlt | rfl
  · obtain ⟨t', ht', hrow⟩ := h.row i hlt
    exact ⟨t', ht', by rw [getD_append _ _ _ _ (by rwa [h.length]), hrow]⟩
  · refine ⟨t, hs, ?_⟩
    rw [getD_append_right _ _ _ _ (by rw [h.length]), h.length, Nat.sub_self]
    rfl

/-- The bookkeeping of the stream that begins at token `lo` is about the first tokens of the sequences. -/
structure Booked (c : KvCache) (u : Ubatch) (a : MaskArgs) (lo n : Nat) (st : MaskState) : Prop where
  first : ∀ q t, st.srct q = some t → lo ≤ t ∧ t < n ∧ u.firstSeq t = q ∧ (∀ k, lo ≤ k → k < t → u.firstSeq k ≠ q) ∧
    st.idxs q = c.recorded u a t ∧ st.rows.getD t [] = c.fullRow u a t
  fresh : ∀ q, st.srct q = none → ∀ k, lo ≤ k → k < n → u.firstSeq k ≠ q

/-- One token of a stream. -/
lemma Booked.token {nTps n lo : Nat} {st : MaskState} (hw : Written c u a nTps n st.rows) (h : Booked c u a lo n st)
    (hlo : n / nTps * nTps = lo) (hle : lo ≤ n) (halibi : a.alibi = false) :
    Written c u a nTps (n + 1) (c.maskToken u a st n).rows ∧ Booked c u a lo (n + 1) (c.maskToken u a st n) := by
  have hold : ∀ row t, t < n → (st.rows ++ [row]).getD t [] = st.rows.getD t [] := fun row t ht =>
    getD_append _ _ _ _ (by rwa [hw.length])
  unfold maskToken
  simp only [halibi]
  cases hsrct : st.srct (u.firstSeq n) with
  | some t =>
    obtain ⟨hfrom, hlt, hseq, hfirst, hidxs, hrow⟩ := h.first _ t hsrct
    have hsource : u.IsSource nTps t n := by
      refine ⟨by rw [hlo]; exact hfrom, le_of_lt hlt, hseq, ?_⟩
      rw [hlo]
      exact hfirst
    refine ⟨?_, ⟨fun q t' hq => ?_, fun q hq k hk hkn => ?_⟩⟩
    · change Written c u a nTps (n + 1) (st.rows ++ [c.updateRow u a (st.rows.getD t []) n (st.idxs (u.firstSeq n))])
      rw [hrow, hidxs]
      exact hw.push hsource
    · obtain ⟨hfrom', hlt', hrest⟩ := h.first q t' hq
      refine ⟨hfrom', Nat.lt_succ_of_lt hlt', hrest.1, hrest.2.1, hrest.2.2.1, ?_⟩
      exact (hold _ t' hlt').trans hrest.2.2.2
    · rcases Nat.lt_succ_iff_lt_or_eq.1 hkn with hlt' | rfl
      · exact h.fresh q hq k hk hlt'
      · rintro rfl
        exact absurd (hsrct.symm.trans hq) (Option.some_ne_none t)
  | none =>
    have hsource : u.IsSource nTps n n := by
      refine ⟨by rw [hlo]; exact hle, le_refl n, rfl, ?_⟩
      rw [hlo]
      exact h.fresh _ hsrct
    refine ⟨?_, ⟨fun q t hq => ?_, fun q hq k hk hkn => ?_⟩⟩
    · change Written c u a nTps (n + 1) (st.rows ++ [c.fullRow u a n])
      rw [← writtenRow_self]
      exact hw.push hsource
    · change Function.update st.srct (u.firstSeq n) (some n) q = some t at hq
      change lo ≤ t ∧ t < n + 1 ∧ u.firstSeq t = q ∧ (∀ k, lo ≤ k → k < t → u.firstSeq k ≠ q) ∧
        Function.update st.idxs (u.firstSeq n) (c.recorded u a n) q = c.recorded u a t ∧
        (st.rows ++ [c.fullRow u a n]).getD t [] = c.fullRow u a t
      by_cases heq : q = u.firstSeq n
      · rw [heq, update_self] at hq
        cases hq
        rw [heq, update_self]
        refine ⟨hle, Nat.lt_succ_self n, rfl, h.fresh _ hsrct, rfl, ?_⟩
        rw [getD_append_right _ _ _ _ (by rw [hw.length]), hw.length, Nat.sub_self]
        rfl
      · rw [update_of_ne heq] at hq ⊢
        obtain ⟨hfrom', hlt', hrest⟩ := h.first q t hq
        refine ⟨hfrom', Nat.lt_succ_of_lt hlt', hrest.1, hrest.2.1, hrest.2.2.1, ?_⟩
        exact (hold _ t hlt').trans hrest.2.2.2
    · change Function.update st.srct (u.firstSeq n) (some n) q = none at hq
      by_cases heq : q = u.firstSeq n
      · rw [heq, update_self] at hq
        cases hq
      · rw [update_of_ne heq] at hq
        rcases Nat.lt_succ_iff_lt_or_eq.1 hkn with hlt' | rfl
        · exact h.fresh q hq k hk hlt'
        · exact Ne.symm heq

/-- One stream. -/
lemma Written.stream {nTps s : Nat} {rows : List (List MaskVal)} (h : Written c u a nTps (s * nTps) rows)
    (halibi : a.alibi = false) : Written c u a nTps ((s + 1) * nTps) (c.maskStream u a nTps rows s) := by
  have main : ∀ k, k ≤ nTps →
      let st := (List.range k).foldl (fun st ii => c.maskToken u a st (s * nTps + ii))
        { rows, srct := fun _ => none, idxs := fun _ => [] }
      Written c u a nTps (s * nTps + k) st.rows ∧ Booked c u a (s * nTps) (s * nTps + k) st := by
    intro k
    induction k with
    | zero => exact fun _ => ⟨h, ⟨nofun, fun q _ k hk hkn => absurd hk (Nat.not_le_of_lt hkn)⟩⟩
    | succ k ih =>
      intro hk
      obtain ⟨hw, hb⟩ := ih (by omega)
      have hdiv : (s * nTps + k) / nTps = s := by
        rw [mul_comm, Nat.mul_add_div (by omega), Nat.div_eq_of_lt (by omega), add_zero]
      rw [range_succ, foldl_append]
      exact hb.token hw (congrArg (· * nTps) hdiv) (Nat.le_add_right _ _) halibi
  rw [add_mul, one_mul]
  exact (main nTps (le_refl _)).1

/-- All streams. -/
lemma written_streams {m : Nat} (halibi : a.alibi = false) (nStream : Nat) :
    Written c u a m (nStream * m) ((List.range nStream).foldl (c.maskStream u a m) []) := by
  induction nStream with
  | zero =>
    rw [zero_mul]
    exact ⟨rfl, fun i hi => absurd hi (Nat.not_lt_zero i)⟩
  | succ s ih =>
    rw [range_succ, foldl_append]
    exact ih.stream halibi

/-- A written entry is the plain one if and only if the cell is recorded, or as visible to the first token of the
sequence. -/
lemma writtenRow_plain_iff (hseq : u.firstSeq t = u.firstSeq i) (halibi : a.alibi = false) :
    (∀ j < a.nKv, (c.writtenRow u a t i).getD j .negInf = if c.Visible u a i j then .bias 0 else .negInf) ↔
      ∀ j < a.nKv, c.Skipped u t j → (c.Visible u a t j ↔ c.Visible u a i j) := by
  have hite : ∀ P Q : Prop, ∀ [Decidable P] [Decidable Q],
      ((if P then MaskVal.bias 0 else .negInf) = if Q then MaskVal.bias 0 else .negInf) ↔ (P ↔ Q) := by
    intro P Q _ _
    by_cases hP : P <;> by_cases hQ : Q <;> simp [hP, hQ]
  refine forall₂_congr fun j hj => ?_
  rw [getD_writtenRow hj, verdict_eq halibi, verdict_eq halibi]
  constructor
  · intro h hskip
    rw [if_neg hskip.not_recorded] at h
    exact (hite _ _).1 h
  · intro h
    by_cases hmem : j ∈ c.recorded u a t
    · rw [if_pos hmem]
    rw [if_neg hmem]
    refine (hite _ _).2 ?_
    by_cases hcell : (c.tokenCells u t).isEmpty j = false ∧ (c.tokenCells u t).seqHas j (u.firstSeq t) = true
    · exact h (skipped_of_not_recorded hj hcell.1 hcell.2 hmem)
    · -- a cell that is empty or not of the sequence is visible to neither
      refine iff_of_false (fun hv => hcell ⟨hv.1, hv.2.1⟩) fun hv => hcell ⟨?_, ?_⟩
      · rw [tokenCells_congr hseq]
        exact hv.1
      · rw [tokenCells_congr hseq, hseq]
        exact hv.2.1

/-- Every entry of the mask is that of the plain evaluation, zero where the cell is visible to the token and minus infinity
elsewhere, if and only if every skipped cell is visible to the first token of a sequence in its stream and to a later one,
or to neither. -/
theorem setInputKqMask_plain_iff (c : KvCache) (u : Ubatch) (causal : Bool) (nKv : Nat) {nStream : Nat}
    (hstream : nStream ≠ 0) (heven : u.nTokens % nStream = 0) (hseq : ∀ i < u.nTokens, u.seqId.getD i [] ≠ []) :
    ∃ rows, c.setInputKqMask u ⟨causal, false, nKv⟩ nStream = some rows ∧ rows.length = u.nTokens ∧
      (∀ i < u.nTokens, (rows.getD i []).length = nKv) ∧
      ((∀ i < u.nTokens, ∀ j < nKv, (rows.getD i []).getD j .negInf =
          if c.Visible u ⟨causal, false, nKv⟩ i j then .bias 0 else .negInf) ↔
        ∀ t, ∀ i < u.nTokens, u.IsSource (u.nTokens / nStream) t i → ∀ j < nKv, c.Skipped u t j →
          (c.Visible u ⟨causal, false, nKv⟩ t j ↔ c.Visible u ⟨causal, false, nKv⟩ i j)) := by
  have hall : nStream * (u.nTokens / nStream) = u.nTokens := Nat.mul_div_cancel' (Nat.dvd_of_mod_eq_zero heven)
  have hrows := written_streams (c := c) (u := u) (a := ⟨causal, false, nKv⟩) (m := u.nTokens / nStream) rfl nStream
  rw [hall] at hrows
  refine ⟨_, ?_, hrows.length, fun i hi => ?_, ?_⟩
  · have hids : ¬ ∃ i ∈ List.range u.nTokens, u.seqId.getD i [] = [] := by
      rintro ⟨i, hi, hnil⟩
      exact hseq i (mem_range.1 hi) hnil
    have hok : ¬ (nStream = 0 ∨ u.nTokens % nStream ≠ 0) := fun h => h.elim hstream fun h => h heven
    rw [setInputKqMask, if_neg hok, if_neg hids]
  · obtain ⟨t, -, hrow⟩ := hrows.row i hi
    rw [hrow, length_writtenRow]
  · constructor
    · intro h t i hi hsource
      obtain ⟨t', hsource', hrow⟩ := hrows.row i hi
      cases source_unique hsource hsource'
      have hplain := h i hi
      rw [hrow] at hplain
      exact (writtenRow_plain_iff (a := ⟨causal, false, nKv⟩) hsource.2.2.1 rfl).1 hplain
    · intro h i hi
      obtain ⟨t, hsource, hrow⟩ := hrows.row i hi
      rw [hrow]
      exact (writtenRow_plain_iff (a := ⟨causal, false, nKv⟩) hsource.2.2.1 rfl).2 (h t i hi hsource)

/-- Where no sum with the window leaves `int32_t`, every skipped cell is in front of all tokens of its sequence. -/
theorem skipped_agree (causal : Bool) {nKv nTps : Nat} (hn : c.nSwa + 32 < 2147483648)
    (hpos : ∀ t < u.nTokens, ∀ j < nKv, 0 ≤ (c.tokenCells u t).posGet j ∧
      (c.tokenCells u t).posGet j + ((c.nSwa : Int) + 32) ≤ 2147483647) :
    ∀ t, ∀ i < u.nTokens, u.IsSource nTps t i → ∀ j < nKv, c.Skipped u t j →
      (c.Visible u ⟨causal, false, nKv⟩ t j ↔ c.Visible u ⟨causal, false, nKv⟩ i j) := by
  intro t i hi hsource j hj hskip
  have ht : t < u.nTokens := lt_of_le_of_lt hsource.2.1 hi
  obtain ⟨hlo, hhi⟩ := hpos t ht j hj
  exact visible_congr hi ht hsource.2.2.1 hn hlo hhi hskip

end

/-- A cache of three cells that hold the positions 0, 1 and 2 of sequence 0, with a standard window of `nSwa`. -/
def threeCells (nSwa : Nat) : KvCache :=
  let c := KvCache.init false true false 3 1 nSwa .standard 1 0
  let x := (((c.cellsOf 0).posSet 0 0).seqAdd 0 0)
  let x := ((x.posSet 1 1).seqAdd 1 0)
  c.setCells 0 ((x.posSet 2 2).seqAdd 2 0)

/-- The tokens at the positions 1 and 2. -/
def lastTokens : Ubatch where
  nTokens := 2
  nPos := 1
  pos := [1, 2]
  seqId := [[0], [0]]
  seqIdUnq := [0]

/-- With a window of 2 the first token does not see the cell of the second one, which lies in its future, and the second
token does not see the first cell, which has left the window. -/
theorem setInputKqMask_threeCells : ∃ rows,
    (threeCells 2).setInputKqMask lastTokens ⟨true, false, 3⟩ 1 = some rows ∧
      rows = [[.bias 0, .bias 0, .negInf], [.negInf, .bias 0, .bias 0]] := by
  have hids : ∀ i < lastTokens.nTokens, lastTokens.seqId.getD i [] ≠ [] := by decide
  obtain ⟨rows, hrows, hlen, hrow, hplain⟩ :=
    setInputKqMask_plain_iff (threeCells 2) lastTokens true 3 Nat.one_ne_zero (by decide) hids
  have hentry := hplain.2 (skipped_agree true (by decide) (by decide))
  refine ⟨rows, hrows, Lib.ext_getD [] (by rw [hlen]; rfl) fun i hi => ?_⟩
  rw [hlen] at hi
  have hcells : ∀ i < 2, ∀ j < 3, (if (threeCells 2).Visible lastTokens ⟨true, false, 3⟩ i j then MaskVal.bias 0
      else .negInf) = ([[.bias 0, .bias 0, .negInf], [.negInf, .bias 0, .bias 0]].getD i []).getD j .negInf := by decide
  have hwidth : ∀ i < 2, ([[MaskVal.bias 0, .bias 0, .negInf], [.negInf, .bias 0, .bias 0]].getD i []).length = 3 := by
    decide
  refine Lib.ext_getD .negInf ((hrow i hi).trans (hwidth i hi).symm) fun j hj => ?_
  rw [hrow i hi] at hj
  exact (hentry i hi j hj).trans (hcells i hi j hj)

/-- With a window of `2^31 - 1` no cell is recorded, and the row of the second token is a copy of the first one: it does
not see its own cell. -/
theorem setInputKqMask_hugeWindow : ∃ rows,
    (threeCells 2147483647).setInputKqMask lastTokens ⟨true, false, 3⟩ 1 = some rows ∧
      (rows.getD 1 []).getD 2 (.bias 0) = .negInf ∧
      (threeCells 2147483647).Visible lastTokens ⟨true, false, 3⟩ 1 2 := by
  refine ⟨_, rfl, ?_, ?_⟩
  · decide
  · decide

end KvCache

end Mallana
