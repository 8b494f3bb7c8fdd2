import Mallana.KvCache.Slots

/-!
# The search for a slot is exact

The contiguous search tests a block of cells at a time. It goes on behind the first cell that it cannot use, wraps around
where no block fits any more, and stops when it has counted as many cells as there are. A run of cells that reaches over
the place where the search began is found in the second round, since a block is tested whole even if the count ends
within it (`cont_second`). So a search fails only where no run of usable cells is long enough, and cell by cell only where
there are too few usable cells (`findSlot_exact`).
-/

namespace Mallana

open List

namespace KvCache

section Contiguous
variable {ok : Nat → Bool} {size n : Nat}

/-- Cells `i` to `i + n - 1` are usable. -/
def RunAt (ok : Nat → Bool) (size n i : Nat) : Prop := i + n ≤ size ∧ ∀ j < n, ok (i + j) = true

/-- No run begins in `[lo, hi)`. -/
def NoRun (ok : Nat → Bool) (size n lo hi : Nat) : Prop := ∀ i, lo ≤ i → i < hi → ¬ RunAt ok size n i

/-- The result of a search: a run, or nothing where there is none. -/
def Exact (ok : Nat → Bool) (size n : Nat) (r : Option (List Nat)) : Prop :=
  (r = none ∧ ∀ i, ¬ RunAt ok size n i) ∨ ∃ i, RunAt ok size n i ∧ r = some (List.range' i n)

lemma NoRun.append {lo mid hi : Nat} (h : NoRun ok size n lo mid) (h' : NoRun ok size n mid hi) : NoRun ok size n lo hi := by
  intro i hlo hhi
  rcases lt_or_ge i mid with hlt | hge
  · exact h i hlo hlt
  · exact h' i hge hhi

lemma noRun_tail {lo hi : Nat} (h : size < lo + n) : NoRun ok size n lo hi := by
  rintro i hlo _ ⟨hfit, _⟩
  omega

lemma noRun_all {hi : Nat} (hn : 0 < n) (h : NoRun ok size n 0 hi) (hhi : size ≤ hi) : ∀ i, ¬ RunAt ok size n i := by
  rintro i hrun
  exact h i (Nat.zero_le i) (by have := hrun.1; omega) hrun

/-- The number of usable cells from `head` on, up to `n`. -/
def lead (ok : Nat → Bool) : Nat → Nat → Nat
  | 0, _ => 0
  | n + 1, head => if ok head then lead ok n (head + 1) + 1 else 0

lemma lead_succ (head : Nat) : lead ok (n + 1) head = if ok head then lead ok n (head + 1) + 1 else 0 := rfl

lemma lead_le (head : Nat) : lead ok n head ≤ n := by
  induction n generalizing head with
  | zero => exact le_refl 0
  | succ n ih =>
    rw [lead_succ]
    split
    · exact Nat.succ_le_succ (ih (head + 1))
    · exact Nat.zero_le _

lemma lead_ok {head j : Nat} (h : j < lead ok n head) : ok (head + j) = true := by
  induction n generalizing head j with
  | zero => exact absurd h (Nat.not_lt_zero j)
  | succ n ih =>
    rw [lead_succ] at h
    split at h
    next hok =>
      cases j with
      | zero => exact hok
      | succ j =>
        rw [← Nat.succ_add_eq_add_succ]
        exact ih (Nat.lt_of_succ_lt_succ h)
    next => exact absurd h (Nat.not_lt_zero j)

lemma lead_stop {head : Nat} (h : lead ok n head < n) : ok (head + lead ok n head) = false := by
  induction n generalizing head with
  | zero => exact absurd h (Nat.not_lt_zero _)
  | succ n ih =>
    rw [lead_succ] at h ⊢
    split
    next hok =>
      rw [if_pos hok] at h
      rw [← Nat.succ_add_eq_add_succ]
      exact ih (Nat.lt_of_succ_lt_succ h)
    next hok => exact Bool.eq_false_of_not_eq_true hok

lemma testCells_block (head tested : Nat) (acc : List Nat) : testCells ok true n head tested acc =
      if lead ok n head = n then (head + n, tested + n, acc ++ List.range' head n)
      else (head + lead ok n head + 1, tested + lead ok n head + 1, acc ++ List.range' head (lead ok n head)) := by
  induction n generalizing head tested acc with
  | zero => simp [testCells, lead]
  | succ n ih =>
    rw [testCells, lead_succ]
    by_cases hok : ok head = true
    · rw [if_pos hok, if_pos hok, ih]
      by_cases hlead : lead ok n (head + 1) = n
      · rw [if_pos hlead, if_pos (by rw [hlead]), range'_succ, append_assoc, Prod.mk.injEq, Prod.mk.injEq]
        exact ⟨by omega, by omega, rfl⟩
      · rw [if_neg hlead, if_neg (by omega), range'_succ, append_assoc, Prod.mk.injEq, Prod.mk.injEq]
        exact ⟨by omega, by omega, rfl⟩
    · rw [if_neg hok, if_neg hok, if_pos rfl, if_neg (Nat.succ_ne_zero n).symm]
      simp

lemma runAt_iff_lead {head : Nat} : RunAt ok size n head ↔ head + n ≤ size ∧ lead ok n head = n := by
  constructor
  · rintro ⟨hfit, hok⟩
    refine ⟨hfit, ?_⟩
    by_contra hne
    have hlt := lt_of_le_of_ne (lead_le head) hne
    have hstop := lead_stop hlt
    rw [hok _ hlt] at hstop
    cases hstop
  · rintro ⟨hfit, hlead⟩
    exact ⟨hfit, fun j hj => lead_ok (by rwa [hlead])⟩

lemma noRun_block {head : Nat} (h : lead ok n head ≠ n) : NoRun ok size n head (head + lead ok n head + 1) := by
  have hlt := lt_of_le_of_ne (lead_le head) h
  rintro i hlo hhi ⟨_, hok⟩
  have hstop := lead_stop hlt
  have hcell := hok (head + lead ok n head - i) (by omega)
  rw [Nat.add_sub_cancel' (Nat.le_of_lt_succ hhi), hstop] at hcell
  cases hcell

lemma cont_wrap {fuel head tested : Nat} (h : size < head + n) :
    findLoop ok true size n (fuel + 1) head tested [] = findLoop ok true size n fuel 0 (tested + (size - head)) [] := by
  simp [findLoop, h]

lemma cont_block {fuel head tested : Nat} (h : head + n ≤ size) :
    findLoop ok true size n (fuel + 1) head tested [] = if lead ok n head = n then some (some (List.range' head n))
      else if size ≤ tested + lead ok n head + 1 then some none
      else findLoop ok true size n fuel (head + lead ok n head + 1) (tested + lead ok n head + 1) [] := by
  have hin : ¬ size < head + n := Nat.not_lt.2 h
  rw [findLoop]
  simp only [if_true, if_neg hin, testCells_block, nil_append]
  by_cases hlead : lead ok n head = n
  · simp [hlead]
  · simp [hlead]

variable {start : Nat}

lemma cont_last {fuel tested : Nat} (hle : n ≤ size) (hcount : size ≤ tested)
    (hno : ∀ i, ¬ RunAt ok size n i) : findLoop ok true size n (fuel + 1) 0 tested [] = some none := by
  have hlead : lead ok n 0 ≠ n := fun heq => hno 0 (runAt_iff_lead.2 ⟨by omega, heq⟩)
  rw [cont_block (by omega), if_neg hlead, if_pos (by omega)]

lemma cont_second (hn : 0 < n) (hle : n ≤ size) (htail : NoRun ok size n start size) :
    ∀ {fuel head : Nat}, head < start → start ≤ size → start - head + 1 ≤ fuel → NoRun ok size n 0 head →
      ∃ r, findLoop ok true size n (fuel + 1) head (size - start + head) [] = some r ∧ Exact ok size n r := by
  intro fuel
  induction fuel with
  | zero =>
    intro head _ _ hfuel
    omega
  | succ fuel ih =>
    intro head hhead hstart hfuel hno
    by_cases hfit : head + n ≤ size
    · rw [cont_block hfit]
      by_cases hlead : lead ok n head = n
      · rw [if_pos hlead]
        exact ⟨_, rfl, .inr ⟨head, runAt_iff_lead.2 ⟨hfit, hlead⟩, rfl⟩⟩
      · have hno' := hno.append (noRun_block hlead)
        rw [if_neg hlead]
        by_cases hend : size ≤ size - start + head + lead ok n head + 1
        · rw [if_pos hend]
          refine ⟨none, rfl, .inl ⟨rfl, @noRun_all ok size n size hn ?_ (le_refl size)⟩⟩
          intro i hlo hhi
          rcases lt_or_ge i start with hlt | hge
          · exact hno' i hlo (by omega)
          · exact htail i hge hhi
        · rw [if_neg hend]
          have hcount : size - start + head + lead ok n head + 1 = size - start + (head + lead ok n head + 1) := by omega
          rw [hcount]
          exact ih (by omega) hstart (by omega) hno'
    · have hall : ∀ i, ¬ RunAt ok size n i :=
        noRun_all hn (hno.append (@noRun_tail ok size n _ size (by omega))) (le_refl size)
      rw [cont_wrap (by omega), cont_last hle (by omega) hall]
      exact ⟨none, rfl, .inl ⟨rfl, hall⟩⟩

lemma cont_first (hn : 0 < n) (hle : n ≤ size) (hstart : start ≤ size) :
    ∀ {fuel head : Nat}, start ≤ head → head ≤ size → size - head + start + 2 ≤ fuel → NoRun ok size n start head →
      ∃ r, findLoop ok true size n (fuel + 1) head (head - start) [] = some r ∧ Exact ok size n r := by
  intro fuel
  induction fuel with
  | zero =>
    intro head _ _ hfuel
    omega
  | succ fuel ih =>
    intro head hhead hsize hfuel hno
    by_cases hfit : head + n ≤ size
    · rw [cont_block hfit]
      by_cases hlead : lead ok n head = n
      · rw [if_pos hlead]
        exact ⟨_, rfl, .inr ⟨head, runAt_iff_lead.2 ⟨hfit, hlead⟩, rfl⟩⟩
      · have hno' := hno.append (noRun_block hlead)
        have hlt := lt_of_le_of_ne (lead_le head) hlead
        rw [if_neg hlead]
        by_cases hend : size ≤ head - start + lead ok n head + 1
        · -- all cells have been counted only if the search began at cell 0
          obtain rfl : start = 0 := by omega
          rw [if_pos hend]
          exact ⟨none, rfl, .inl ⟨rfl, noRun_all hn hno' (by omega)⟩⟩
        · rw [if_neg hend]
          have hcount : head - start + lead ok n head + 1 = head + lead ok n head + 1 - start := by omega
          rw [hcount]
          exact ih (by omega) (by omega) (by omega) hno'
    · have htail := hno.append (@noRun_tail ok size n _ size (Nat.lt_of_not_le hfit))
      have hcount : head - start + (size - head) = size - start + 0 := by omega
      rw [cont_wrap (by omega), hcount]
      obtain ⟨fuel, rfl⟩ : ∃ k, fuel = k + 1 := ⟨fuel - 1, by omega⟩
      rcases eq_zero_or_pos start with rfl | hpos
      · have hall := noRun_all hn htail (le_refl size)
        rw [cont_last hle (by omega) hall]
        exact ⟨none, rfl, .inl ⟨rfl, hall⟩⟩
      · exact cont_second hn hle htail hpos hstart (by omega) fun i _ hi => absurd hi (Nat.not_lt_zero i)

end Contiguous

section Stream
variable {c : KvCache} {n t : Nat}

lemma findInStream_cells (hn : 0 < n) (hh : c.headOf t ≤ (c.cellsOf t).size) :
    ∃ r, c.findInStream false n t = .ok r ∧
      (r.isSome = true ↔ n ≤ (List.range (c.cellsOf t).size).countP (c.canUse (c.cellsOf t))) ∧
      ∀ idxs, r = some idxs → FoundIn c n t idxs := by
  obtain ⟨head, hle, heq⟩ := findInStream_eq hn hh
  refine ⟨_, heq, ?_, ?_⟩
  · rw [← length_filter_searchOrder _ hle]
    split
    next h => exact ⟨fun _ => h, fun _ => rfl⟩
    next h => exact ⟨nofun, fun h' => absurd h' h⟩
  · intro idxs hidxs
    rw [hidxs] at heq
    exact foundIn_of_findInStream hh heq

lemma findInStream_run (hn : 0 < n) (hh : c.headOf t ≤ (c.cellsOf t).size) :
    ∃ r, c.findInStream true n t = .ok r ∧ Exact (c.canUse (c.cellsOf t)) (c.cellsOf t).size n r := by
  have hhead : (if (c.cellsOf t).getUsed + 2 * n < c.headOf t then 0 else c.headOf t) ≤ (c.cellsOf t).size := by
    split
    · exact Nat.zero_le _
    · exact hh
  unfold findInStream
  simp only []
  by_cases hsize : (c.cellsOf t).size < n
  · rw [if_pos hsize]
    refine ⟨none, rfl, .inl ⟨rfl, ?_⟩⟩
    rintro i ⟨hfit, _⟩
    omega
  · rw [if_neg hsize]
    obtain ⟨r, hr, hexact⟩ := @cont_first (c.canUse (c.cellsOf t)) _ _ _ hn (Nat.le_of_not_lt hsize) hhead
      (2 * (c.cellsOf t).size + 1) _ (Nat.le_refl _) hhead (by omega) fun i hlo hhi => absurd hlo (Nat.not_le_of_lt hhi)
    rw [Nat.sub_self] at hr
    rw [hr]
    exact ⟨r, rfl, hexact⟩

end Stream

section Streams
variable {c : KvCache} {n : Nat} {u : Ubatch} {cont : Bool}

/-- The search over the streams finds a slot exactly if each stream has room. -/
lemma findStreams_exact {enough : SeqId → Prop} {good : SeqId → List Nat → Prop} {qs : List SeqId} {s : Nat}
    {res : SlotInfo} (hassert : 1 < c.nStream → ∀ k < qs.length, u.seqId.getD ((s + k) * n) [] = [qs.getD k 0])
    (hfind : ∀ q ∈ qs, ∃ r, c.findInStream cont n (c.seqToStream q) = .ok r ∧ (r.isSome = true ↔ enough q) ∧
      ∀ idxs, r = some idxs → good q idxs) : ∃ r, c.findStreams u cont n s qs res = .ok r ∧
      (r.isSome = true ↔ (qs = [] → res.idxs ≠ []) ∧ ∀ q ∈ qs, enough q) ∧
      ∀ sl, r = some sl → sl.strm = res.strm ++ qs.map c.seqToStream ∧
        ∃ l, sl.idxs = res.idxs ++ l ∧ List.Forall₂ good qs l := by
  induction qs generalizing s res with
  | nil =>
    refine ⟨_, rfl, ?_, ?_⟩
    · by_cases hres : res.idxs = []
      · rw [if_pos hres]
        exact ⟨fun h => absurd h Bool.false_ne_true, fun h => absurd hres (h.1 rfl)⟩
      · rw [if_neg hres]
        exact ⟨fun _ => ⟨fun _ => hres, fun q hq => absurd hq not_mem_nil⟩, fun _ => rfl⟩
    · intro sl hsl
      split at hsl
      · cases hsl
      · cases hsl
        exact ⟨(append_nil _).symm, [], (append_nil _).symm, .nil⟩
  | cons q qs ih =>
    have hhere : ¬ (1 < c.nStream ∧ u.seqId.getD (s * n) [] ≠ [q]) := by
      rintro ⟨hmany, hne⟩
      exact hne (hassert hmany 0 (Nat.succ_pos _))
    obtain ⟨r, hr, henough, hgood⟩ := hfind q mem_cons_self
    rw [findStreams]
    simp only [if_neg hhere, hr]
    cases r with
    | none =>
      refine ⟨none, rfl, ⟨fun h => absurd h Bool.false_ne_true, fun h => ?_⟩,
        fun sl hsl => absurd hsl.symm (Option.some_ne_none sl)⟩
      exact absurd (henough.2 (h.2 q mem_cons_self)) Bool.false_ne_true
    | some idxs =>
      have hnext : 1 < c.nStream → ∀ k < qs.length, u.seqId.getD ((s + 1 + k) * n) [] = [qs.getD k 0] := by
        intro hmany k hk
        have := hassert hmany (k + 1) (Nat.succ_lt_succ hk)
        rwa [← add_assoc, add_right_comm] at this
      obtain ⟨r', hr', hiff, hslot⟩ := @ih (s + 1)
        { s0 := min res.s0 (c.seqToStream q), s1 := max res.s1 (c.seqToStream q),
          strm := res.strm ++ [c.seqToStream q], idxs := res.idxs ++ [idxs] }
        hnext fun p hp => hfind p (mem_cons_of_mem q hp)
      refine ⟨r', hr', ?_, ?_⟩
      · rw [hiff, forall_mem_cons]
        refine ⟨fun h => ⟨fun hnil => absurd hnil (cons_ne_nil q qs), henough.1 rfl, h.2⟩, fun h => ⟨fun _ => ?_, h.2.2⟩⟩
        exact append_ne_nil_of_right_ne_nil _ (cons_ne_nil _ _)
      · intro sl hsl
        obtain ⟨hstrm, l, hidxs, hall⟩ := hslot sl hsl
        refine ⟨?_, idxs :: l, ?_, .cons (hgood idxs rfl) hall⟩
        · rw [hstrm, append_assoc]
          rfl
        · rw [hidxs, append_assoc]
          rfl

/-- What the assertions of `find_slot` ask of a ubatch that is not empty: with several streams it consists of blocks of
equal size, one for each of its sequences. -/
structure Placeable (c : KvCache) (u : Ubatch) : Prop where
  tokens : 0 < u.nTokens
  seqs : u.seqIdUnq ≠ []
  even : 1 < c.nStream → u.nTokens % u.seqIdUnq.length = 0
  blocks : 1 < c.nStream → ∀ k < u.seqIdUnq.length,
    u.seqId.getD (k * (u.nTokens / u.seqIdUnq.length)) [] = [u.seqIdUnq.getD k 0]

lemma Placeable.slotTokens_pos (h : c.Placeable u) : 0 < c.slotTokens u := by
  unfold slotTokens
  split
  next hmany =>
    have hle := Nat.le_of_dvd h.tokens (Nat.dvd_of_mod_eq_zero (h.even hmany))
    exact Nat.div_pos hle (length_pos_of_ne_nil h.seqs)
  next => exact h.tokens

lemma Placeable.slotSeqs_ne (h : c.Placeable u) : c.slotSeqs u ≠ [] := by
  unfold slotSeqs
  split
  · exact h.seqs
  · obtain ⟨q, qs, hq⟩ := exists_cons_of_ne_nil h.seqs
    rw [hq]
    exact cons_ne_nil _ _

lemma findSlot_streams {enough : SeqId → Prop} {good : SeqId → List Nat → Prop} (h : c.Placeable u)
    (hfind : ∀ q ∈ c.slotSeqs u, ∃ r, c.findInStream cont (c.slotTokens u) (c.seqToStream q) = .ok r ∧
      (r.isSome = true ↔ enough q) ∧ ∀ idxs, r = some idxs → good q idxs) :
    ∃ r, c.findSlot u cont = .ok r ∧ (r.isSome = true ↔ ∀ q ∈ c.slotSeqs u, enough q) ∧
      ∀ sl, r = some sl → sl.strm = (c.slotSeqs u).map c.seqToStream ∧ List.Forall₂ good (c.slotSeqs u) sl.idxs := by
  have hslot : c.findSlot u cont = c.findStreams u cont (c.slotTokens u) 0 (c.slotSeqs u)
      { s0 := llamaMaxSeq, s1 := 0, strm := [], idxs := [] } := by
    unfold findSlot slotTokens slotSeqs
    simp only []
    by_cases hmany : 1 < c.nStream
    · have hok : ¬ (u.seqIdUnq.length = 0 ∨ u.nTokens % u.seqIdUnq.length ≠ 0) := by
        rintro (hzero | hodd)
        · exact h.seqs (length_eq_zero_iff.1 hzero)
        · exact hodd (h.even hmany)
      rw [if_pos hmany, if_pos hmany, if_pos hmany, if_neg hok]
    · rw [if_neg hmany, if_neg hmany, if_neg hmany]
  have hassert : 1 < c.nStream → ∀ k < (c.slotSeqs u).length,
      u.seqId.getD ((0 + k) * c.slotTokens u) [] = [(c.slotSeqs u).getD k 0] := by
    intro hmany k hk
    unfold slotSeqs slotTokens at *
    rw [if_pos hmany] at hk ⊢
    rw [if_pos hmany, zero_add]
    exact h.blocks hmany k hk
  obtain ⟨r, hr, hiff, hgood⟩ :=
    @findStreams_exact _ _ _ _ _ _ _ _ { s0 := llamaMaxSeq, s1 := 0, strm := [], idxs := [] } hassert hfind
  refine ⟨r, hslot.trans hr, ?_, ?_⟩
  · rw [hiff]
    exact ⟨fun h' => h'.2, fun h' => ⟨fun hnil => absurd hnil h.slotSeqs_ne, h'⟩⟩
  · intro sl hsl
    obtain ⟨hstrm, l, hidxs, hall⟩ := hgood sl hsl
    refine ⟨hstrm, ?_⟩
    have hl : sl.idxs = l := hidxs
    rw [hl]
    exact hall

/-- `find_slot` ends, and finds distinct usable cells, or a run of them, exactly where there are any. -/
theorem findSlot_exact (hh : ∀ t, c.headOf t ≤ (c.cellsOf t).size) (hu : c.Placeable u) :
    (∃ r, c.findSlot u false = .ok r ∧ (r.isSome = true ↔ ∀ q ∈ c.slotSeqs u, c.slotTokens u ≤
        (List.range (c.cellsOf (c.seqToStream q)).size).countP (c.canUse (c.cellsOf (c.seqToStream q)))) ∧
      ∀ sl, r = some sl → sl.strm = (c.slotSeqs u).map c.seqToStream ∧
        List.Forall₂ (fun q idxs => FoundIn c (c.slotTokens u) (c.seqToStream q) idxs) (c.slotSeqs u) sl.idxs) ∧
    ∃ r, c.findSlot u true = .ok r ∧
      (r.isSome = true ↔ ∀ q ∈ c.slotSeqs u, ∃ i, RunAt (c.canUse (c.cellsOf (c.seqToStream q)))
        (c.cellsOf (c.seqToStream q)).size (c.slotTokens u) i) ∧
      ∀ sl, r = some sl → sl.strm = (c.slotSeqs u).map c.seqToStream ∧
        List.Forall₂ (fun q idxs => ∃ i, RunAt (c.canUse (c.cellsOf (c.seqToStream q)))
          (c.cellsOf (c.seqToStream q)).size (c.slotTokens u) i ∧ idxs = List.range' i (c.slotTokens u))
          (c.slotSeqs u) sl.idxs := by
  constructor
  · exact findSlot_streams hu fun q _ => findInStream_cells hu.slotTokens_pos (hh _)
  · refine findSlot_streams hu fun q _ => ?_
    obtain ⟨r, hr, hexact⟩ := findInStream_run (t := c.seqToStream q) hu.slotTokens_pos (hh _)
    refine ⟨r, hr, ?_, ?_⟩
    · rcases hexact with ⟨rfl, hno⟩ | ⟨i, hi, rfl⟩
      · exact ⟨nofun, fun ⟨i, hi⟩ => absurd hi (hno i)⟩
      · exact ⟨fun _ => ⟨i, hi⟩, fun _ => rfl⟩
    · rintro idxs rfl
      rcases hexact with ⟨hnone, _⟩ | ⟨i, hi, heq⟩
      · cases hnone
      · exact ⟨i, hi, Option.some.inj heq⟩

def fourCells : KvCache := KvCache.init false true false 4 1 0 .none 1 0

def twoTokens : Ubatch where
  nTokens := 2
  nPos := 1
  pos := [0, 1]
  seqId := [[0], [0]]
  seqIdUnq := [0]

/-- Two tokens are placed into the empty cache. -/
theorem findSlot_fourCells : ∃ sl, fourCells.findSlot twoTokens true = .ok (some sl) ∧ sl.strm = [0] := by
  have hheads : ∀ t, fourCells.headOf t ≤ (fourCells.cellsOf t).size := by
    intro t
    have hzero : fourCells.headOf t = 0 := by
      cases t with
      | zero => rfl
      | succ t => rfl
    rw [hzero]
    exact Nat.zero_le _
  have hplace : fourCells.Placeable twoTokens :=
    ⟨by decide, by decide, fun h => absurd h (by decide), fun h => absurd h (by decide)⟩
  obtain ⟨r, hr, hiff, hslot⟩ := (findSlot_exact hheads hplace).2
  have hsome : r.isSome = true := by
    refine hiff.2 fun q hq => ?_
    cases mem_singleton.1 hq
    refine ⟨0, by decide, ?_⟩
    decide
  obtain ⟨sl, rfl⟩ := Option.isSome_iff_exists.1 hsome
  exact ⟨sl, hr, (hslot sl rfl).1⟩

end Streams

end KvCache

end Mallana
