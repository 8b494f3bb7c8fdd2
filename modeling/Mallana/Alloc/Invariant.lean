import Mallana.Alloc.Basic
import Mathlib.Data.List.TakeWhile

/-!
# The invariant of a chunk

A chunk is tiled by its free blocks and the live allocations in it. Taking from a block of sufficient
size and freeing a live range that is not empty keep the tiling; the search only finds blocks of
sufficient size.
-/

namespace Mallana.Alloc

open Lib Range List

section Lists
variable {α : Type} {l pre post : List α} {a b : α} {i : Nat}

lemma exists_middle (h : l[i]? = some a) : ∃ pre post, l = pre ++ a :: post ∧ pre.length = i := by
  obtain ⟨hlt, rfl⟩ := List.getElem?_eq_some_iff.1 h
  refine ⟨l.take i, l.drop (i + 1), ?_, length_take_of_le (le_of_lt hlt)⟩
  rw [getElem_cons_drop, take_append_drop]

lemma set_middle (h : pre.length = i) : (pre ++ a :: post).set i b = pre ++ b :: post := by
  subst h
  simp

lemma eraseIdx_middle (h : pre.length = i) : (pre ++ a :: post).eraseIdx i = pre ++ post := by
  subst h
  rw [eraseIdx_append_of_length_le (Nat.le_refl _), Nat.sub_self]
  rfl

lemma getElem?_middle (h : pre.length = i) (k : Nat) : (pre ++ a :: post)[i + 1 + k]? = post[k]? := by
  subst h
  rw [getElem?_append_right (by omega), show pre.length + 1 + k - pre.length = k + 1 by omega]
  rfl

end Lists

/-- The block `i` of chunk `k` has room for `size` bytes. -/
def HasRoom (size : Nat) (chunks : List TallocrChunk) (k i : Nat) : Prop :=
  ∃ c b, chunks[k]? = some c ∧ c.freeBlocks[i]? = some b ∧ size ≤ b.size

variable {size i : Nat} {blocks : List FreeBlock} {k : Nat} {chunks : List TallocrChunk} {b : FreeBlock}
  {offset : Nat}

lemma bestFit_spec (h : bestFit size blocks = some i) : ∃ b, blocks[i]? = some b ∧ size ≤ b.size := by
  let P : Option Nat × Nat → Prop := fun best => ∀ i, best.1 = some i → ∃ b, blocks[i]? = some b ∧ size ≤ b.size
  suffices hP : P (blocks.dropLast.zipIdx.foldl (fun best b =>
      if size ≤ b.1.size ∧ b.1.size ≤ best.2 then (some b.2, b.1.size) else best) (none, sizeMax)) from hP i h
  refine List.foldlRecOn _ _ (by simp [P]) fun best hbest b hb => ?_
  split
  next hc =>
    intro j hj
    cases hj
    have hget := mem_zipIdx_iff_getElem?.1 hb
    rw [getElem?_dropLast] at hget
    split at hget
    · exact ⟨b.1, hget, hc.1⟩
    · cases hget
  next => exact hbest

lemma bestFitChunk_spec (h : bestFitChunk size chunks = some (k, i)) : HasRoom size chunks k i := by
  let P : Option (Nat × Nat) → Prop := fun best => ∀ k i, best = some (k, i) → HasRoom size chunks k i
  suffices hP : P (bestFitChunk size chunks) from hP k i h
  refine List.foldlRecOn _ _ (by simp [P]) fun best hbest c hc => ?_
  have hget := mem_zipIdx_iff_getElem?.1 hc
  cases hf : bestFit size c.1.freeBlocks with
  | none => exact hbest
  | some j =>
    intro k' i' he
    cases he
    obtain ⟨b, hb, hle⟩ := bestFit_spec hf
    exact ⟨c.1, b, hget, hb, hle⟩

lemma bestReuse_spec (h : bestReuse size chunks = some (k, i)) : HasRoom size chunks k i := by
  let P : Option (Nat × Nat) × Int → Prop := fun best => ∀ k i, best.1 = some (k, i) → HasRoom size chunks k i
  refine (?_ : P _) k i h
  refine List.foldlRecOn _ _ (by simp [P]) fun best hbest c hc => ?_
  have hget := mem_zipIdx_iff_getElem?.1 hc
  cases hl : c.1.freeBlocks.getLast? with
  | none => exact hbest
  | some block =>
    simp only
    split
    next hcond =>
      intro k' i' he
      cases he
      rw [getLast?_eq_getElem?] at hl
      exact ⟨c.1, block, hget, hl, hcond.1⟩
    next => exact hbest

lemma findBlock_spec (h : findBlock size chunks = some (k, i)) : HasRoom size chunks k i := by
  unfold findBlock at h
  cases hf : bestFitChunk size chunks with
  | some found =>
    rw [hf] at h
    cases h
    exact bestFitChunk_spec hf
  | none =>
    rw [hf] at h
    exact bestReuse_spec h

lemma alignedOffset_lt (offset alignment : Nat) : alignedOffset offset alignment < sizeMod :=
  Nat.mod_lt _ (by decide)

lemma dvd_alignedOffset {j : Nat} (hj : j ≤ 64) (offset : Nat) : 2 ^ j ∣ alignedOffset offset (2 ^ j) := by
  have hpos : 0 < 2 ^ j := Nat.two_pow_pos j
  have hmod : (2 ^ j : Nat) ∣ sizeMod := Nat.pow_dvd_pow 2 hj
  unfold alignedOffset
  rw [Nat.dvd_mod_iff hmod]
  have hdm := Nat.div_add_mod offset (2 ^ j)
  by_cases hz : offset % 2 ^ j = 0
  · rw [hz, Nat.sub_zero, Nat.mod_self, Nat.add_zero]
    exact Nat.dvd_of_mod_eq_zero hz
  · have hlt := Nat.mod_lt offset hpos
    rw [Nat.mod_eq_of_lt (by omega)]
    refine ⟨offset / 2 ^ j + 1, ?_⟩
    rw [mul_add, mul_one]
    omega

/-- The invariant of a chunk with these live ranges. -/
structure ChunkOk (align : Nat) (c : TallocrChunk) (live : List Range) : Prop where
  length_le : c.freeBlocks.length ≤ maxFreeBlocks
  tiled : ∃ cap < sizeMod, Tiled cap align c.freeBlocks live
  live_le : ∀ l ∈ live, l.stop ≤ c.maxSize

lemma shrink_eq {cap : Nat} (hcap : cap < sizeMod) (hb : b.stop ≤ cap)
    (hle : size ≤ b.size) : shrink b size = ⟨b.offset + size, b.size - size⟩ := by
  unfold stop at hb
  unfold shrink
  rw [Nat.mod_eq_of_lt (by omega), show b.size + sizeMod - size = b.size - size + sizeMod by omega,
    Nat.add_mod_right, Nat.mod_eq_of_lt (by omega)]

lemma ChunkOk.take {align : Nat} {c c' : TallocrChunk} {live : List Range}
    (h : ChunkOk align c live) (hb : c.freeBlocks[i]? = some b) (hle : size ≤ b.size) (hdvd : align ∣ size)
    (ht : takeBlock c i size = some (c', offset)) : ChunkOk align c' (⟨offset, size⟩ :: live) := by
  obtain ⟨cap, hcap, htiled⟩ := h.tiled
  have hstop := htiled.free_le b (mem_of_getElem? hb)
  have hsum : (b.offset + size) % sizeMod = b.offset + size := by
    refine Nat.mod_eq_of_lt ?_
    unfold stop at hstop
    omega
  unfold takeBlock at ht
  rw [hb] at ht
  simp only [shrink_eq hcap hstop hle, hsum] at ht
  cases ht
  obtain ⟨pre, post, heq, hlen⟩ := exists_middle hb
  have hmax : ∀ l ∈ (⟨b.offset, size⟩ : Range) :: live, l.stop ≤ max c.maxSize (b.offset + size) := by
    intro l hl
    obtain rfl | hl := mem_cons.1 hl
    · exact le_max_right _ _
    · exact le_trans (h.live_le l hl) (le_max_left _ _)
  have hlength := h.length_le
  rw [heq] at htiled hlength
  rw [heq, set_middle hlen]
  split
  next hz =>
    rw [removeBlock, eraseIdx_middle hlen]
    refine ⟨?_, ⟨cap, hcap, htiled.take rfl hle⟩, hmax⟩
    simp only [length_append, length_cons] at hlength ⊢
    omega
  next hz =>
    refine ⟨?_, ⟨cap, hcap, ?_⟩, hmax⟩
    · simp only [length_append, length_cons] at hlength ⊢
      omega
    · exact htiled.take_part (r := ⟨b.offset, size⟩) rfl (by simp only at hz ⊢; omega) hdvd

lemma touches_iff : touches offset size b = true ↔ b.stop = offset ∨ offset + size = b.offset := by
  simp [touches]

lemma findTouching_spec (h : findTouching blocks offset size = some i) :
    ∃ pre b post, blocks = pre ++ b :: post ∧ pre.length = i ∧ touches offset size b = true ∧
      ∀ a ∈ pre, touches offset size a = false := by
  obtain ⟨hlt, htouch, hbefore⟩ := findIdx?_eq_some_iff_getElem.1 h
  have hget := getElem?_eq_getElem hlt
  generalize blocks[i] = b at htouch hget
  obtain ⟨pre, post, rfl, hlen⟩ := exists_middle hget
  refine ⟨pre, b, post, rfl, hlen, htouch, fun a ha => ?_⟩
  obtain ⟨j, hj, rfl⟩ := getElem_of_mem ha
  have hne := hbefore j (by omega)
  rw [getElem_append_left hj] at hne
  simpa using hne

section Free
variable {cap align i : Nat} {b : FreeBlock} {pre post blocks' : List FreeBlock} {live : List Range} {r : Range}

/-- A range without a neighbour is inserted in order. -/
lemma insertBlock_tiled (h : Tiled cap align blocks (r :: live)) (hpos : 0 < r.size)
    (hfind : findTouching blocks r.offset r.size = none)
    (hf : insertBlock blocks r.offset r.size = some blocks') : Tiled cap align blocks' live := by
  unfold insertBlock at hf
  split at hf
  · cases hf
    have hno : ∀ b ∈ blocks, ¬ (b.stop = r.offset ∨ r.offset + r.size = b.offset) := by
      intro b hb hc
      have := findIdx?_eq_none_iff.1 hfind b hb
      rw [touches_iff.2 hc] at this
      cases this
    rw [← takeWhile_append_dropWhile (p := fun b : FreeBlock => decide (b.offset < r.offset)) (l := blocks)] at h
    refine h.give hpos ?_ ?_
    · intro a ha
      have hoff := mem_takeWhile_imp ha
      refine ⟨of_decide_eq_true hoff, fun hc => ?_⟩
      exact hno a ((takeWhile_sublist _).subset ha) (.inl hc)
    · intro c hc
      refine ⟨?_, fun he => hno c ((dropWhile_sublist _).subset hc) (.inr he)⟩
      -- the first block that is kept begins behind the range, and the blocks are sorted
      have hsp : Spaced (blocks.dropWhile fun b => decide (b.offset < r.offset)) :=
        (pairwise_append.1 h.spaced).2.1
      cases hd : blocks.dropWhile (fun b => decide (b.offset < r.offset)) with
      | nil =>
        rw [hd] at hc
        cases hc
      | cons d ds =>
        have hfirst : r.offset ≤ d.offset := by
          have := head?_dropWhile_not (fun b : FreeBlock => decide (b.offset < r.offset)) blocks
          rw [hd] at this
          simpa using this
        rw [hd] at hc hsp
        obtain rfl | hc := mem_cons.1 hc
        · exact hfirst
        · have := (pairwise_cons.1 hsp).1 c hc
          unfold stop at this
          omega
  · cases hf

section Merge
variable (h : Tiled cap align (pre ++ b :: post) (r :: live)) (hpos : 0 < r.size) (hlen : pre.length = i)
include h hpos hlen

/-- A range behind a block extends it, to the next block if they meet. -/
lemma mergeBehind_tiled (hend : b.stop = r.offset) :
    Tiled cap align (mergeBehind (pre ++ b :: post) i b r.size) live := by
  unfold mergeBehind
  have hnext : (pre ++ b :: post)[i + 1]? = post[0]? := getElem?_middle hlen 0
  rw [hnext]
  cases post with
  | nil =>
    simp only [getElem?_nil]
    rw [set_middle hlen]
    exact h.give_behind hpos hend (by simp)
  | cons next post =>
    simp only [getElem?_cons_zero]
    rw [set_middle hlen, set_middle hlen]
    have hstop : b.offset + (b.size + r.size) = r.stop := by
      unfold stop at hend ⊢
      omega
    rw [hstop]
    split
    next hmeet =>
      rw [removeBlock]
      have herase : (pre ++ ⟨b.offset, b.size + r.size + next.size⟩ :: next :: post).eraseIdx (i + 1) =
          pre ++ ⟨b.offset, b.size + r.size + next.size⟩ :: post := by
        rw [append_cons, append_cons pre _ post, eraseIdx_middle]
        rw [length_append, hlen]
        rfl
      rw [herase]
      exact h.give_between hend hmeet
    next hmeet =>
      refine h.give_behind hpos hend fun c hc => ?_
      obtain rfl | hc := mem_cons.1 hc
      · exact hmeet
      · -- the later blocks are behind the next one
        have hsp := (spaced_middle.1 h.spaced).1
        have h1 := (spaced_middle.1 hsp).2.2 c hc
        have h2 := (spaced_middle.1 h.spaced).2.2 next (by simp)
        have hap := h.apart next (by simp) r (by simp)
        have hsz := h.pos next (by simp)
        unfold Apart stop at *
        omega

/-- A range before a block extends it; no earlier block ends there, so nothing is merged. -/
lemma mergeBefore_tiled (hbeg : r.stop = b.offset) (hpre : ∀ a ∈ pre, a.stop ≠ r.offset) :
    Tiled cap align (mergeBefore (pre ++ b :: post) i b r.offset r.size) live := by
  have hmerge : mergeBefore (pre ++ b :: post) i b r.offset r.size =
      pre ++ ⟨r.offset, b.size + r.size⟩ :: post := by
    unfold mergeBefore
    cases hp : previous (pre ++ b :: post) i with
    | none => exact set_middle hlen
    | some prev =>
      have hmem : prev ∈ pre := by
        unfold previous at hp
        split at hp
        next hi =>
          rw [getElem?_append_left (by omega)] at hp
          exact mem_of_getElem? hp
        next => cases hp
      simp only
      rw [if_neg (hpre prev hmem)]
      exact set_middle hlen
  rw [hmerge]
  exact h.give_before hpos hbeg hpre

end Merge

lemma freeBlocks_tiled (h : Tiled cap align blocks (r :: live)) (hpos : 0 < r.size)
    (hf : freeBlocks blocks r.offset r.size = some blocks') : Tiled cap align blocks' live := by
  unfold freeBlocks at hf
  cases hfind : findTouching blocks r.offset r.size with
  | none =>
    rw [hfind] at hf
    exact insertBlock_tiled h hpos hfind hf
  | some i =>
    obtain ⟨pre, b, post, rfl, hlen, htouch, hbefore⟩ := findTouching_spec hfind
    have hget : (pre ++ b :: post)[i]? = some b := by
      subst hlen
      simp
    rw [hfind] at hf
    simp only [hget] at hf
    cases hf
    split
    next hend => exact mergeBehind_tiled h hpos hlen hend
    next hend =>
      refine mergeBefore_tiled h hpos hlen ((touches_iff.1 htouch).resolve_left hend) fun a ha hc => ?_
      have := hbefore a ha
      rw [touches_iff.2 (.inl hc)] at this
      cases this

end Free

end Mallana.Alloc
