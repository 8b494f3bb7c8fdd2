import Mallana.Alloc.Invariant
import Mallana.Lib.Reach

/-!
# Runs of the allocator

A state is the allocator with the live allocations. An allocation adds a live range, a free takes one
away. Three kinds of steps break what the allocator is for: removing a block from a full array reads
the element behind it; freeing an empty range can insert an empty block inside another one, and the
blocks are not sorted any more after the next allocation; the last chunk is smaller than a request
above `SIZE_MAX/2`, which is then taken from it nevertheless. In runs without such steps everything
holds (`reach_good`).
-/

namespace Mallana.Alloc

open Lib Range List

/-- A live allocation, with its padded size. -/
structure Live where
  chunk : Nat
  range : Range
deriving DecidableEq

/-- The allocator and what is allocated. -/
structure AllocState where
  alloc : DynTallocr
  live : List Live
deriving DecidableEq

def liveIn (k : Nat) (live : List Live) : List Range := (live.filter (·.chunk = k)).map (·.range)

/-- The calls. -/
inductive Op where
  | alloc (size : Nat)
  | free (addr : BufferAddress) (size : Nat)

/-- A call that returns: `free` gets a live allocation, with a size that is padded to its size. -/
inductive Step : AllocState → Op → AllocState → Prop where
  | alloc {s size a addr} : s.alloc.alloc size = some (a, addr) → Step s (.alloc size)
        ⟨a, ⟨addr.chunk, ⟨addr.offset, alignedOffset size s.alloc.alignment⟩⟩ :: s.live⟩
  | free {s addr size a l1 l2} :
      s.live = l1 ++ ⟨addr.chunk, ⟨addr.offset, alignedOffset size s.alloc.alignment⟩⟩ :: l2 →
      s.alloc.freeBytes addr size = some a → Step s (.free addr size) ⟨a, l1 ++ l2⟩

def accesses (a : DynTallocr) : Op → List Nat
  | .alloc size => a.allocAccesses size
  | .free addr size =>
    match a.chunks[addr.chunk]? with
    | none => []
    | some c => freeAccesses c.freeBlocks addr.offset (alignedOffset size a.alignment)

/-- The steps that the allocator can take: an allocation that uses up a block, or a free that joins two
    blocks, finds the array of the chunk not full; a chunk added as the last one has room for the
    request; what is freed is not empty. -/
def Allowed (a : DynTallocr) : Op → Prop
  | .alloc size =>
    (∀ k i c, findBlock (alignedOffset size a.alignment) a.chunks = some (k, i) → a.chunks[k]? = some c →
      (c.freeBlocks[i]?.map (·.size)) = some (alignedOffset size a.alignment) →
      c.freeBlocks.length < maxFreeBlocks) ∧
    (findBlock (alignedOffset size a.alignment) a.chunks = none →
      a.chunks.length = vbufferMaxChunks - 1 → alignedOffset size a.alignment ≤ sizeMax / 2)
  | .free addr size => 0 < alignedOffset size a.alignment ∧ ∀ c, a.chunks[addr.chunk]? = some c →
      freeRemoves c.freeBlocks addr.offset (alignedOffset size a.alignment) ≠ none →
      c.freeBlocks.length < maxFreeBlocks

/-- An allocator that was just created, with an alignment that is a power of 2. -/
def Initial (s : AllocState) : Prop :=
  ∃ j < 64, ∃ maxBufferSize, s = ⟨DynTallocr.new (2 ^ j) maxBufferSize, []⟩

/-- What the allocator is for. -/
structure Good (s : AllocState) : Prop where
  /-- free blocks are sorted, disjoint and not adjacent -/
  spaced : ∀ (k : Nat) (c : TallocrChunk), s.alloc.chunks[k]? = some c → Spaced c.freeBlocks
  /-- free blocks are disjoint from live allocations -/
  apart : ∀ (k : Nat) (c : TallocrChunk), s.alloc.chunks[k]? = some c → ∀ b ∈ c.freeBlocks, ∀ l ∈ liveIn k s.live, Apart b l
  /-- live allocations are pairwise disjoint -/
  live_apart : ∀ (k : Nat) (c : TallocrChunk), s.alloc.chunks[k]? = some c → (liveIn k s.live).Pairwise Apart
  /-- live allocations are aligned -/
  aligned : ∀ l ∈ s.live, s.alloc.alignment ∣ l.range.offset
  /-- live allocations end at or below `max_size` -/
  live_le : ∀ l ∈ s.live, ∃ c, s.alloc.chunks[l.chunk]? = some c ∧ l.range.stop ≤ c.maxSize

/-- The invariant. -/
structure Inv (s : AllocState) : Prop where
  alignment : ∃ j < 64, s.alloc.alignment = 2 ^ j
  maxChunkSize : s.alloc.maxChunkSize ≤ sizeMax / 2
  chunks : ∀ (k : Nat) (c : TallocrChunk), s.alloc.chunks[k]? = some c → ChunkOk s.alloc.alignment c (liveIn k s.live)
  live_lt : ∀ l ∈ s.live, l.chunk < s.alloc.chunks.length

variable {k : Nat} {live : List Live} {n : Nat} {s : AllocState} {size offset : Nat} {c : TallocrChunk}
  {addr : BufferAddress} {blocks : List FreeBlock} {op : Op} {s' : AllocState}

lemma mem_liveIn {r : Range} : r ∈ liveIn k live ↔ ⟨k, r⟩ ∈ live := by
  unfold liveIn
  simp only [mem_map, mem_filter, decide_eq_true_eq]
  constructor
  · rintro ⟨l, ⟨hl, rfl⟩, rfl⟩
    exact hl
  · intro h
    exact ⟨_, ⟨h, rfl⟩, rfl⟩

lemma liveIn_cons_self (k : Nat) (r : Range) (live : List Live) :
    liveIn k (⟨k, r⟩ :: live) = r :: liveIn k live := by
  simp [liveIn]

lemma liveIn_cons_of_ne {k' : Nat} (h : k' ≠ k) (r : Range) (live : List Live) :
    liveIn k (⟨k', r⟩ :: live) = liveIn k live := by
  simp [liveIn, h]

lemma liveIn_perm {l1 l2 : List Live} (h : l1.Perm l2) : (liveIn k l1).Perm (liveIn k l2) :=
  (h.filter _).map _

lemma liveIn_of_le (h : ∀ l ∈ live, l.chunk < n) (hk : n ≤ k) : liveIn k live = [] := by
  unfold liveIn
  rw [map_eq_nil_iff, filter_eq_nil_iff]
  intro l hl
  have := h l hl
  simp only [decide_eq_true_eq]
  omega

lemma Inv.good (h : Inv s) : Good s := by
  have hchunk : ∀ l ∈ s.live, ∃ c, s.alloc.chunks[l.chunk]? = some c := fun l hl =>
    ⟨_, getElem?_eq_getElem (h.live_lt l hl)⟩
  refine ⟨?_, ?_, ?_, ?_, ?_⟩
  · intro k c hc
    obtain ⟨cap, -, ht⟩ := (h.chunks k c hc).tiled
    exact ht.spaced
  · intro k c hc
    obtain ⟨cap, -, ht⟩ := (h.chunks k c hc).tiled
    exact ht.apart
  · intro k c hc
    obtain ⟨cap, -, ht⟩ := (h.chunks k c hc).tiled
    exact ht.live_apart
  · intro l hl
    obtain ⟨c, hc⟩ := hchunk l hl
    obtain ⟨cap, -, ht⟩ := (h.chunks l.chunk c hc).tiled
    exact ht.live_dvd l.range (mem_liveIn.2 hl)
  · intro l hl
    obtain ⟨c, hc⟩ := hchunk l hl
    exact ⟨c, hc, (h.chunks l.chunk c hc).live_le l.range (mem_liveIn.2 hl)⟩

lemma inv_of_initial (h : Initial s) : Inv s := by
  obtain ⟨j, hj, maxBufferSize, rfl⟩ := h
  refine ⟨⟨j, hj, rfl⟩, min_le_right _ _, ?_, by simp⟩
  intro k c hc
  simp [DynTallocr.new] at hc

lemma chunkOk_newChunk {align maxChunkSize : Nat} (hsize : size < sizeMod)
    (hmax : maxChunkSize ≤ sizeMax / 2) (hdvd : align ∣ size)
    (hlast : n = vbufferMaxChunks - 1 → size ≤ sizeMax / 2)
    (ht : takeBlock (newChunk maxChunkSize n size) 0 size = some (c, offset)) :
    ChunkOk align c [⟨offset, size⟩] := by
  have hhalf : sizeMax / 2 < sizeMod := by decide
  by_cases hn : n = vbufferMaxChunks - 1
  · have hok : ChunkOk align (newChunk maxChunkSize n size) [] := by
      rw [newChunk, if_pos hn]
      exact ⟨by decide, ⟨sizeMax / 2, hhalf, Tiled.single (by decide)⟩, by simp⟩
    refine hok.take (b := ⟨0, sizeMax / 2⟩) ?_ (hlast hn) hdvd ht
    rw [newChunk, if_pos hn]
    rfl
  by_cases hpos : 0 < max size maxChunkSize
  · have hok : ChunkOk align (newChunk maxChunkSize n size) [] := by
      rw [newChunk, if_neg hn]
      refine ⟨Nat.succ_le_of_lt (by decide), ⟨max size maxChunkSize, ?_, Tiled.single hpos⟩, by simp⟩
      exact Nat.max_lt.2 ⟨hsize, by omega⟩
    refine hok.take (b := ⟨0, max size maxChunkSize⟩) ?_ (le_max_left _ _) hdvd ht
    rw [newChunk, if_neg hn]
    rfl
  · have hz : size = 0 ∧ maxChunkSize = 0 := by omega
    obtain ⟨rfl, rfl⟩ := hz
    have hrun : takeBlock ⟨[⟨0, max 0 0⟩], 0⟩ 0 0 = some (⟨[], 0⟩, 0) := by decide
    rw [newChunk, if_neg hn, hrun] at ht
    cases ht
    refine ⟨by decide, ⟨0, by decide, ?_⟩, ?_⟩
    · exact ⟨List.Pairwise.nil, by simp, by simp, pairwise_singleton _ _, by simp, by simp [stop],
        by simp, by simp⟩
    · simp [stop]

lemma takeFrom_eq_some {chunks chunks' : List TallocrChunk} {i : Nat}
    (h : takeFrom chunks k i size = some (chunks', addr)) :
    ∃ c c', chunks[k]? = some c ∧ takeBlock c i size = some (c', addr.offset) ∧ addr.chunk = k ∧
      chunks' = chunks.set k c' := by
  unfold takeFrom at h
  cases hc : chunks[k]? with
  | none =>
    rw [hc] at h
    cases h
  | some c =>
    simp only [hc] at h
    cases ht : takeBlock c i size with
    | none =>
      rw [ht] at h
      cases h
    | some r =>
      rw [ht] at h
      cases h
      exact ⟨c, r.1, rfl, ht, rfl, rfl⟩

lemma Inv.set (h : Inv s) (hk : k < s.alloc.chunks.length) (hc : ChunkOk s.alloc.alignment c (liveIn k live))
    (hother : ∀ k', k' ≠ k → liveIn k' live = liveIn k' s.live)
    (hlt : ∀ l ∈ live, l.chunk < s.alloc.chunks.length) :
    Inv ⟨{ s.alloc with chunks := s.alloc.chunks.set k c }, live⟩ := by
  refine ⟨h.alignment, h.maxChunkSize, fun k' c' hc' => ?_, fun l hl => ?_⟩
  · simp only at hc'
    by_cases hkk : k' = k
    · subst hkk
      rw [getElem?_set_self hk] at hc'
      cases hc'
      exact hc
    · rw [getElem?_set_ne (Ne.symm hkk)] at hc'
      rw [hother k' hkk]
      exact h.chunks k' c' hc'
  · rw [length_set]
    exact hlt l hl

/-- An allowed allocation keeps the invariant. -/
lemma inv_alloc (h : Inv s) {a : DynTallocr}
    (hallowed : Allowed s.alloc (.alloc size)) (ha : s.alloc.alloc size = some (a, addr)) :
    Inv ⟨a, ⟨addr.chunk, ⟨addr.offset, alignedOffset size s.alloc.alignment⟩⟩ :: s.live⟩ := by
  obtain ⟨j, hj, hal⟩ := h.alignment
  have hdvd : s.alloc.alignment ∣ alignedOffset size s.alloc.alignment := by
    rw [hal]
    exact dvd_alignedOffset hj.le size
  have hlt := alignedOffset_lt size s.alloc.alignment
  unfold Allowed at hallowed
  obtain ⟨-, hlast⟩ := hallowed
  unfold DynTallocr.alloc at ha
  generalize alignedOffset size s.alloc.alignment = sz at *
  unfold chooseBlock at ha
  cases hf : findBlock sz s.alloc.chunks with
  | some ki =>
    obtain ⟨k, i⟩ := ki
    simp only [hf] at ha
    obtain ⟨c, b, hc, hb, hle⟩ := findBlock_spec hf
    cases ht : takeFrom s.alloc.chunks k i sz with
    | none =>
      rw [ht] at ha
      cases ha
    | some r =>
      rw [ht] at ha
      cases ha
      obtain ⟨c0, c', hc0, htake, hchunk, hset⟩ := takeFrom_eq_some ht
      rw [hc] at hc0
      cases hc0
      have hklt : k < s.alloc.chunks.length := (List.getElem?_eq_some_iff.1 hc).1
      rw [hset, hchunk]
      refine h.set hklt ?_ (fun k' hne => liveIn_cons_of_ne (Ne.symm hne) _ _) ?_
      · rw [liveIn_cons_self]
        exact (h.chunks k c hc).take hb hle hdvd htake
      · intro l hl
        obtain rfl | hl := mem_cons.1 hl
        · exact hklt
        · exact h.live_lt l hl
  | none =>
    simp only [hf] at ha
    split at ha
    · cases ha
    next chunks k i hchoose =>
      split at hchoose
      · cases hchoose
      · cases hchoose
        cases ht : takeFrom (s.alloc.chunks ++ [newChunk s.alloc.maxChunkSize s.alloc.chunks.length sz])
            s.alloc.chunks.length 0 sz with
        | none =>
          rw [ht] at ha
          cases ha
        | some r =>
          rw [ht] at ha
          cases ha
          obtain ⟨c0, c', hc0, htake, hchunk, hset⟩ := takeFrom_eq_some ht
          rw [getElem?_concat_length] at hc0
          cases hc0
          have hnew := chunkOk_newChunk hlt h.maxChunkSize hdvd (hlast hf) htake
          have hnone : liveIn s.alloc.chunks.length s.live = [] := liveIn_of_le h.live_lt (le_refl _)
          have hset' : r.1 = s.alloc.chunks ++ [c'] := by
            rw [hset, set_append_right _ _ (Nat.le_refl _), Nat.sub_self]
            rfl
          rw [hset', hchunk]
          refine ⟨h.alignment, h.maxChunkSize, fun k' d hd => ?_, fun l hl => ?_⟩
          · simp only at hd
            obtain hk | hk := lt_or_ge k' s.alloc.chunks.length
            · rw [getElem?_append_left hk] at hd
              rw [liveIn_cons_of_ne (by omega)]
              exact h.chunks k' d hd
            · have hk' : k' = s.alloc.chunks.length := by
                have := (List.getElem?_eq_some_iff.1 hd).1
                simp only [length_append, length_singleton] at this
                omega
              subst hk'
              rw [getElem?_concat_length] at hd
              cases hd
              rw [liveIn_cons_self, hnone]
              exact hnew
          · simp only [length_append, length_singleton]
            obtain rfl | hl := mem_cons.1 hl
            · simp
            · have := h.live_lt l hl
              omega

lemma length_freeBlocks_le {blocks' : List FreeBlock}
    (hlen : blocks.length ≤ maxFreeBlocks) (h : freeBlocks blocks offset size = some blocks') :
    blocks'.length ≤ maxFreeBlocks := by
  unfold freeBlocks at h
  cases hf : findTouching blocks offset size with
  | none =>
    simp only [hf, insertBlock] at h
    split at h
    next hlt =>
      cases h
      have htd := congrArg List.length
        (takeWhile_append_dropWhile (p := fun b : FreeBlock => decide (b.offset < offset)) (l := blocks))
      rw [length_append] at htd
      rw [length_append, length_cons]
      omega
    next => cases h
  | some i =>
    simp only [hf] at h
    cases hb : blocks[i]? with
    | none =>
      rw [hb] at h
      cases h
    | some b =>
      simp only [hb] at h
      cases h
      unfold mergeBehind mergeBefore removeBlock
      split
      · split
        · split
          · have := length_eraseIdx_le
              (l := blocks.set i ⟨b.offset, b.size + size + (‹FreeBlock› : FreeBlock).size⟩) (i := i + 1)
            rw [length_set] at this
            omega
          · rw [length_set]
            exact hlen
        · rw [length_set]
          exact hlen
      · split
        · split
          · refine le_trans (length_eraseIdx_le _ _) ?_
            rw [length_set, length_set]
            exact hlen
          · rw [length_set]
            exact hlen
        · rw [length_set]
          exact hlen

lemma inv_free (h : Inv s) {a : DynTallocr} {l1 l2 : List Live} (hallowed : Allowed s.alloc (.free addr size))
    (hlive : s.live = l1 ++ ⟨addr.chunk, ⟨addr.offset, alignedOffset size s.alloc.alignment⟩⟩ :: l2)
    (ha : s.alloc.freeBytes addr size = some a) : Inv ⟨a, l1 ++ l2⟩ := by
  obtain ⟨hpos, -⟩ := hallowed
  have hperm : s.live.Perm (⟨addr.chunk, ⟨addr.offset, alignedOffset size s.alloc.alignment⟩⟩ :: (l1 ++ l2)) := by
    rw [hlive]
    exact perm_middle
  unfold DynTallocr.freeBytes at ha
  generalize alignedOffset size s.alloc.alignment = sz at *
  cases hc : s.alloc.chunks[addr.chunk]? with
  | none =>
    rw [hc] at ha
    cases ha
  | some c =>
    simp only [hc] at ha
    cases hfree : freeBlocks c.freeBlocks addr.offset sz with
    | none =>
      rw [hfree] at ha
      cases ha
    | some blocks =>
      rw [hfree] at ha
      cases ha
      have hok := h.chunks addr.chunk c hc
      obtain ⟨cap, hcap, ht⟩ := hok.tiled
      have hp := liveIn_perm (k := addr.chunk) hperm
      rw [liveIn_cons_self] at hp
      refine h.set (List.getElem?_eq_some_iff.1 hc).1 ⟨?_, ⟨cap, hcap, ?_⟩, ?_⟩ ?_ ?_
      · exact length_freeBlocks_le hok.length_le hfree
      · exact freeBlocks_tiled (r := ⟨addr.offset, sz⟩) (ht.perm hp) hpos hfree
      · exact fun l hl => hok.live_le l (hp.mem_iff.2 (mem_cons_of_mem _ hl))
      · intro k' hne
        rw [hlive]
        unfold liveIn
        rw [filter_append, filter_append, filter_cons_of_neg (by simpa using Ne.symm hne)]
      · intro l hl
        exact h.live_lt l (hperm.mem_iff.2 (mem_cons_of_mem _ hl))

lemma removeAccesses_lt {idx : Nat} (h : blocks.length < maxFreeBlocks) :
    ∀ i ∈ removeAccesses blocks idx, i < maxFreeBlocks := by
  intro i hi
  unfold removeAccesses at hi
  obtain ⟨j, hj, hi⟩ := mem_flatMap.1 hi
  rw [mem_range'_1] at hj
  simp only [mem_cons, not_mem_nil, or_false] at hi
  omega

lemma insertAccesses_lt (blocks : List FreeBlock) (offset : Nat) :
    ∀ i ∈ insertAccesses blocks offset, i < maxFreeBlocks := by
  intro i hi
  have htake : (blocks.takeWhile (·.offset < offset)).length ≤ blocks.length :=
    (takeWhile_sublist _).length_le
  unfold insertAccesses at hi
  simp only at hi
  split at hi
  next hlt =>
    obtain hi | hi := mem_append.1 hi
    · obtain hi | hi := mem_append.1 hi
      · have := mem_range.1 hi
        omega
      · obtain ⟨j, hj, hi⟩ := mem_flatMap.1 hi
        rw [mem_range'_1] at hj
        simp only [mem_cons, not_mem_nil, or_false] at hi
        omega
    · obtain rfl := mem_singleton.1 hi
      omega
  next => cases hi

lemma freeAccesses_lt (hlen : blocks.length ≤ maxFreeBlocks)
    (h : freeRemoves blocks offset size ≠ none → blocks.length < maxFreeBlocks) :
    ∀ i ∈ freeAccesses blocks offset size, i < maxFreeBlocks := by
  intro i hi
  unfold freeAccesses at hi
  obtain hi | hi := mem_append.1 hi
  · obtain hi | hi := mem_append.1 hi
    · have := mem_range.1 hi
      omega
    · split at hi
      · exact insertAccesses_lt blocks offset i hi
      · cases hi
  · split at hi
    · cases hi
    next idx hr => exact removeAccesses_lt (h (by rw [hr]; exact Option.some_ne_none _)) i hi

lemma takeAccesses_lt {cap i : Nat} {b : FreeBlock} (hcap : cap < sizeMod)
    (hlen : c.freeBlocks.length ≤ maxFreeBlocks) (hb : c.freeBlocks[i]? = some b) (hstop : b.stop ≤ cap)
    (hle : size ≤ b.size) (h : b.size = size → c.freeBlocks.length < maxFreeBlocks) :
    ∀ j ∈ takeAccesses c i size, j < maxFreeBlocks := by
  intro j hj
  unfold takeAccesses at hj
  rw [hb, Option.map_some, shrink_eq hcap hstop hle] at hj
  obtain rfl | hj := mem_cons.1 hj
  · have := (List.getElem?_eq_some_iff.1 hb).1
    omega
  · split at hj
    next hz =>
      have hz : b.size - size = 0 := Option.some.inj hz
      exact removeAccesses_lt (h (by omega)) j hj
    next => cases hj

lemma takeAccesses_newChunk_lt {maxChunkSize : Nat} :
    ∀ j ∈ takeAccesses (newChunk maxChunkSize n size) 0 size, j < maxFreeBlocks := by
  have hlen : (newChunk maxChunkSize n size).freeBlocks.length = 1 := by
    unfold newChunk
    split <;> rfl
  intro j hj
  unfold takeAccesses at hj
  obtain rfl | hj := mem_cons.1 hj
  · decide
  · split at hj
    · exact removeAccesses_lt (by rw [hlen]; decide) j hj
    · cases hj

lemma accesses_lt (h : Inv s) (hallowed : Allowed s.alloc op) : ∀ i ∈ accesses s.alloc op, i < maxFreeBlocks := by
  cases op with
  | free addr size =>
    intro i hi
    unfold accesses at hi
    cases hc : s.alloc.chunks[addr.chunk]? with
    | none =>
      simp only [hc] at hi
      cases hi
    | some c =>
      simp only [hc] at hi
      exact freeAccesses_lt (h.chunks _ c hc).length_le (hallowed.2 c hc) i hi
  | alloc size =>
    intro i hi
    unfold accesses DynTallocr.allocAccesses at hi
    obtain ⟨hfull, -⟩ := hallowed
    obtain hi | hi := mem_append.1 hi
    · obtain ⟨c, hcm, hi⟩ := mem_flatMap.1 hi
      obtain ⟨k, hk⟩ := mem_iff_getElem?.1 hcm
      have := mem_range.1 hi
      have := (h.chunks k c hk).length_le
      omega
    · unfold chooseBlock at hi
      cases hf : findBlock (alignedOffset size s.alloc.alignment) s.alloc.chunks with
      | some ki =>
        obtain ⟨k, j⟩ := ki
        simp only [hf] at hi
        obtain ⟨c, b, hc, hb, hle⟩ := findBlock_spec hf
        simp only [hc] at hi
        have hok := h.chunks k c hc
        obtain ⟨cap, hcap, ht⟩ := hok.tiled
        refine takeAccesses_lt hcap hok.length_le hb (ht.free_le b (mem_of_getElem? hb)) hle ?_ i hi
        intro hsz
        exact hfull k j c hf hc (by rw [hb, Option.map_some, hsz])
      | none =>
        simp only [hf] at hi
        split at hi
        · cases hi
        next chunks k j hchoose =>
          split at hchoose
          · cases hchoose
          · cases hchoose
            rw [getElem?_concat_length] at hi
            exact takeAccesses_newChunk_lt i hi

abbrev Runs : AllocState → Prop := Reach Initial fun s op s' => Step s op s' ∧ Allowed s.alloc op

lemma inv_step (h : Inv s) (hstep : Step s op s') (hallowed : Allowed s.alloc op) : Inv s' := by
  cases hstep with
  | alloc ha => exact inv_alloc h hallowed ha
  | free hlive ha => exact inv_free h hallowed hlive ha

/-- In every state of such a run the allocator is as it should be, and the next call, if it is allowed,
    accesses free blocks at indices below `MAX_FREE_BLOCKS` only. -/
theorem reach_good {s : AllocState} (run : Runs s) :
    Good s ∧ ∀ op, Allowed s.alloc op → ∀ i ∈ accesses s.alloc op, i < maxFreeBlocks := by
  have hinv : Inv s := run.invariant (fun _ h => inv_of_initial h) fun s op s' h hs => inv_step h hs.1 hs.2
  exact ⟨hinv.good, fun op => accesses_lt hinv⟩

/-- Run a call; `free` takes away the first live allocation that fits. -/
def exec (s : AllocState) : Op → Option AllocState
  | .alloc size =>
    match s.alloc.alloc size with
    | none => none
    | some (a, addr) =>
      some ⟨a, ⟨addr.chunk, ⟨addr.offset, alignedOffset size s.alloc.alignment⟩⟩ :: s.live⟩
  | .free addr size =>
    if ⟨addr.chunk, ⟨addr.offset, alignedOffset size s.alloc.alignment⟩⟩ ∈ s.live then
      match s.alloc.freeBytes addr size with
      | none => none
      | some a => some ⟨a, s.live.erase ⟨addr.chunk, ⟨addr.offset, alignedOffset size s.alloc.alignment⟩⟩⟩
    else none

lemma step_of_exec (h : exec s op = some s') : Step s op s' := by
  cases op with
  | alloc size =>
    simp only [exec] at h
    cases ha : s.alloc.alloc size with
    | none =>
      rw [ha] at h
      cases h
    | some r =>
      rw [ha] at h
      cases h
      exact Step.alloc ha
  | free addr size =>
    simp only [exec] at h
    split at h
    next hmem =>
      cases ha : s.alloc.freeBytes addr size with
      | none =>
        rw [ha] at h
        cases h
      | some a =>
        rw [ha] at h
        cases h
        obtain ⟨l1, l2, -, heq, herase⟩ := exists_erase_eq hmem
        rw [herase]
        exact Step.free heq ha
    next => cases h

instance (a : DynTallocr) (op : Op) : Decidable (Allowed a op) :=
  match op with
  | .alloc size => decidable_of_iff
      ((∀ ki ∈ findBlock (alignedOffset size a.alignment) a.chunks, ∀ c ∈ a.chunks[ki.1]?,
        (c.freeBlocks[ki.2]?.map (·.size)) = some (alignedOffset size a.alignment) →
          c.freeBlocks.length < maxFreeBlocks) ∧ (findBlock (alignedOffset size a.alignment) a.chunks = none →
        a.chunks.length = vbufferMaxChunks - 1 → alignedOffset size a.alignment ≤ sizeMax / 2))
      (and_congr_left' ⟨fun h k i c hf hc => h (k, i) hf c hc, fun h ki hf c hc => h ki.1 ki.2 c hf hc⟩)
  | .free addr size => inferInstanceAs (Decidable (0 < alignedOffset size a.alignment ∧ ∀ c ∈ a.chunks[addr.chunk]?,
      freeRemoves c.freeBlocks addr.offset (alignedOffset size a.alignment) ≠ none → c.freeBlocks.length < maxFreeBlocks))

/-- Of three allocations the second and the third are freed, the third between two free blocks. -/
def twoFreed : List Op := [.alloc 40, .alloc 32, .alloc 32, .free ⟨0, 64⟩ 32, .free ⟨0, 96⟩ 32]

/-- One allocation of 64 bytes is left, and the free blocks are one again. -/
theorem twoFreed_good : Good ⟨⟨32, 1024, [⟨[⟨64, 960⟩], 128⟩]⟩, [⟨0, ⟨0, 64⟩⟩]⟩ := by
  have hrun : twoFreed.foldlM (fun s op => if Allowed s.alloc op then exec s op else none)
      ⟨DynTallocr.new (2 ^ 5) 1024, []⟩ =
      some ⟨⟨32, 1024, [⟨[⟨64, 960⟩], 128⟩]⟩, [⟨0, ⟨0, 64⟩⟩]⟩ := by decide +kernel
  refine (reach_good ((Reach.init ⟨5, by decide, 1024, rfl⟩).of_foldlM ?_ hrun)).1
  intro op _ s s' hs
  obtain ⟨hallowed, hs⟩ := Option.ite_none_right_eq_some.1 hs
  exact ⟨step_of_exec hs, hallowed⟩

/-- An allocation of 32 bytes and one of none, both freed, then one of 64 bytes. -/
def emptyFreed : List Op := [.alloc 32, .alloc 0, .free ⟨0, 0⟩ 32, .free ⟨0, 32⟩ 0, .alloc 64]

/-- Freeing an empty allocation can leave free blocks that are not sorted. -/
theorem unsorted_after_empty_free : ∃ s, Reach Initial Step s ∧ ¬ Good s := by
  have hrun : emptyFreed.foldlM exec ⟨DynTallocr.new (2 ^ 5) 1024, []⟩ =
      some ⟨⟨32, 1024, [⟨[⟨64, 960⟩, ⟨32, 0⟩], 64⟩]⟩, [⟨0, ⟨0, 64⟩⟩]⟩ := by decide +kernel
  refine ⟨_, (Reach.init ⟨5, by decide, 1024, rfl⟩).of_foldlM (fun _ _ _ _ => step_of_exec) hrun, fun hgood => ?_⟩
  exact absurd (hgood.spaced 0 _ rfl) (by decide)

end Mallana.Alloc
