import Mallana.Grammar.Pieces

/-!
# Characters that are cut off

`llama_grammar_match_partial_char` compares a class with the interval of the code points that a partial UTF-8 sequence
can become. An item of the class that meets the interval decides the answer. That is not enough for a negated class,
where the items have to cover the interval for the answer to be no. The interval may also reach beyond U+10FFFF, and an
item that is empty, as its bounds are in the wrong order, may meet it.
-/

namespace Mallana

open Tokenizer List

namespace PartialUtf8

/-- The states that `decode_utf8` leaves behind texts. -/
inductive Reached : PartialUtf8 → Prop where
  | start : Reached {}
  | next {s : PartialUtf8} (text : List UInt8) : Reached s → Reached (Grammar.decodeUtf8 text s).2

/-- The encoding of the code point goes on where the state left off. -/
def CompletedBy (s : PartialUtf8) (c : UInt32) : Prop :=
  ∃ head tail, cptToUtf8 c = some (head ++ tail) ∧ (tail.length : Int) = s.nRemain ∧ (Grammar.decodeUtf8 head {}).2 = s

def Overlong (s : PartialUtf8) : Prop := s.nRemain = 1 ∧ s.value < 2

/-- The first code point that `llama_grammar_match_partial_char` takes into account. -/
def low (s : PartialUtf8) : UInt32 :=
  let low := s.value <<< UInt32.ofNat (s.nRemain.toNat * 6)
  if low = 0 then (if s.nRemain = 2 then 2048 else if s.nRemain = 3 then 65536 else low) else low

def high (s : PartialUtf8) : UInt32 :=
  (s.value <<< UInt32.ofNat (s.nRemain.toNat * 6)) ||| ((1 <<< UInt32.ofNat (s.nRemain.toNat * 6)) - 1)

/-- The bits that are known leave room for those that are missing. -/
def Small (value : UInt32) (nRemain : Int) : Prop :=
  nRemain ≤ 0 ∨ nRemain = 1 ∧ value.toNat < 65536 ∨ nRemain = 2 ∧ value.toNat < 1024 ∨ nRemain = 3 ∧ value.toNat < 16

end PartialUtf8

namespace Grammar

open PartialUtf8

lemma and_lt (b : UInt8) : (b &&& 63).toNat < 64 ∧ (b &&& 31).toNat < 32 ∧ (b &&& 15).toNat < 16 := by
  simp only [UInt8.toNat_and]
  exact ⟨Nat.lt_succ_of_le Nat.and_le_right, Nat.lt_succ_of_le Nat.and_le_right, Nat.lt_succ_of_le Nat.and_le_right⟩

variable {value : UInt32} {nRemain : Int} {v : Nat}

lemma toNat_nextBits (b : UInt8) (h : value.toNat < 65536) :
    (nextBits value b).toNat = 64 * value.toNat + (b &&& 63).toNat := by
  have hb := (and_lt b).1
  simp only [nextBits, UInt32.toNat_add, UInt32.toNat_shiftLeft, UInt8.toNat_toUInt32, Nat.shiftLeft_eq,
    UInt32.reduceToNat, Nat.reduceMod, Nat.reducePow]
  omega

lemma Small.nextBits (h : Small value nRemain) (b : UInt8) : Small (nextBits value b) (nRemain - 1) := by
  have hb := (and_lt b).1
  rcases h with hle | ⟨rfl, hv⟩ | ⟨rfl, hv⟩ | ⟨rfl, hv⟩
  · exact .inl (by omega)
  · exact .inl (by omega)
  · refine .inr (.inl ⟨rfl, ?_⟩)
    rw [toNat_nextBits b (by omega)]
    omega
  · refine .inr (.inr (.inl ⟨rfl, ?_⟩))
    rw [toNat_nextBits b (by omega)]
    omega

lemma small_firstBits (b : UInt8) : Small (firstBits b (followBytes b)) (followBytes b) := by
  obtain ⟨h63, h31, h15⟩ := and_lt b
  unfold followBytes
  split
  · exact .inl (Int.le_refl 0)
  split
  · exact .inl (by decide)
  split
  · refine .inr (.inl ⟨rfl, ?_⟩)
    change (b &&& 63).toUInt32.toNat < _
    rw [UInt8.toNat_toUInt32]
    omega
  split
  · refine .inr (.inr (.inl ⟨rfl, ?_⟩))
    change (b &&& 31).toUInt32.toNat < _
    rw [UInt8.toNat_toUInt32]
    omega
  · refine .inr (.inr (.inr ⟨rfl, ?_⟩))
    change (b &&& 15).toUInt32.toNat < _
    rw [UInt8.toNat_toUInt32]
    omega

lemma small_decodeLoop (h : Small value nRemain) (bs : List UInt8) (codePoints : List UInt32) :
    Small (decodeLoop bs value nRemain codePoints).2.value (decodeLoop bs value nRemain codePoints).2.nRemain := by
  induction bs generalizing value nRemain codePoints with
  | nil => exact h
  | cons b bs ih =>
    rw [decodeLoop]
    split
    · exact ih (Small.nextBits h b) _
    · simp only []
      split
      · rename_i hneg
        exact .inl (Int.le_of_lt hneg)
      · exact ih (small_firstBits b) _

lemma small_decodeStart (h : Small value nRemain) {bs : List UInt8}
    {r : List UInt8 × UInt32 × Int} (hr : decodeStart bs value nRemain = some r) : Small r.2.1 r.2.2 := by
  induction bs generalizing value nRemain with
  | nil =>
    cases hr
    exact h
  | cons b bs ih =>
    rw [decodeStart] at hr
    split at hr
    · split at hr
      · exact ih (Small.nextBits h b) hr
      · cases hr
    · cases hr
      exact h

lemma reached_small {s : PartialUtf8} (h : s.Reached) : Small s.value s.nRemain := by
  induction h with
  | start => exact .inl (Int.le_refl 0)
  | @next s text _ ih =>
    unfold decodeUtf8
    cases hr : decodeStart (text.takeWhile (· ≠ 0)) s.value s.nRemain with
    | none => exact .inl (Int.neg_nonpos_of_nonneg (Int.zero_le_ofNat 1))
    | some r => exact small_decodeLoop (small_decodeStart ih hr) _ _

lemma firstBits_two : ∀ y < 32, firstBits (UInt8.ofNat (0xc0 + y)) 1 = UInt32.ofNat y := by decide

lemma firstBits_three : ∀ y < 16, firstBits (UInt8.ofNat (0xe0 + y)) 2 = UInt32.ofNat y := by decide

lemma firstBits_four : ∀ y < 8, firstBits (UInt8.ofNat (0xf0 + y)) 3 = UInt32.ofNat y := by decide

lemma tail_bits : ∀ y < 64, (UInt8.ofNat (0x80 + y) &&& 63).toNat = y := by decide

lemma toNat_ofNat_lt (h : v < 4294967296) : (UInt32.ofNat v).toNat = v := UInt32.toNat_ofNat_of_lt' h

lemma nextBits_tail {y : Nat} (hv : v < 65536) (hy : y < 64) :
    nextBits (UInt32.ofNat v) (UInt8.ofNat (0x80 + y)) = UInt32.ofNat (64 * v + y) := by
  have hv' : (UInt32.ofNat v).toNat = v := toNat_ofNat_lt (by omega)
  apply UInt32.toNat_inj.1
  rw [toNat_nextBits _ (by omega), tail_bits y hy, hv', toNat_ofNat_lt (by omega)]

lemma decodeLoop_lead {b : UInt8} {k : Nat} (hk : 0 < k) (hb : followBytes b = k)
    (hv : firstBits b k = UInt32.ofNat v) (bs : List UInt8) :
    decodeLoop (b :: bs) 0 0 [] = decodeLoop bs (UInt32.ofNat v) k [] := by
  rw [decodeLoop, if_neg (Int.lt_irrefl 0), hb]
  simp only []
  rw [if_neg (by omega), hv, if_neg (by omega)]

lemma decodeLoop_tail {y k : Nat} (hk : 0 < k) (hy : y < 64) (hv : v < 65536) (bs : List UInt8) :
    decodeLoop (UInt8.ofNat (0x80 + y) :: bs) (UInt32.ofNat v) (k + 1 : Nat) [] =
      decodeLoop bs (UInt32.ofNat (64 * v + y)) k [] := by
  rw [decodeLoop, if_pos (by omega), nextBits_tail hv hy]
  simp only []
  rw [if_neg (by omega)]
  congr 1
  omega

section
variable {c : UInt32} {k : Nat}

lemma decodeLoop_two (hc : c.toNat ≤ 0x7ff) (hk : 0 < k) (hlt : k < 2) :
    (decodeLoop ([tagged 0xc0 c 6 0x1f, tagged 0x80 c 0 0x3f].take k) 0 0 []).2 =
      ⟨UInt32.ofNat (c.toNat / 64 ^ (2 - k)), (2 - k : Nat)⟩ := by
  obtain rfl : k = 1 := by omega
  have ha : c.toNat / 2 ^ (6 : UInt32).toNat % 2 ^ 5 < 32 := Nat.mod_lt _ (by decide)
  rw [tagged_eq 5 (by decide) rfl (by decide)]
  change (decodeLoop [UInt8.ofNat (0xc0 + _)] 0 0 []).2 = _
  rw [decodeLoop_lead (by decide) (follow_two _ ha) (firstBits_two _ ha)]
  change (⟨UInt32.ofNat (c.toNat / 64 % 32), _⟩ : PartialUtf8) = ⟨UInt32.ofNat (c.toNat / 64), _⟩
  congr 2
  omega

lemma decodeLoop_three (hc : c.toNat ≤ 0xffff) (hk : 0 < k) (hlt : k < 3) :
    (decodeLoop ([tagged 0xe0 c 12 0x0f, tagged 0x80 c 6 0x3f, tagged 0x80 c 0 0x3f].take k) 0 0 []).2 =
      ⟨UInt32.ofNat (c.toNat / 64 ^ (3 - k)), (3 - k : Nat)⟩ := by
  have ha : c.toNat / 2 ^ (12 : UInt32).toNat % 2 ^ 4 < 16 := Nat.mod_lt _ (by decide)
  have hb : c.toNat / 2 ^ (6 : UInt32).toNat % 64 < 64 := Nat.mod_lt _ (by decide)
  rw [tagged_eq 4 (by decide) rfl (by decide), tagged_tail c 6 (by decide)]
  rcases (by omega : k = 1 ∨ k = 2) with rfl | rfl
  · change (decodeLoop [UInt8.ofNat (0xe0 + _)] 0 0 []).2 = _
    rw [decodeLoop_lead (by decide) (follow_three _ ha) (firstBits_three _ ha)]
    change (⟨UInt32.ofNat (c.toNat / 4096 % 16), _⟩ : PartialUtf8) = ⟨UInt32.ofNat (c.toNat / 4096), _⟩
    congr 2
    omega
  · change (decodeLoop [UInt8.ofNat (0xe0 + _), _] 0 0 []).2 = _
    rw [decodeLoop_lead (by decide) (follow_three _ ha) (firstBits_three _ ha),
      decodeLoop_tail (by decide) hb (by omega)]
    change (⟨UInt32.ofNat (64 * (c.toNat / 4096 % 16) + c.toNat / 64 % 64), _⟩ : PartialUtf8) =
      ⟨UInt32.ofNat (c.toNat / 64), _⟩
    congr 2
    omega

lemma decodeLoop_four (hc : c.toNat ≤ 0x10ffff) (hk : 0 < k) (hlt : k < 4) :
    (decodeLoop ([tagged 0xf0 c 18 0x07, tagged 0x80 c 12 0x3f, tagged 0x80 c 6 0x3f, tagged 0x80 c 0 0x3f].take k)
      0 0 []).2 = ⟨UInt32.ofNat (c.toNat / 64 ^ (4 - k)), (4 - k : Nat)⟩ := by
  have ha : c.toNat / 2 ^ (18 : UInt32).toNat % 2 ^ 3 < 8 := Nat.mod_lt _ (by decide)
  have hb : c.toNat / 2 ^ (12 : UInt32).toNat % 64 < 64 := Nat.mod_lt _ (by decide)
  have hd : c.toNat / 2 ^ (6 : UInt32).toNat % 64 < 64 := Nat.mod_lt _ (by decide)
  rw [tagged_eq 3 (by decide) rfl (by decide), tagged_tail c 12 (by decide), tagged_tail c 6 (by decide)]
  rcases (by omega : k = 1 ∨ k = 2 ∨ k = 3) with rfl | rfl | rfl
  · change (decodeLoop [UInt8.ofNat (0xf0 + _)] 0 0 []).2 = _
    rw [decodeLoop_lead (by decide) (follow_four _ ha) (firstBits_four _ ha)]
    change (⟨UInt32.ofNat (c.toNat / 262144 % 8), _⟩ : PartialUtf8) = ⟨UInt32.ofNat (c.toNat / 262144), _⟩
    congr 2
    omega
  · change (decodeLoop [UInt8.ofNat (0xf0 + _), _] 0 0 []).2 = _
    rw [decodeLoop_lead (by decide) (follow_four _ ha) (firstBits_four _ ha),
      decodeLoop_tail (by decide) hb (by omega)]
    change (⟨UInt32.ofNat (64 * (c.toNat / 262144 % 8) + c.toNat / 4096 % 64), _⟩ : PartialUtf8) =
      ⟨UInt32.ofNat (c.toNat / 4096), _⟩
    congr 2
    omega
  · change (decodeLoop [UInt8.ofNat (0xf0 + _), _, _] 0 0 []).2 = _
    rw [decodeLoop_lead (by decide) (follow_four _ ha) (firstBits_four _ ha),
      decodeLoop_tail (by decide) hb (by omega), decodeLoop_tail (by decide) hd (by omega)]
    change (⟨UInt32.ofNat (64 * (64 * (c.toNat / 262144 % 8) + c.toNat / 4096 % 64) + c.toNat / 64 % 64), _⟩ :
      PartialUtf8) = ⟨UInt32.ofNat (c.toNat / 64), _⟩
    congr 2
    omega

variable {bytes : List UInt8}

lemma decodeUtf8_take (h : cptToUtf8 c = some bytes) (hk : 0 < k) (hlt : k < bytes.length) :
    decodeUtf8 (bytes.take k) {} = decodeLoop (bytes.take k) 0 0 [] := by
  refine @decodeUtf8_eq (bytes.drop k) _ _ ?_
  rw [take_append_drop]
  have henc : cptsToUtf8 [c] = some bytes := by
    rw [@cptsToUtf8_cons_some _ _ _ [] h rfl, append_nil]
  refine utf8From_encode henc ?_
  obtain ⟨b, tl, rfl, hlead, htl⟩ := cptToUtf8_lead h
  intro hmem
  rcases mem_cons.1 hmem with rfl | hmem
  · have hfollow := followBytes_lead hlead
    have hzero : followBytes 0 = 0 := by decide
    rw [length_cons] at hlt
    omega
  · obtain ⟨y, hy, heq⟩ := htl 0 hmem
    have := tail_shift y hy
    rw [← heq] at this
    exact absurd this (by decide)

def encodedLength (c : Nat) : Nat := if c < 0x80 then 1 else if c < 0x800 then 2 else if c < 0x10000 then 3 else 4

lemma decode_take (h : cptToUtf8 c = some bytes) :
    bytes.length = encodedLength c.toNat ∧ ∀ k, 0 < k → k < bytes.length → (decodeUtf8 (bytes.take k) {}).2 =
        ⟨UInt32.ofNat (c.toNat / 64 ^ (bytes.length - k)), (bytes.length - k : Nat)⟩ := by
  suffices loop : bytes.length = encodedLength c.toNat ∧ ∀ k, 0 < k → k < bytes.length →
      (decodeLoop (bytes.take k) 0 0 []).2 =
        ⟨UInt32.ofNat (c.toNat / 64 ^ (bytes.length - k)), (bytes.length - k : Nat)⟩ by
    refine ⟨loop.1, ?_⟩
    intro k hk hlt
    rw [decodeUtf8_take h hk hlt]
    exact loop.2 k hk hlt
  unfold cptToUtf8 at h
  simp only [UInt32.le_iff_toNat_le] at h
  change (if c.toNat ≤ 0x7f then _ else if c.toNat ≤ 0x7ff then _ else if c.toNat ≤ 0xffff then _ else
    if c.toNat ≤ 0x10ffff then _ else _) = _ at h
  unfold encodedLength
  split at h
  · cases h
    rw [if_pos (by omega)]
    refine ⟨rfl, ?_⟩
    intro k hk hlt
    rw [length_singleton] at hlt
    omega
  split at h
  · cases h
    rw [if_neg (by omega), if_pos (by omega)]
    exact ⟨rfl, fun k hk hlt => decodeLoop_two (by assumption) hk hlt⟩
  split at h
  · cases h
    rw [if_neg (by omega), if_neg (by omega), if_pos (by omega)]
    exact ⟨rfl, fun k hk hlt => decodeLoop_three (by assumption) hk hlt⟩
  split at h
  · cases h
    rw [if_neg (by omega), if_neg (by omega), if_neg (by omega)]
    exact ⟨rfl, fun k hk hlt => decodeLoop_four (by assumption) hk hlt⟩
  · cases h

lemma exists_encode (h : c.toNat ≤ 0x10ffff) : ∃ bytes, cptToUtf8 c = some bytes := by
  unfold cptToUtf8
  split
  · exact ⟨_, rfl⟩
  split
  · exact ⟨_, rfl⟩
  split
  · exact ⟨_, rfl⟩
  rw [if_pos (UInt32.le_iff_toNat_le.2 h)]
  exact ⟨_, rfl⟩

lemma le_of_encode (h : cptToUtf8 c = some bytes) : c.toNat ≤ 0x10ffff := by
  by_contra hgt
  have hle : ∀ m : UInt32, m.toNat ≤ 0x10ffff → ¬ c ≤ m := by
    intro m hm hcm
    have := UInt32.le_iff_toNat_le.1 hcm
    omega
  rw [cptToUtf8, if_neg (hle _ (by decide)), if_neg (hle _ (by decide)), if_neg (hle _ (by decide)),
    if_neg (hle _ (by decide))] at h
  cases h

end

section
variable {s : PartialUtf8} {c : UInt32}

lemma completedBy_iff_bits (hn : 0 < s.nRemain) : s.CompletedBy c ↔ c.toNat ≤ 0x10ffff ∧
    s.nRemain.toNat < encodedLength c.toNat ∧ c.toNat / 64 ^ s.nRemain.toNat = s.value.toNat := by
  constructor
  · rintro ⟨head, tail, hbytes, hlen, hstate⟩
    obtain ⟨hlength, htake⟩ := decode_take hbytes
    rw [length_append] at hlength
    have hc := le_of_encode hbytes
    have hhead : 0 < head.length := by
      apply length_pos_of_ne_nil
      rintro rfl
      rw [← hstate] at hn
      exact absurd hn (by decide)
    have hstate' := htake head.length hhead (by rw [length_append]; omega)
    rw [take_left, hstate, length_append, Nat.add_sub_cancel_left] at hstate'
    have hrem : s.nRemain.toNat = tail.length := by omega
    refine ⟨hc, by omega, ?_⟩
    rw [hrem, hstate', toNat_ofNat_lt]
    have := Nat.div_le_self c.toNat (64 ^ tail.length)
    omega
  · rintro ⟨hc, hlt, hbits⟩
    obtain ⟨bytes, hbytes⟩ := exists_encode hc
    obtain ⟨hlength, htake⟩ := decode_take hbytes
    refine ⟨bytes.take (bytes.length - s.nRemain.toNat), bytes.drop (bytes.length - s.nRemain.toNat), ?_, ?_, ?_⟩
    · rw [take_append_drop]
      exact hbytes
    · rw [length_drop]
      omega
    · rw [htake _ (by omega) (by omega)]
      have hrem : bytes.length - (bytes.length - s.nRemain.toNat) = s.nRemain.toNat := by omega
      rw [hrem, hbits, UInt32.ofNat_toNat, Int.toNat_of_nonneg (Int.le_of_lt hn)]

lemma mask_bytes : ∀ k < 4, ((1 : UInt32) <<< UInt32.ofNat (k * 6)) - 1 = UInt32.ofNat (64 ^ k - 1) := by decide

lemma toNat_bytes {value : UInt32} {k : Nat} (hv : 64 ^ k * value.toNat + (64 ^ k - 1) < 2 ^ 32) (hk : k < 4) :
    (value <<< UInt32.ofNat (k * 6)).toNat = 64 ^ k * value.toNat ∧
      ((value <<< UInt32.ofNat (k * 6)) ||| ((1 <<< UInt32.ofNat (k * 6)) - 1)).toNat =
        64 ^ k * value.toNat + (64 ^ k - 1) := by
  have hpow : 2 ^ (UInt32.ofNat (k * 6)).toNat = 2 ^ (6 * k) := by
    rw [toNat_ofNat_lt (by omega), mul_comm]
  have h64 : (2 : Nat) ^ (6 * k) = 64 ^ k := pow_mul 2 6 k
  have hshift : value <<< UInt32.ofNat (k * 6) = UInt32.ofNat (2 ^ (6 * k) * value.toNat) := by
    have := ofNat_shiftLeft (a := value.toNat) (UInt32.ofNat (k * 6)) (by rw [toNat_ofNat_lt (by omega)]; omega)
      (by rw [hpow, h64]; omega)
    rwa [UInt32.ofNat_toNat, hpow] at this
  have hpos : 0 < 64 ^ k := Nat.pow_pos (by decide)
  rw [mask_bytes k hk, hshift, ofNat_or (6 * k) (by omega) (by rw [h64]; exact hv), h64, toNat_ofNat_lt (by omega),
    toNat_ofNat_lt (by omega)]
  exact ⟨rfl, rfl⟩

/-- The bounds of the interval for one, two or three bytes that are missing. -/
inductive Bounds (s : PartialUtf8) : Prop where
  | one : s.nRemain = 1 → s.value.toNat < 65536 → s.low.toNat = 64 * s.value.toNat →
      s.high.toNat = 64 * s.value.toNat + 63 → Bounds s
  | two : s.nRemain = 2 → s.value.toNat < 1024 →
      s.low.toNat = (if s.value.toNat = 0 then 2048 else 4096 * s.value.toNat) →
      s.high.toNat = 4096 * s.value.toNat + 4095 → Bounds s
  | three : s.nRemain = 3 → s.value.toNat < 16 →
      s.low.toNat = (if s.value.toNat = 0 then 65536 else 262144 * s.value.toNat) →
      s.high.toNat = 262144 * s.value.toNat + 262143 → Bounds s

lemma toNat_ite_zero {x y : UInt32} {m k : Nat} (hx : x.toNat = k * m) (hk : 0 < k) :
    (if x = 0 then y else x).toNat = if m = 0 then y.toNat else k * m := by
  by_cases hm : m = 0
  · subst hm
    have hzero : x = 0 := UInt32.toNat_inj.1 hx
    rw [if_pos hzero, if_pos rfl]
  · have hpos := Nat.mul_pos hk (Nat.pos_of_ne_zero hm)
    have hne : x ≠ 0 := by
      rintro rfl
      change 0 = k * m at hx
      omega
    rw [if_neg hne, if_neg hm, hx]

section
variable (hs : Small s.value s.nRemain) (hn : 0 < s.nRemain)
include hs hn

lemma bounds_of_small : Bounds s := by
  obtain ⟨value, nRemain⟩ := s
  simp only [PartialUtf8.Small] at hs hn
  rcases hs with hle | ⟨rfl, hv⟩ | ⟨rfl, hv⟩ | ⟨rfl, hv⟩
  · omega
  · obtain ⟨hlow, hhigh⟩ := @toNat_bytes value 1 (by omega) (by decide)
    refine .one rfl hv ?_ hhigh
    simp only [PartialUtf8.low, Int.reduceEq, if_false, ite_self]
    exact hlow
  · obtain ⟨hlow, hhigh⟩ := @toNat_bytes value 2 (by omega) (by decide)
    refine .two rfl hv ?_ hhigh
    simp only [PartialUtf8.low, if_true]
    exact toNat_ite_zero hlow (by decide)
  · obtain ⟨hlow, hhigh⟩ := @toNat_bytes value 3 (by omega) (by decide)
    refine .three rfl hv ?_ hhigh
    simp only [PartialUtf8.low, Int.reduceEq, if_false, if_true]
    exact toNat_ite_zero hlow (by decide)

lemma completedBy_iff : s.CompletedBy c ↔ ¬ s.Overlong ∧ s.low ≤ c ∧ c ≤ s.high ∧ c ≤ 0x10ffff := by
  have htwo : s.value < 2 ↔ s.value.toNat < 2 := UInt32.lt_iff_toNat_lt
  have hmax : (0x10ffff : UInt32).toNat = 0x10ffff := rfl
  rw [completedBy_iff_bits hn, UInt32.le_iff_toNat_le, UInt32.le_iff_toNat_le, UInt32.le_iff_toNat_le, Overlong, htwo,
    hmax]
  unfold encodedLength
  cases bounds_of_small hs hn with
  | one hrem hv hlow hhigh =>
    have hpow : 64 ^ s.nRemain.toNat = 64 := by rw [hrem]; rfl
    have hnat : s.nRemain.toNat = 1 := by omega
    rw [hpow, hnat]
    split_ifs <;> omega
  | two hrem hv hlow hhigh =>
    have hpow : 64 ^ s.nRemain.toNat = 4096 := by rw [hrem]; rfl
    have hnat : s.nRemain.toNat = 2 := by omega
    rw [hpow, hnat]
    split_ifs at hlow ⊢ <;> omega
  | three hrem hv hlow hhigh =>
    have hpow : 64 ^ s.nRemain.toNat = 262144 := by rw [hrem]; rfl
    have hnat : s.nRemain.toNat = 3 := by omega
    rw [hpow, hnat]
    split_ifs at hlow ⊢ <;> omega

lemma low_le_high : s.low ≤ s.high := by
  rw [UInt32.le_iff_toNat_le]
  cases bounds_of_small hs hn with
  | one _ _ hlow hhigh => omega
  | two _ _ hlow hhigh => split at hlow <;> omega
  | three _ _ hlow hhigh => split at hlow <;> omega

end

end

end Grammar

namespace CharItem

/-- The test of `llama_grammar_match_partial_char` for an item. -/
def meets (low high : UInt32) : CharItem → Bool
  | .one a => decide (low ≤ a ∧ a ≤ high)
  | .range a b => decide (a ≤ high ∧ low ≤ b)

def shares (low high : UInt32) : CharItem → Bool
  | .one a => decide (low ≤ a ∧ a ≤ high)
  | .range a b => decide (a ≤ b ∧ a ≤ high ∧ low ≤ b)

lemma shares_iff {low high : UInt32} (h : low ≤ high) (i : CharItem) :
    i.shares low high = true ↔ ∃ c, low ≤ c ∧ c ≤ high ∧ i.has c = true := by
  cases i with
  | one a =>
    simp only [shares, has, decide_eq_true_eq, beq_iff_eq]
    constructor
    · rintro ⟨h1, h2⟩
      exact ⟨a, h1, h2, rfl⟩
    · rintro ⟨c, h1, h2, rfl⟩
      exact ⟨h1, h2⟩
  | range a b =>
    simp only [shares, has, Bool.and_eq_true, decide_eq_true_eq]
    constructor
    · rintro ⟨h1, h2, h3⟩
      rcases UInt32.le_total a low with hal | hla
      · exact ⟨low, UInt32.le_refl low, h, hal, h3⟩
      · exact ⟨a, hla, h2, UInt32.le_refl a, h1⟩
    · rintro ⟨c, h1, h2, h3, h4⟩
      exact ⟨UInt32.le_trans h3 h4, UInt32.le_trans h3 h2, UInt32.le_trans h1 h4⟩

end CharItem

/-- The result of `llama_grammar_match_partial_char` for a class. -/
def CharClass.meets (low high : UInt32) : CharClass → Bool
  | .any => true
  | .chars negated first more => (first :: more).any (CharItem.meets low high) != negated

namespace Grammar

lemma partialLoop_item (low high : UInt32) (isPositiveChar : Bool) (i : CharItem) {type : GreType}
    (ht : type ≠ .charAny) {e : GrElement} {es : List GrElement} (he : e.type ≠ .charRngUpper) :
    partialLoop low high isPositiveChar (i.elems type ++ e :: es) = if i.meets low high then isPositiveChar
      else if e.type = .charAlt then partialLoop low high isPositiveChar (e :: es) else !isPositiveChar := by
  cases i with
  | one a =>
    change partialLoop low high isPositiveChar (⟨type, a⟩ :: e :: es) = _
    rw [partialLoop, if_neg he, if_neg ht]
    simp only [CharItem.meets, decide_eq_true_eq]
  | range a b =>
    change partialLoop low high isPositiveChar (⟨type, a⟩ :: ⟨.charRngUpper, b⟩ :: e :: es) = _
    rw [partialLoop, if_pos rfl]
    simp only [CharItem.meets, decide_eq_true_eq, head?_cons, Option.any_some]

lemma partialLoop_items (low high : UInt32) (isPositiveChar : Bool) (more : List CharItem) {e : GrElement}
    (es : List GrElement) (he : Ends e) (first : CharItem) {type : GreType} (ht : type ≠ .charAny) :
    partialLoop low high isPositiveChar (first.elems type ++ (more.flatMap (CharItem.elems .charAlt) ++ e :: es)) =
      if (first :: more).any (CharItem.meets low high) then isPositiveChar else !isPositiveChar := by
  induction more generalizing first type with
  | nil =>
    rw [flatMap_nil, nil_append, partialLoop_item _ _ _ first ht he.2, if_neg he.1, any_cons,
      any_nil, Bool.or_false]
  | cons i more ih =>
    obtain ⟨v, es', hes⟩ := CharItem.elems_eq .charAlt i
    have hi := ih i (by decide : GreType.charAlt ≠ .charAny)
    rw [flatMap_cons, append_assoc, hes, cons_append, partialLoop_item _ _ _ first ht (by simp),
      if_pos rfl, ← cons_append, ← hes, hi, any_cons (a := first)]
    cases first.meets low high <;> rfl

section
variable {n : Nat} {rules : GrRules} {p : GrPos} {β : List (GrSym n)} {t : CharClass}

lemma Points.matchPartialChar_eq (h : Points rules p (.term (.cls t) :: β)) {s : PartialUtf8} (hs : 0 < s.nRemain) :
    Grammar.matchPartialChar rules p s = some true ↔ ¬ s.Overlong ∧ t.meets s.low s.high = true := by
  obtain ⟨e', es', he', helems⟩ := h.elems_cls
  have hover : (s.nRemain < 0 ∨ s.nRemain = 1 ∧ s.value < 2) ↔ s.Overlong := by
    unfold PartialUtf8.Overlong
    constructor
    · rintro (hneg | hover)
      · omega
      · exact hover
    · exact .inr
  unfold Grammar.matchPartialChar
  dsimp only
  rw [show elem rules p = (elems rules p).headD { type := .end } from rfl, helems]
  cases t with
  | any =>
    change (if s.nRemain < 0 ∨ s.nRemain = 1 ∧ s.value < 2 then some false else
      some (partialLoop s.low s.high true (⟨.charAny, 0⟩ :: e' :: es'))) = _ ↔ _
    rw [partialLoop, if_neg he'.2, if_pos rfl]
    by_cases ho : s.Overlong
    · rw [if_pos (hover.2 ho)]
      simp [ho]
    · rw [if_neg (fun h => ho (hover.1 h))]
      simp [ho, CharClass.meets]
  | chars negated first more =>
    obtain ⟨v, es₁, hes₁⟩ := CharItem.elems_eq (if negated then .charNot else .char) first
    have hloop := @partialLoop_items s.low s.high (!negated) more _ es' he' first
      (if negated then .charNot else .char) (by cases negated <;> decide)
    have hhead : (((CharClass.chars negated first more).elems ++ e' :: es').headD { type := .end }).type =
        if negated then .charNot else .char := by
      rw [CharClass.elems, hes₁]
      rfl
    have hpos : decide ((if negated then GreType.charNot else .char) = .char ∨
        (if negated then GreType.charNot else .char) = .charAny) = !negated := by
      cases negated <;> rfl
    have hdef : ((!negated) || decide ((if negated then GreType.charNot else .char) = .charNot)) = true := by
      cases negated <;> rfl
    rw [hhead, hpos, if_pos hdef]
    change (if s.nRemain < 0 ∨ s.nRemain = 1 ∧ s.value < 2 then some false else
      some (partialLoop s.low s.high (!negated) ((CharClass.chars negated first more).elems ++ e' :: es'))) = _ ↔ _
    rw [CharClass.elems, append_assoc, hloop]
    by_cases ho : s.Overlong
    · rw [if_pos (hover.2 ho)]
      simp [ho]
    · rw [if_neg (fun h => ho (hover.1 h)), Option.some.injEq, CharClass.meets]
      cases hmeets : (first :: more).any (CharItem.meets s.low s.high) <;> cases negated <;> simp [ho]

end

end Grammar

def PartialUtf8.top (s : PartialUtf8) : UInt32 := if s.high ≤ 0x10ffff then s.high else 0x10ffff

/-- The interval is enough to tell whether a class has a code point that completes the state. -/
def CharClass.Exact (s : PartialUtf8) : CharClass → Prop
  | .any => s.low ≤ 0x10ffff
  | .chars false first more => (first :: more).any (CharItem.meets s.low s.high) = true →
      s.low ≤ s.top ∧ (first :: more).any (CharItem.shares s.low s.top) = true
  | .chars true first more =>
      if (first :: more).any (CharItem.meets s.low s.high) then
        ∀ c, s.low ≤ c → c ≤ s.top → (first :: more).any (CharItem.has c) = true
      else s.low ≤ s.top

namespace Grammar

section
variable {n : Nat} {rules : GrRules} {p : GrPos} {β : List (GrSym n)} {t : CharClass} {s : PartialUtf8}

lemma le_top {c : UInt32} : c ≤ s.top ↔ c ≤ s.high ∧ c ≤ 0x10ffff := by
  unfold PartialUtf8.top
  split
  · rename_i hle
    exact ⟨fun h => ⟨h, UInt32.le_trans h hle⟩, fun h => h.1⟩
  · rename_i hgt
    have hlt := UInt32.le_of_lt (UInt32.not_le.1 hgt)
    exact ⟨fun h => ⟨UInt32.le_trans h hlt, h⟩, fun h => h.2⟩

lemma meets_iff_exact (hle : s.low ≤ s.high) (t : CharClass) :
    (t.meets s.low s.high = true ↔ ∃ c, s.low ≤ c ∧ c ≤ s.top ∧ t.has c = true) ↔ t.Exact s := by
  have hlow : s.low ≤ s.top ↔ s.low ≤ 0x10ffff := by
    rw [le_top]
    exact ⟨fun h => h.2, fun h => ⟨hle, h⟩⟩
  cases t with
  | any =>
    simp only [CharClass.meets, CharClass.has, CharClass.Exact, true_iff, and_true]
    rw [← hlow]
    constructor
    · rintro ⟨c, h1, h2⟩
      exact UInt32.le_trans h1 h2
    · intro h
      exact ⟨s.low, UInt32.le_refl _, h⟩
  | chars negated first more =>
    cases negated with
    | false =>
      simp only [CharClass.meets, CharClass.Exact, bne_iff_ne, ne_eq, Bool.not_eq_false]
      -- what an item shares with the interval is a code point of the class
      have hshares : (∃ c, s.low ≤ c ∧ c ≤ s.top ∧ CharClass.has c (.chars false first more) = true) ↔
          s.low ≤ s.top ∧ (first :: more).any (CharItem.shares s.low s.top) = true := by
        simp only [any_eq_true]
        constructor
        · rintro ⟨c, h1, h2, hhas⟩
          have hany : (first :: more).any (CharItem.has c) = true := by
            simpa [CharClass.has] using hhas
          obtain ⟨i, hi, hc⟩ := any_eq_true.1 hany
          exact ⟨UInt32.le_trans h1 h2, i, hi, (i.shares_iff (UInt32.le_trans h1 h2)).2 ⟨c, h1, h2, hc⟩⟩
        · rintro ⟨h, i, hi, hshare⟩
          obtain ⟨c, h1, h2, hc⟩ := (i.shares_iff h).1 hshare
          refine ⟨c, h1, h2, ?_⟩
          have hany : (first :: more).any (CharItem.has c) = true := any_eq_true.2 ⟨i, hi, hc⟩
          simpa [CharClass.has] using hany
      rw [hshares]
      constructor
      · exact fun h => h.1
      · intro h
        refine ⟨h, ?_⟩
        rintro ⟨-, hshare⟩
        obtain ⟨i, hi, hshare⟩ := any_eq_true.1 hshare
        refine any_eq_true.2 ⟨i, hi, ?_⟩
        cases i with
        | one a =>
          simp only [CharItem.shares, CharItem.meets, decide_eq_true_eq] at hshare ⊢
          exact ⟨hshare.1, (le_top.1 hshare.2).1⟩
        | range a b =>
          simp only [CharItem.shares, CharItem.meets, decide_eq_true_eq] at hshare ⊢
          exact ⟨(le_top.1 hshare.2.1).1, hshare.2.2⟩
    | true =>
      have hhas : ∀ c, CharClass.has c (.chars true first more) = true ↔
          (first :: more).any (CharItem.has c) = false := by
        intro c
        simp [CharClass.has]
      simp only [CharClass.meets, CharClass.Exact, bne_iff_ne, ne_eq, Bool.not_eq_true, hhas]
      cases hmeets : (first :: more).any (CharItem.meets s.low s.high) with
      | true =>
        -- the answer is no, so the items have to cover the interval
        rw [if_pos rfl]
        constructor
        · intro h c h1 h2
          cases hc : (first :: more).any (CharItem.has c) with
          | true => rfl
          | false => exact absurd (h.2 ⟨c, h1, h2, hc⟩) (by decide)
        · intro h
          refine ⟨fun hfalse => absurd hfalse (by decide), ?_⟩
          rintro ⟨c, h1, h2, hc⟩
          rw [h c h1 h2] at hc
          cases hc
      | false =>
        -- the answer is yes, and no code point of the interval is among the items
        rw [if_neg (by decide)]
        constructor
        · intro h
          obtain ⟨c, h1, h2, -⟩ := h.1 rfl
          exact UInt32.le_trans h1 h2
        · intro h
          refine ⟨fun _ => ⟨s.low, UInt32.le_refl _, h, ?_⟩, fun _ => rfl⟩
          apply any_eq_false.2
          intro i hi hc
          refine absurd ?_ (any_eq_false.1 hmeets i hi)
          cases i with
          | one a =>
            simp only [CharItem.has, beq_iff_eq] at hc
            simp only [CharItem.meets, decide_eq_true_eq, hc]
            exact ⟨UInt32.le_refl _, hle⟩
          | range a b =>
            simp only [CharItem.has, Bool.and_eq_true, decide_eq_true_eq] at hc
            simp only [CharItem.meets, decide_eq_true_eq]
            exact ⟨UInt32.le_trans hc.1 hle, hc.2⟩

/-- The partial match finds out whether a code point that completes the state matches, exactly if the interval is enough
for the class. -/
theorem matchPartialChar_iff_exact (h : Points rules p (.term (.cls t) :: β)) (hs : s.Reached) (hn : 0 < s.nRemain) :
    (matchPartialChar rules p s = some true ↔
      ∃ c, s.CompletedBy c ∧ ∃ q, matchChar rules p c = some (true, q)) ↔ s.Overlong ∨ t.Exact s := by
  have hsmall := reached_small hs
  have hchar : ∀ c, (∃ q, matchChar rules p c = some (true, q)) ↔ t.has c = true := by
    intro c
    rw [h.matchChar c]
    constructor
    · rintro ⟨q, heq⟩
      exact (Prod.mk.inj (Option.some.inj heq)).1
    · intro hhas
      rw [hhas]
      exact ⟨_, rfl⟩
  rw [h.matchPartialChar_eq hn]
  simp only [hchar, completedBy_iff hsmall hn]
  by_cases ho : s.Overlong
  · simp [ho]
  · simp only [ho, not_false_eq_true, true_and, false_or]
    rw [← meets_iff_exact (low_le_high hsmall hn) t]
    simp only [le_top, and_assoc]

end

/-- The rule `root ::= [^é]`. -/
def notAccent : GrRules := [[⟨.charNot, 0xe9⟩, ⟨.end, 0⟩]]

lemma reached_c3 : PartialUtf8.Reached ⟨3, 1⟩ := .next [0xc3] .start

/-- The byte 0xC3 is refused at `[^é]`, although `à` begins with it. -/
theorem matchPartialChar_notAccent : ¬ (matchPartialChar notAccent ⟨0, 0⟩ ⟨3, 1⟩ = some true ↔
    ∃ c, PartialUtf8.CompletedBy ⟨3, 1⟩ c ∧ ∃ q, matchChar notAccent ⟨0, 0⟩ c = some (true, q)) := by
  intro h
  have hfalse : matchPartialChar notAccent ⟨0, 0⟩ ⟨3, 1⟩ = some false := by decide
  rw [hfalse] at h
  exact absurd (h.2 ⟨0xe0, ⟨[0xc3], [0xa0], by decide, rfl, by decide⟩, ⟨0, 1⟩, by decide⟩) (by decide)

/-- At `[^a]` the byte 0xC3 is left in peace, and with reason. -/
theorem matchPartialChar_notLetter : PartialUtf8.Reached ⟨3, 1⟩ ∧
    (matchPartialChar [[⟨.charNot, 97⟩, ⟨.end, 0⟩]] ⟨0, 0⟩ ⟨3, 1⟩ = some true ↔
      ∃ c, PartialUtf8.CompletedBy ⟨3, 1⟩ c ∧
        ∃ q, matchChar [[⟨.charNot, 97⟩, ⟨.end, 0⟩]] ⟨0, 0⟩ c = some (true, q)) := by
  have exact : (CharClass.chars true (.one 97) []).Exact ⟨3, 1⟩ := by
    rw [CharClass.Exact, if_neg (by decide)]
    decide
  exact ⟨reached_c3, (matchPartialChar_iff_exact (n := 1) (β := []) (t := .chars true (.one 97) [])
    ⟨⟨.end, 0⟩, [], rfl, rfl⟩ reached_c3 (by decide)).2 (.inr exact)⟩

end Grammar

end Mallana
