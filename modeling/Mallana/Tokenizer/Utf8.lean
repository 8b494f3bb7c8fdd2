import Mallana.Tokenizer.Basic

/-!
# UTF-8

The code points of an encoded text are the code points it was encoded from.
-/

namespace Mallana.Tokenizer

open List

lemma tagged_eq {tag mask c s : UInt32} (k : Nat) (hs : s.toNat < 32) (hmask : mask.toNat = 2 ^ k - 1)
    (hor : ∀ y < 2 ^ k, tag.toNat ||| y = tag.toNat + y) :
    tagged tag c s mask = UInt8.ofNat (tag.toNat + c.toNat / 2 ^ s.toNat % 2 ^ k) := by
  apply UInt8.toNat_inj.1
  simp only [tagged, UInt32.toNat_toUInt8, UInt32.toNat_or, UInt32.toNat_and, UInt32.toNat_shiftRight,
    UInt8.toNat_ofNat']
  rw [Nat.mod_eq_of_lt hs, Nat.shiftRight_eq_div_pow, hmask, Nat.and_two_pow_sub_one_eq_mod,
    hor _ (Nat.mod_lt _ (Nat.two_pow_pos k))]

lemma ofNat_shiftLeft {a : Nat} (s : UInt32) (hs : s.toNat < 32) (ha : 2 ^ s.toNat * a < 2 ^ 32) :
    UInt32.ofNat a <<< s = UInt32.ofNat (2 ^ s.toNat * a) := by
  have ha' : a < 2 ^ 32 := lt_of_le_of_lt (Nat.le_mul_of_pos_left a (Nat.two_pow_pos s.toNat)) ha
  apply UInt32.toNat_inj.1
  rw [UInt32.toNat_shiftLeft, UInt32.toNat_ofNat_of_lt' ha', UInt32.toNat_ofNat_of_lt' ha, Nat.mod_eq_of_lt hs,
    Nat.shiftLeft_eq, mul_comm, Nat.mod_eq_of_lt ha]

lemma ofNat_or {q d : Nat} (s : Nat) (hd : d < 2 ^ s) (h : 2 ^ s * q + d < 2 ^ 32) :
    UInt32.ofNat (2 ^ s * q) ||| UInt32.ofNat d = UInt32.ofNat (2 ^ s * q + d) := by
  have hq : 2 ^ s * q < UInt32.size := lt_of_le_of_lt (Nat.le_add_right _ _) h
  have hd' : d < UInt32.size := lt_of_le_of_lt (Nat.le_add_left _ _) h
  apply UInt32.toNat_inj.1
  rw [UInt32.toNat_or, UInt32.toNat_ofNat_of_lt' hq, UInt32.toNat_ofNat_of_lt' hd', UInt32.toNat_ofNat_of_lt' h,
    Nat.two_pow_add_eq_or_of_lt hd]

lemma ofNat_or_tail {q d : Nat} (hd : d < 64) (h : q < 2 ^ 26) :
    UInt32.ofNat (64 * q) ||| UInt32.ofNat d = UInt32.ofNat (64 * q + d) :=
  ofNat_or 6 hd (by omega)

lemma tail_byte : ∀ y < 64, isCont (UInt8.ofNat (0x80 + y)) = true ∧
    low (UInt8.ofNat (0x80 + y)) 0x3f = UInt32.ofNat y := by
  decide

lemma two_byte : ∀ y < 32, UInt8.ofNat (0xc0 + y) &&& 0x80 ≠ 0 ∧ UInt8.ofNat (0xc0 + y) &&& 0x40 ≠ 0 ∧
    UInt8.ofNat (0xc0 + y) &&& 0x20 = 0 ∧ low (UInt8.ofNat (0xc0 + y)) 0x1f = UInt32.ofNat y := by
  decide

lemma three_byte : ∀ y < 16, UInt8.ofNat (0xe0 + y) &&& 0x80 ≠ 0 ∧ UInt8.ofNat (0xe0 + y) &&& 0x40 ≠ 0 ∧
    UInt8.ofNat (0xe0 + y) &&& 0x20 ≠ 0 ∧ UInt8.ofNat (0xe0 + y) &&& 0x10 = 0 ∧
    low (UInt8.ofNat (0xe0 + y)) 0x0f = UInt32.ofNat y := by
  decide

lemma four_byte : ∀ y < 8, UInt8.ofNat (0xf0 + y) &&& 0x80 ≠ 0 ∧ UInt8.ofNat (0xf0 + y) &&& 0x40 ≠ 0 ∧
    UInt8.ofNat (0xf0 + y) &&& 0x20 ≠ 0 ∧ UInt8.ofNat (0xf0 + y) &&& 0x10 ≠ 0 ∧
    UInt8.ofNat (0xf0 + y) &&& 0x08 = 0 ∧ low (UInt8.ofNat (0xf0 + y)) 0x07 = UInt32.ofNat y := by
  decide

lemma one_byte : ∀ y < 128, UInt8.ofNat y &&& 0x80 = 0 ∧ (UInt8.ofNat y).toUInt32 = UInt32.ofNat y := by
  decide

lemma shiftLeft_six {a : Nat} (h : a < 2 ^ 20) : UInt32.ofNat a <<< 6 = UInt32.ofNat (64 * a) :=
  ofNat_shiftLeft 6 (by decide) (by simp; omega)

lemma shiftLeft_twelve {a : Nat} (h : a < 2 ^ 20) : UInt32.ofNat a <<< 12 = UInt32.ofNat (4096 * a) :=
  ofNat_shiftLeft 12 (by decide) (by simp; omega)

lemma shiftLeft_eighteen {a : Nat} (h : a < 2 ^ 14) : UInt32.ofNat a <<< 18 = UInt32.ofNat (262144 * a) :=
  ofNat_shiftLeft 18 (by decide) (by simp; omega)

lemma decode_two {a b : Nat} (ha : a < 32) (hb : b < 64) (rest : Str) :
    cptFromUtf8 (UInt8.ofNat (0xc0 + a) :: UInt8.ofNat (0x80 + b) :: rest) = some (UInt32.ofNat (64 * a + b), 2) := by
  obtain ⟨t1, t2, t3, hlow⟩ := two_byte a ha
  obtain ⟨hcont, hlow1⟩ := tail_byte b hb
  have hval : UInt32.ofNat a <<< 6 ||| UInt32.ofNat b = UInt32.ofNat (64 * a + b) := by
    rw [shiftLeft_six (by omega), ofNat_or_tail hb (by omega)]
  simp only [cptFromUtf8, t1, t2, t3, hlow, hcont, hlow1, hval, if_true, if_false]

lemma decode_three {a b d : Nat} (ha : a < 16) (hb : b < 64) (hd : d < 64) (rest : Str) :
    cptFromUtf8 (UInt8.ofNat (0xe0 + a) :: UInt8.ofNat (0x80 + b) :: UInt8.ofNat (0x80 + d) :: rest) =
      some (UInt32.ofNat (64 * (64 * a + b) + d), 3) := by
  obtain ⟨t1, t2, t3, t4, hlow⟩ := three_byte a ha
  obtain ⟨hcont1, hlow1⟩ := tail_byte b hb
  obtain ⟨hcont2, hlow2⟩ := tail_byte d hd
  have hval : UInt32.ofNat a <<< 12 ||| UInt32.ofNat b <<< 6 ||| UInt32.ofNat d =
      UInt32.ofNat (64 * (64 * a + b) + d) := by
    have hfront : UInt32.ofNat (4096 * a) ||| UInt32.ofNat (64 * b) = UInt32.ofNat (64 * (64 * a + b)) := by
      refine Eq.trans (ofNat_or 12 (by omega) (by omega)) (congrArg UInt32.ofNat ?_)
      omega
    rw [shiftLeft_twelve (by omega), shiftLeft_six (by omega), hfront, ofNat_or_tail hd (by omega)]
  simp only [cptFromUtf8, t1, t2, t3, t4, hlow, hcont1, hlow1, hcont2, hlow2, hval, Bool.and_self, if_true, if_false]

lemma decode_four {a b d e : Nat} (ha : a < 8) (hb : b < 64) (hd : d < 64) (he : e < 64) (rest : Str) :
    cptFromUtf8 (UInt8.ofNat (0xf0 + a) :: UInt8.ofNat (0x80 + b) :: UInt8.ofNat (0x80 + d) ::
      UInt8.ofNat (0x80 + e) :: rest) = some (UInt32.ofNat (64 * (64 * (64 * a + b) + d) + e), 4) := by
  obtain ⟨t1, t2, t3, t4, t5, hlow⟩ := four_byte a ha
  obtain ⟨hcont1, hlow1⟩ := tail_byte b hb
  obtain ⟨hcont2, hlow2⟩ := tail_byte d hd
  obtain ⟨hcont3, hlow3⟩ := tail_byte e he
  have hval : UInt32.ofNat a <<< 18 ||| UInt32.ofNat b <<< 12 ||| UInt32.ofNat d <<< 6 ||| UInt32.ofNat e =
      UInt32.ofNat (64 * (64 * (64 * a + b) + d) + e) := by
    have hfront : UInt32.ofNat (262144 * a) ||| UInt32.ofNat (4096 * b) = UInt32.ofNat (4096 * (64 * a + b)) := by
      refine Eq.trans (ofNat_or 18 (by omega) (by omega)) (congrArg UInt32.ofNat ?_)
      omega
    have hmid : UInt32.ofNat (4096 * (64 * a + b)) ||| UInt32.ofNat (64 * d) =
        UInt32.ofNat (64 * (64 * (64 * a + b) + d)) := by
      refine Eq.trans (ofNat_or 12 (by omega) (by omega)) (congrArg UInt32.ofNat ?_)
      omega
    rw [shiftLeft_eighteen (by omega), shiftLeft_twelve (by omega), shiftLeft_six (by omega), hfront, hmid,
      ofNat_or_tail he (by omega)]
  simp only [cptFromUtf8, t1, t2, t3, t4, t5, hlow, hcont1, hlow1, hcont2, hlow2, hcont3, hlow3, hval, Bool.and_self,
    if_true, if_false]

lemma tagged_tail (c s : UInt32) (hs : s.toNat < 32) :
    tagged 0x80 c s 0x3f = UInt8.ofNat (0x80 + c.toNat / 2 ^ s.toNat % 64) :=
  tagged_eq 6 hs rfl (by decide)

lemma toUInt8_eq (c : UInt32) : c.toUInt8 = UInt8.ofNat c.toNat := by
  apply UInt8.toNat_inj.1
  rw [UInt32.toNat_toUInt8, UInt8.toNat_ofNat']

/-- The digits of a code point to base 64, with the tags of its encoding. -/
inductive Encodes : UInt32 → Str → Prop where
  | one {a} : a < 128 → Encodes (UInt32.ofNat a) [UInt8.ofNat a]
  | two {a b} : a < 32 → b < 64 → Encodes (UInt32.ofNat (64 * a + b)) [UInt8.ofNat (0xc0 + a), UInt8.ofNat (0x80 + b)]
  | three {a b d} : a < 16 → b < 64 → d < 64 → Encodes (UInt32.ofNat (64 * (64 * a + b) + d))
      [UInt8.ofNat (0xe0 + a), UInt8.ofNat (0x80 + b), UInt8.ofNat (0x80 + d)]
  | four {a b d e} : a < 8 → b < 64 → d < 64 → e < 64 → Encodes (UInt32.ofNat (64 * (64 * (64 * a + b) + d) + e))
      [UInt8.ofNat (0xf0 + a), UInt8.ofNat (0x80 + b), UInt8.ofNat (0x80 + d), UInt8.ofNat (0x80 + e)]

lemma cptToUtf8_encodes {c : UInt32} {bytes : Str} (h : cptToUtf8 c = some bytes) : Encodes c bytes := by
  have hc : ∀ {n}, n = c.toNat → c = UInt32.ofNat n := by
    intro n hn
    rw [hn, UInt32.ofNat_toNat]
  have last : c.toNat / 2 ^ (0 : UInt32).toNat % 64 = c.toNat % 64 := by
    simp
  have hmod : ∀ {n}, n % 64 < 64 := Nat.mod_lt _ (by decide)
  unfold cptToUtf8 at h
  split at h
  · rename_i h1
    have hlt : c.toNat < 128 := Nat.lt_succ_of_le (UInt32.le_iff_toNat_le.1 h1)
    cases h
    rw [toUInt8_eq]
    conv => arg 1; rw [hc (Eq.refl c.toNat)]
    exact .one hlt
  split at h
  · rename_i h2
    have hlt : c.toNat ≤ 0x7ff := UInt32.le_iff_toNat_le.1 h2
    cases h
    rw [tagged_eq 5 (by decide) rfl (by decide), tagged_tail c 0 (by decide), last]
    have hval : 64 * (c.toNat / 2 ^ (6 : UInt32).toNat % 2 ^ 5) + c.toNat % 64 = c.toNat := by
      simp
      omega
    conv => arg 1; rw [hc hval]
    exact .two (Nat.mod_lt _ (by decide)) hmod
  split at h
  · rename_i h3
    have hlt : c.toNat ≤ 0xffff := UInt32.le_iff_toNat_le.1 h3
    cases h
    rw [tagged_eq 4 (by decide) rfl (by decide), tagged_tail c 6 (by decide), tagged_tail c 0 (by decide), last]
    have hval : 64 * (64 * (c.toNat / 2 ^ (12 : UInt32).toNat % 2 ^ 4) + c.toNat / 2 ^ (6 : UInt32).toNat % 64) +
        c.toNat % 64 = c.toNat := by
      simp
      omega
    conv => arg 1; rw [hc hval]
    exact .three (Nat.mod_lt _ (by decide)) hmod hmod
  split at h
  · rename_i h4
    have hlt : c.toNat ≤ 0x10ffff := UInt32.le_iff_toNat_le.1 h4
    cases h
    rw [tagged_eq 3 (by decide) rfl (by decide), tagged_tail c 12 (by decide), tagged_tail c 6 (by decide),
      tagged_tail c 0 (by decide), last]
    have hval : 64 * (64 * (64 * (c.toNat / 2 ^ (18 : UInt32).toNat % 2 ^ 3) +
        c.toNat / 2 ^ (12 : UInt32).toNat % 64) + c.toNat / 2 ^ (6 : UInt32).toNat % 64) + c.toNat % 64 = c.toNat := by
      simp
      omega
    conv => arg 1; rw [hc hval]
    exact .four (Nat.mod_lt _ (by decide)) hmod hmod hmod
  · cases h

/-- An encoded code point is decoded to itself, whatever follows. -/
theorem cptFromUtf8_encode {c : UInt32} {bytes : Str} (h : cptToUtf8 c = some bytes) (rest : Str) :
    cptFromUtf8 (bytes ++ rest) = some (c, bytes.length) := by
  cases cptToUtf8_encodes h with
  | one ha =>
    obtain ⟨hzero, hval⟩ := one_byte _ ha
    simp only [singleton_append, cptFromUtf8, hzero, hval, if_true]
    rfl
  | two ha hb => exact decode_two ha hb rest
  | three ha hb hd => exact decode_three ha hb hd rest
  | four ha hb hd he => exact decode_four ha hb hd he rest

lemma cptToUtf8_ne_nil {c : UInt32} {bytes : Str} (h : cptToUtf8 c = some bytes) : bytes ≠ [] := by
  intro heq
  have := cptFromUtf8_encode h []
  rw [heq] at this
  cases this

lemma cptsToUtf8_cons {c : UInt32} {cs : List UInt32} {text : Str} (h : cptsToUtf8 (c :: cs) = some text) :
    ∃ head tail, cptToUtf8 c = some head ∧ cptsToUtf8 cs = some tail ∧ text = head ++ tail := by
  obtain ⟨parts, hparts, rfl⟩ := Option.map_eq_some_iff.1 h
  rw [mapM_cons] at hparts
  obtain ⟨head, hhead, hparts⟩ := Option.bind_eq_some_iff.1 hparts
  obtain ⟨tails, htails, hparts⟩ := Option.bind_eq_some_iff.1 hparts
  cases hparts
  exact ⟨head, tails.flatten, hhead, by rw [cptsToUtf8, htails]; rfl, rfl⟩

lemma cptsToUtf8_cons_some {c : UInt32} {cs : List UInt32} {head tail : Str} (hhead : cptToUtf8 c = some head)
    (htail : cptsToUtf8 cs = some tail) : cptsToUtf8 (c :: cs) = some (head ++ tail) := by
  obtain ⟨tails, htails, rfl⟩ := Option.map_eq_some_iff.1 htail
  rw [cptsToUtf8, mapM_cons, hhead, htails]
  rfl

/-- The code points of an encoded text are the ones it was encoded from. -/
theorem cptsFromUtf8_encode :
    ∀ {cs : List UInt32} {text : Str}, cptsToUtf8 cs = some text → cptsFromUtf8 text = cs := by
  suffices loop : ∀ (cs : List UInt32) (text : Str) (fuel : Nat), cptsToUtf8 cs = some text → text.length ≤ fuel →
      cptsLoop fuel text = cs by
    intro cs text h
    exact loop cs text text.length h (le_refl _)
  intro cs
  induction cs with
  | nil =>
    intro text fuel h _
    cases h
    cases fuel <;> rfl
  | cons c cs ih =>
    intro text fuel h hfuel
    obtain ⟨head, tail, hhead, htail, rfl⟩ := cptsToUtf8_cons h
    have hne := cptToUtf8_ne_nil hhead
    cases hsplit : head ++ tail with
    | nil => exact absurd (append_eq_nil_iff.1 hsplit).1 hne
    | cons b bs =>
      have hpos := length_pos_of_ne_nil hne
      cases fuel with
      | zero =>
        rw [length_append] at hfuel
        omega
      | succ fuel =>
        have hdecode := cptFromUtf8_encode hhead tail
        rw [cptsLoop, ← hsplit, hdecode]
        simp only [drop_left]
        rw [ih tail fuel htail]
        rw [length_append] at hfuel
        omega

lemma cptsToUtf8_inj {cs ds : List UInt32} {text : Str} (hc : cptsToUtf8 cs = some text)
    (hd : cptsToUtf8 ds = some text) : cs = ds := by
  rw [← cptsFromUtf8_encode hc, ← cptsFromUtf8_encode hd]

/-- A first byte that `k` continuation bytes follow. -/
inductive Lead : Nat → UInt8 → Prop where
  | one {y} : y < 128 → Lead 0 (UInt8.ofNat y)
  | two {y} : y < 32 → Lead 1 (UInt8.ofNat (0xc0 + y))
  | three {y} : y < 16 → Lead 2 (UInt8.ofNat (0xe0 + y))
  | four {y} : y < 8 → Lead 3 (UInt8.ofNat (0xf0 + y))

def IsTail (b : UInt8) : Prop := ∃ y < 64, b = UInt8.ofNat (0x80 + y)

lemma cptToUtf8_lead {c : UInt32} {bytes : Str} (h : cptToUtf8 c = some bytes) :
    ∃ b tl, bytes = b :: tl ∧ Lead tl.length b ∧ ∀ x ∈ tl, IsTail x := by
  have htail : ∀ {y}, y < 64 → IsTail (UInt8.ofNat (0x80 + y)) := fun hy => ⟨_, hy, rfl⟩
  cases cptToUtf8_encodes h with
  | one ha => exact ⟨_, [], rfl, .one ha, fun x hx => (not_mem_nil hx).elim⟩
  | two ha hb => exact ⟨_, [_], rfl, .two ha, forall_mem_singleton.2 (htail hb)⟩
  | three ha hb hd =>
    refine ⟨_, [_, _], rfl, .three ha, ?_⟩
    rw [forall_mem_cons]
    exact ⟨htail hb, forall_mem_singleton.2 (htail hd)⟩
  | four ha hb hd he =>
    refine ⟨_, [_, _, _], rfl, .four ha, ?_⟩
    rw [forall_mem_cons, forall_mem_cons]
    exact ⟨htail hb, htail hd, forall_mem_singleton.2 (htail he)⟩

end Mallana.Tokenizer
