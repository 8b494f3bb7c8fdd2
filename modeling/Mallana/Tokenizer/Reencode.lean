import Mallana.Tokenizer.Lossless

/-!
# Decoding and encoding arbitrary bytes

`unicode_cpts_from_utf8` replaces what it cannot decode, so that no exception leaves `llama_tokenize`. But it decodes four
bytes to a value above U+10FFFF as well, which `unicode_cpt_to_utf8` refuses. The texts without such bytes are the ones
that the pre-tokenizer and the WPM session take.
-/

namespace Mallana.Tokenizer

open List Option

/-- Four bytes in front of a text that decode to a value above U+10FFFF. -/
def beyondUnicode : Str → Bool
  | b :: b1 :: b2 :: b3 :: _ =>
    ((b == 0xF4 && decide (0x90 ≤ b1)) || (decide (0xF5 ≤ b) && decide (b ≤ 0xF7))) && isCont b1 && isCont b2 && isCont b3
  | _ => false

def BeyondUnicode (text : Str) : Prop := ∃ rest, rest <:+ text ∧ beyondUnicode rest = true

def maxCpt : UInt32 := 0x10FFFF

section
variable {c : UInt32} {cs : List UInt32} {n : Nat} {b : UInt8} {bs bytes rest text : Str}

lemma isCont_tail (h : isCont b = true) : ∃ y < 64, b = UInt8.ofNat (0x80 + y) :=
  forall_byte (fun b => isCont b = true → ∃ y < 64, b = UInt8.ofNat (0x80 + y)) (by decide +kernel) b h

lemma ofNat_lt {a : Nat} (h : a < 0xF4) : UInt8.ofNat a < 0xF4 := by
  rw [UInt8.lt_iff_toNat_lt, UInt8.toNat_ofNat_of_lt' (h.trans (by decide))]
  exact h

lemma byte_cases (b : UInt8) : (∃ a < 128, b = UInt8.ofNat a) ∨ (∃ a < 64, b = UInt8.ofNat (0x80 + a)) ∨
    (∃ a < 32, b = UInt8.ofNat (0xc0 + a)) ∨ (∃ a < 16, b = UInt8.ofNat (0xe0 + a)) ∨
    (∃ a < 8, b = UInt8.ofNat (0xf0 + a)) ∨ ∃ a < 8, b = UInt8.ofNat (0xf8 + a) := by
  have hb : ∀ tag, tag ≤ b.toNat → b = UInt8.ofNat (tag + (b.toNat - tag)) := by
    intro tag htag
    rw [Nat.add_sub_cancel' htag, UInt8.ofNat_toNat]
  have hlt := UInt8.toNat_lt b
  obtain h | h := lt_or_ge b.toNat 0x80
  · exact .inl ⟨b.toNat, h, UInt8.ofNat_toNat.symm⟩
  obtain h1 | h1 := lt_or_ge b.toNat 0xc0
  · exact .inr (.inl ⟨_, by omega, hb 0x80 h⟩)
  obtain h2 | h2 := lt_or_ge b.toNat 0xe0
  · exact .inr (.inr (.inl ⟨_, by omega, hb 0xc0 h1⟩))
  obtain h3 | h3 := lt_or_ge b.toNat 0xf0
  · exact .inr (.inr (.inr (.inl ⟨_, by omega, hb 0xe0 h2⟩)))
  obtain h4 | h4 := lt_or_ge b.toNat 0xf8
  · exact .inr (.inr (.inr (.inr (.inl ⟨_, by omega, hb 0xf0 h3⟩))))
  · exact .inr (.inr (.inr (.inr (.inr ⟨_, by omega, hb 0xf8 h4⟩))))

lemma decode_tail {a : Nat} (ha : a < 64) : cptFromUtf8 (UInt8.ofNat (0x80 + a) :: bs) = none := by
  have hbits : ∀ y < 64, UInt8.ofNat (0x80 + y) &&& 0x80 ≠ 0 ∧ UInt8.ofNat (0x80 + y) &&& 0x40 = 0 := by
    decide
  obtain ⟨t1, t2⟩ := hbits a ha
  simp only [cptFromUtf8, t1, t2, if_true, if_false]

lemma decode_long {a : Nat} (ha : a < 8) : cptFromUtf8 (UInt8.ofNat (0xf8 + a) :: bs) = none := by
  have hbits : ∀ y < 8, UInt8.ofNat (0xf8 + y) &&& 0x80 ≠ 0 ∧ UInt8.ofNat (0xf8 + y) &&& 0x40 ≠ 0 ∧
      UInt8.ofNat (0xf8 + y) &&& 0x20 ≠ 0 ∧ UInt8.ofNat (0xf8 + y) &&& 0x10 ≠ 0 ∧
      UInt8.ofNat (0xf8 + y) &&& 0x08 ≠ 0 := by
    decide
  obtain ⟨t1, t2, t3, t4, t5⟩ := hbits a ha
  simp only [cptFromUtf8, t1, t2, t3, t4, t5, if_false]

lemma encodes_of_decode (h : cptFromUtf8 text = some (c, n)) :
    ∃ bytes rest, text = bytes ++ rest ∧ bytes.length = n ∧ Encodes c bytes := by
  cases text with
  | nil => cases h
  | cons b bs =>
    obtain ⟨a, ha, rfl⟩ | ⟨a, ha, rfl⟩ | ⟨a, ha, rfl⟩ | ⟨a, ha, rfl⟩ | ⟨a, ha, rfl⟩ | ⟨a, ha, rfl⟩ := byte_cases b
    · obtain ⟨hzero, hval⟩ := one_byte a ha
      simp only [cptFromUtf8, hzero, hval, if_true] at h
      cases h
      exact ⟨[UInt8.ofNat a], bs, rfl, rfl, .one ha⟩
    · rw [decode_tail ha] at h
      cases h
    · obtain ⟨t1, t2, t3, -⟩ := two_byte a ha
      rcases bs with _ | ⟨b1, bs⟩
      · simp only [cptFromUtf8, t1, t2, t3, if_true, if_false, reduceCtorEq] at h
      · cases hcont : isCont b1 with
        | false => simp only [cptFromUtf8, t1, t2, t3, hcont, Bool.false_eq_true, if_true, if_false, reduceCtorEq] at h
        | true =>
          obtain ⟨y, hy, rfl⟩ := isCont_tail hcont
          rw [decode_two ha hy] at h
          cases h
          exact ⟨[_, _], bs, rfl, rfl, .two ha hy⟩
    · obtain ⟨t1, t2, t3, t4, -⟩ := three_byte a ha
      rcases bs with _ | ⟨b1, _ | ⟨b2, bs⟩⟩
      · simp only [cptFromUtf8, t1, t2, t3, t4, if_true, if_false, reduceCtorEq] at h
      · simp only [cptFromUtf8, t1, t2, t3, t4, if_true, if_false, reduceCtorEq] at h
      · cases hcont : isCont b1 && isCont b2 with
        | false => simp only [cptFromUtf8, t1, t2, t3, t4, hcont, Bool.false_eq_true, if_true, if_false, reduceCtorEq] at h
        | true =>
          obtain ⟨hcont1, hcont2⟩ := Bool.and_eq_true_iff.1 hcont
          obtain ⟨y, hy, rfl⟩ := isCont_tail hcont1
          obtain ⟨z, hz, rfl⟩ := isCont_tail hcont2
          rw [decode_three ha hy hz] at h
          cases h
          exact ⟨[_, _, _], bs, rfl, rfl, .three ha hy hz⟩
    · obtain ⟨t1, t2, t3, t4, t5, -⟩ := four_byte a ha
      rcases bs with _ | ⟨b1, _ | ⟨b2, _ | ⟨b3, bs⟩⟩⟩
      · simp only [cptFromUtf8, t1, t2, t3, t4, t5, if_true, if_false, reduceCtorEq] at h
      · simp only [cptFromUtf8, t1, t2, t3, t4, t5, if_true, if_false, reduceCtorEq] at h
      · simp only [cptFromUtf8, t1, t2, t3, t4, t5, if_true, if_false, reduceCtorEq] at h
      · cases hcont : isCont b1 && isCont b2 && isCont b3 with
        | false => simp only [cptFromUtf8, t1, t2, t3, t4, t5, hcont, Bool.false_eq_true, if_true, if_false, reduceCtorEq] at h
        | true =>
          obtain ⟨hcont12, hcont3⟩ := Bool.and_eq_true_iff.1 hcont
          obtain ⟨hcont1, hcont2⟩ := Bool.and_eq_true_iff.1 hcont12
          obtain ⟨y, hy, rfl⟩ := isCont_tail hcont1
          obtain ⟨z, hz, rfl⟩ := isCont_tail hcont2
          obtain ⟨x, hx, rfl⟩ := isCont_tail hcont3
          rw [decode_four ha hy hz hx] at h
          cases h
          exact ⟨[_, _, _, _], bs, rfl, rfl, .four ha hy hz hx⟩
    · rw [decode_long ha] at h
      cases h

lemma beyondUnicode_low (h : b < 0xF4) : beyondUnicode (b :: bs) = false := by
  have hlead : b ≠ 0xF4 ∧ ¬ 0xF5 ≤ b := ⟨UInt8.ne_of_lt h, UInt8.not_le.2 (UInt8.lt_trans h (by decide))⟩
  rcases bs with _ | ⟨b1, _ | ⟨b2, _ | ⟨b3, bs⟩⟩⟩
  · rfl
  · rfl
  · rfl
  · simp [beyondUnicode, hlead.1, hlead.2]

lemma le_maxCpt {v : Nat} (h : v < 0x110000) : UInt32.ofNat v ≤ maxCpt := by
  rw [UInt32.le_iff_toNat_le, UInt32.toNat_ofNat_of_lt' (h.trans (by decide))]
  exact Nat.le_of_lt_succ h

lemma maxCpt_lt {v : Nat} (h : 0x110000 ≤ v) (hlt : v < 2 ^ 32) : maxCpt < UInt32.ofNat v := by
  rw [UInt32.lt_iff_toNat_lt, UInt32.toNat_ofNat_of_lt' hlt]
  exact Nat.lt_of_succ_le h

lemma beyondUnicode_four {a y z x : Nat} (ha : a < 8) (hy : y < 64) (hz : z < 64) (hx : x < 64) :
    beyondUnicode (UInt8.ofNat (0xf0 + a) :: UInt8.ofNat (0x80 + y) :: UInt8.ofNat (0x80 + z) ::
      UInt8.ofNat (0x80 + x) :: bs) = true ↔ 0x110000 ≤ 64 * (64 * (64 * a + y) + z) + x := by
  have hlead : ∀ a < 8, ∀ y < 64, (((UInt8.ofNat (0xf0 + a) == 0xF4 && decide (0x90 ≤ UInt8.ofNat (0x80 + y))) ||
      (decide (0xF5 ≤ UInt8.ofNat (0xf0 + a)) && decide (UInt8.ofNat (0xf0 + a) ≤ 0xF7))) = true ↔
        0x110 ≤ 64 * a + y) := by
    decide +kernel
  rw [beyondUnicode, (tail_byte y hy).1, (tail_byte z hz).1, (tail_byte x hx).1, Bool.and_true, Bool.and_true,
    Bool.and_true, hlead a ha y hy]
  omega

lemma maxCpt_lt_iff (h : Encodes c bytes) : maxCpt < c ↔ beyondUnicode (bytes ++ rest) = true := by
  have low : ∀ {v : Nat} {b : UInt8} {bs : Str}, v < 0x110000 → b < 0xF4 →
      (maxCpt < UInt32.ofNat v ↔ beyondUnicode (b :: bs) = true) := by
    intro v b bs hv hb
    rw [beyondUnicode_low hb]
    exact iff_of_false (UInt32.not_lt.2 (le_maxCpt hv)) Bool.false_ne_true
  cases h with
  | one ha => exact low (by omega) (ofNat_lt (by omega))
  | two ha hb => exact low (by omega) (ofNat_lt (by omega))
  | three ha hb hd => exact low (by omega) (ofNat_lt (by omega))
  | four ha hb hd he =>
    simp only [cons_append, nil_append]
    rw [beyondUnicode_four ha hb hd he]
    constructor
    · intro hlt
      apply Nat.le_of_not_lt
      intro hv
      exact absurd hlt (UInt32.not_lt.2 (le_maxCpt hv))
    · intro hle
      exact maxCpt_lt hle (by omega)

lemma decode_beyond (h : beyondUnicode text = true) : ∃ c, cptFromUtf8 text = some (c, 4) := by
  rcases text with _ | ⟨b, _ | ⟨b1, _ | ⟨b2, _ | ⟨b3, bs⟩⟩⟩⟩
  · cases h
  · cases h
  · cases h
  · cases h
  · rw [beyondUnicode] at h
    simp only [Bool.and_eq_true] at h
    obtain ⟨⟨⟨hlead, hcont1⟩, hcont2⟩, hcont3⟩ := h
    have hfour : ∃ a < 8, b = UInt8.ofNat (0xf0 + a) := by
      have hb : 0xF4 ≤ b ∧ b ≤ 0xF7 := by
        simp only [Bool.or_eq_true, Bool.and_eq_true, beq_iff_eq, decide_eq_true_eq] at hlead
        obtain ⟨rfl, -⟩ | ⟨hlow, hhigh⟩ := hlead
        · decide
        · exact ⟨UInt8.le_trans (by decide) hlow, hhigh⟩
      rw [UInt8.le_iff_toNat_le, UInt8.le_iff_toNat_le] at hb
      have hlow : 0xF4 ≤ b.toNat := hb.1
      have hhigh : b.toNat ≤ 0xF7 := hb.2
      exact ⟨b.toNat - 0xf0, by omega, by rw [Nat.add_sub_cancel' (by omega), UInt8.ofNat_toNat]⟩
    obtain ⟨a, ha, rfl⟩ := hfour
    obtain ⟨y, hy, rfl⟩ := isCont_tail hcont1
    obtain ⟨z, hz, rfl⟩ := isCont_tail hcont2
    obtain ⟨x, hx, rfl⟩ := isCont_tail hcont3
    exact ⟨_, decode_four ha hy hz hx bs⟩

lemma Encodes.suffix (h : Encodes c bytes) {s : Str} (hs : s <:+ bytes ++ rest) (hbeyond : beyondUnicode s = true) :
    s = bytes ++ rest ∨ s <:+ rest := by
  have tail : ∀ {y : Nat} {bs : Str}, y < 64 → beyondUnicode (UInt8.ofNat (0x80 + y) :: bs) = false := by
    intro y bs hy
    exact beyondUnicode_low (ofNat_lt (by omega))
  have step : ∀ {y : Nat} {bs : Str}, y < 64 → s <:+ UInt8.ofNat (0x80 + y) :: bs → s <:+ bs := by
    intro y bs hy hs
    obtain rfl | hs := suffix_cons_iff.1 hs
    · rw [tail hy] at hbeyond
      cases hbeyond
    · exact hs
  cases h with
  | one ha => exact suffix_cons_iff.1 hs
  | two ha hb =>
    obtain heq | hs := suffix_cons_iff.1 hs
    · exact .inl heq
    · exact .inr (step hb hs)
  | three ha hb hd =>
    obtain heq | hs := suffix_cons_iff.1 hs
    · exact .inl heq
    · exact .inr (step hd (step hb hs))
  | four ha hb hd he =>
    obtain heq | hs := suffix_cons_iff.1 hs
    · exact .inl heq
    · exact .inr (step he (step hd (step hb hs)))

lemma not_beyondUnicode_nil : ¬ BeyondUnicode [] := by
  intro ⟨rest, hsuffix, hbeyond⟩
  rw [suffix_nil.1 hsuffix] at hbeyond
  cases hbeyond

lemma Encodes.beyondUnicode_iff (h : Encodes c bytes) :
    BeyondUnicode (bytes ++ rest) ↔ maxCpt < c ∨ BeyondUnicode rest := by
  rw [@maxCpt_lt_iff c bytes rest h]
  constructor
  · intro ⟨s, hs, hbeyond⟩
    obtain rfl | hs := h.suffix hs hbeyond
    · exact .inl hbeyond
    · exact .inr ⟨s, hs, hbeyond⟩
  · intro hcases
    obtain hbeyond | ⟨s, hs, hbeyond⟩ := hcases
    · exact ⟨_, suffix_rfl, hbeyond⟩
    · exact ⟨s, hs.trans (suffix_append _ _), hbeyond⟩

lemma cptsLoop_le_iff : ∀ {fuel : Nat} {text : Str}, text.length ≤ fuel →
    ((∀ c ∈ cptsLoop fuel text, c ≤ maxCpt) ↔ ¬ BeyondUnicode text) := by
  intro fuel
  induction fuel with
  | zero =>
    intro text hfuel
    obtain rfl := length_eq_zero_iff.1 (Nat.le_zero.1 hfuel)
    exact iff_of_true (fun c hc => absurd hc not_mem_nil) not_beyondUnicode_nil
  | succ fuel ih =>
    intro text hfuel
    cases text with
    | nil => exact iff_of_true (fun c hc => absurd hc not_mem_nil) not_beyondUnicode_nil
    | cons b bs =>
      rw [cptsLoop]
      cases hdecode : cptFromUtf8 (b :: bs) with
      | none =>
        have hskip : BeyondUnicode (b :: bs) ↔ BeyondUnicode bs := by
          constructor
          · rintro ⟨s, hs, hbeyond⟩
            obtain rfl | hs := suffix_cons_iff.1 hs
            · obtain ⟨c, hc⟩ := decode_beyond hbeyond
              rw [hdecode] at hc
              cases hc
            · exact ⟨s, hs, hbeyond⟩
          · rintro ⟨s, hs, hbeyond⟩
            exact ⟨s, hs.trans (suffix_cons b bs), hbeyond⟩
        simp only [forall_mem_cons, ih (Nat.le_of_succ_le_succ hfuel), hskip]
        exact and_iff_right (by decide)
      | some p =>
        obtain ⟨c, n⟩ := p
        obtain ⟨bytes, rest, hsplit, rfl, henc⟩ := encodes_of_decode hdecode
        have hshort : rest.length ≤ fuel := by
          have hpos : 0 < bytes.length := by
            cases henc <;> exact Nat.succ_pos _
          have hlen := congrArg List.length hsplit
          rw [length_append, length_cons] at hlen
          rw [length_cons] at hfuel
          omega
        simp only [hsplit, drop_left, forall_mem_cons, ih hshort, henc.beyondUnicode_iff, not_or, UInt32.not_lt]

lemma cptsFromUtf8_le_iff (text : Str) : (∀ c ∈ cptsFromUtf8 text, c ≤ maxCpt) ↔ ¬ BeyondUnicode text :=
  cptsLoop_le_iff (le_refl _)

lemma isSome_cptToUtf8 : (cptToUtf8 c).isSome ↔ c ≤ maxCpt := by
  have trans : ∀ {m : UInt32}, m ≤ maxCpt → c ≤ m → c ≤ maxCpt := fun hm hc => UInt32.le_trans hc hm
  rw [cptToUtf8]
  split
  · rename_i h
    exact iff_of_true rfl (trans (by decide) h)
  split
  · rename_i h
    exact iff_of_true rfl (trans (by decide) h)
  split
  · rename_i h
    exact iff_of_true rfl (trans (by decide) h)
  split
  · rename_i h
    exact iff_of_true rfl h
  · rename_i h
    exact iff_of_false Bool.false_ne_true h

lemma isSome_cptsToUtf8 : (cptsToUtf8 cs).isSome ↔ ∀ c ∈ cs, c ≤ maxCpt := by
  induction cs with
  | nil => exact iff_of_true rfl fun c hc => absurd hc not_mem_nil
  | cons c cs ih =>
    rw [forall_mem_cons, ← isSome_cptToUtf8, ← ih]
    constructor
    · intro h
      obtain ⟨text, htext⟩ := isSome_iff_exists.1 h
      obtain ⟨head, tail, hhead, htail, -⟩ := cptsToUtf8_cons htext
      rw [hhead, htail]
      exact ⟨rfl, rfl⟩
    · intro ⟨hc, hcs⟩
      obtain ⟨head, hhead⟩ := isSome_iff_exists.1 hc
      obtain ⟨tail, htail⟩ := isSome_iff_exists.1 hcs
      rw [cptsToUtf8_cons_some hhead htail]
      rfl

/-- The tables of Unicode data hold code points of Unicode. -/
structure TablesInUnicode (u : Unicode) : Prop where
  nfd : ∀ cs, (∀ c ∈ cs, c ≤ maxCpt) → ∀ c ∈ u.cptsNormalizeNfd cs, c ≤ maxCpt
  tolower : ∀ c ≤ maxCpt, u.tolower c ≤ maxCpt

lemma isSome_preprocess {u : Unicode} (hu : TablesInUnicode u) (h : ∀ c ∈ cptsFromUtf8 text, c ≤ maxCpt) :
    (preprocess u text).isSome := by
  have step : ∀ (w : Words) (c : UInt32), c ≤ maxCpt → ∃ w', preprocessStep u w c = some w' := by
    intro w c hc
    obtain ⟨s, hs⟩ := isSome_iff_exists.1 (isSome_cptToUtf8.2 (hu.tolower c hc))
    rw [preprocessStep]
    simp only [hs, bind_eq_bind, bind_some]
    repeat' split
    all_goals exact ⟨_, rfl⟩
  have loop : ∀ (cs : List UInt32) (w : Words), (∀ c ∈ cs, c ≤ maxCpt) →
      ∃ w', cs.foldlM (preprocessStep u) w = some w' := by
    intro cs
    induction cs with
    | nil =>
      intro w _
      exact ⟨w, rfl⟩
    | cons c cs ih =>
      intro w hcs
      obtain ⟨hc, hcs⟩ := forall_mem_cons.1 hcs
      obtain ⟨w', hw'⟩ := step w c hc
      obtain ⟨w'', hw''⟩ := ih w' hcs
      refine ⟨w'', ?_⟩
      rw [foldlM_cons, hw']
      exact hw''
  obtain ⟨w, hw⟩ := loop _ ([], []) (hu.nfd _ h)
  rw [preprocess, hw]
  rfl

lemma isSome_unicodeRegexSplit {u : Unicode} (hm : OrderedMatches u) (exprs : List Str)
    (h : ∀ c ∈ cptsFromUtf8 text, c ≤ maxCpt) : (unicodeRegexSplit u exprs text).isSome := by
  obtain ⟨text', htext'⟩ := isSome_iff_exists.1 (isSome_cptsToUtf8.2 h)
  -- the replaced text has the same code points
  have hsame : unicodeRegexSplit u exprs text = unicodeRegexSplit u exprs text' := by
    rw [unicodeRegexSplit, unicodeRegexSplit, cptsFromUtf8_encode htext']
  obtain ⟨ws, hws, -⟩ := unicodeRegexSplit_encode hm exprs htext'
  rw [hsame, hws]
  rfl

/-- A text is taken without an exception by the decoding and encoding of its code points, by the pre-tokenizer and by the
preprocessing of WPM, and an encoded text is reproduced. -/
structure TakesText (u : Unicode) (exprs : List Str) (text : Str) : Prop where
  encoded : (cptsToUtf8 (cptsFromUtf8 text)).isSome
  split : (unicodeRegexSplit u exprs text).isSome
  preprocessed : (preprocess u text).isSome
  reproduced : ∀ cs, cptsToUtf8 cs = some text → cptsToUtf8 (cptsFromUtf8 text) = some text

/-- The texts that are taken are the ones without four bytes for a value above U+10FFFF. -/
theorem takesText_iff {u : Unicode} (hu : TablesInUnicode u) (hm : OrderedMatches u) (exprs : List Str) (text : Str) :
    TakesText u exprs text ↔ ¬ BeyondUnicode text := by
  rw [← cptsFromUtf8_le_iff]
  constructor
  · intro h
    exact isSome_cptsToUtf8.1 h.encoded
  · intro h
    refine ⟨isSome_cptsToUtf8.2 h, isSome_unicodeRegexSplit hm exprs h, isSome_preprocess hu h, ?_⟩
    intro cs hcs
    rw [cptsFromUtf8_encode hcs, hcs]

end

/-- The bytes F4 90 80 80 are decoded to U+110000, which is not encoded. -/
theorem takesText_above : cptsFromUtf8 [0xF4, 0x90, 0x80, 0x80] = [0x110000] ∧
    unicodeRegexSplit asciiTables [] [0xF4, 0x90, 0x80, 0x80] = none ∧
    preprocess asciiTables [0xF4, 0x90, 0x80, 0x80] = none ∧ ¬ TakesText asciiTables [] [0xF4, 0x90, 0x80, 0x80] := by
  refine ⟨by decide, by decide, by decide, ?_⟩
  intro h
  have hthrows : (cptsToUtf8 (cptsFromUtf8 [0xF4, 0x90, 0x80, 0x80])).isSome = false := by
    decide
  exact absurd h.encoded (by rw [hthrows]; exact Bool.false_ne_true)

lemma inUnicode_asciiTables : TablesInUnicode asciiTables := by
  refine ⟨fun cs h => h, ?_⟩
  intro c hc
  simp only [asciiTables]
  split
  · rename_i hcase
    obtain ⟨-, hle⟩ := hcase
    rw [UInt32.le_iff_toNat_le] at hle ⊢
    rw [UInt32.toNat_add]
    have h90 : (90 : UInt32).toNat = 90 := rfl
    have h32 : (32 : UInt32).toNat = 32 := rfl
    have hmax : maxCpt.toNat = 0x10FFFF := rfl
    omega
  · exact hc

/-- The byte FF is replaced by U+FFFD, and U+10FFFF is kept. -/
theorem takesText_replaced : TakesText asciiTables [ascii "\\p\x7bHan\x7d+"] [97, 0xFF, 0xF4, 0x8F, 0xBF, 0xBF] := by
  refine (takesText_iff inUnicode_asciiTables ordered_asciiTables _ _).2 ?_
  rintro ⟨rest, hrest, hbeyond⟩
  have hno : ∀ r ∈ tails [97, 0xFF, 0xF4, 0x8F, 0xBF, 0xBF], beyondUnicode r = false := by decide
  rw [hno rest ((mem_tails _ _).2 hrest)] at hbeyond
  cases hbeyond

end Mallana.Tokenizer
