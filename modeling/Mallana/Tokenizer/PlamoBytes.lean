import Mallana.Tokenizer.Detokenize

/-!
# The byte tokens of PLaMo-2

Every entry of `bytes_` is a token whose text has the number of the byte, which is also the piece of the token, and the
byte tokens of a character are those of its encoding.
-/

namespace Mallana.Tokenizer

open List

variable {F : Type} {v : Vocab F} {t : Plamo}

/-- The frame `<0x..>` of the text of a byte token. -/
def byteFrame (text : Str) : Bool := text.length == 6 && text.take 3 == [60, 48, 120] && text.getLast? == some 62

def Numbered (d : TokenData F) (n : Nat) : Prop :=
  d.built.byte = true ∧ byteFrame d.text = true ∧ stoiHex (span d.text 3 2) = some n

/-- Every byte has a token that is not the token 0, and the text of a byte token has a number. -/
structure ByteTokens (v : Vocab F) : Prop where
  all : ∀ n < 256, ∃ id d, 0 < id ∧ v.idToToken[id]? = some d ∧ Numbered d n
  numbered : ∀ d ∈ v.idToToken, d.built.byte = true → byteFrame d.text = true → ∃ n, Numbered d n

lemma stoiHex_hexNumber {s : Str} {n : Nat} (h : stoiHex s = some n) : hexNumber s = some (n : Int) := by
  unfold stoiHex at h
  unfold hexNumber
  generalize s.dropWhile isspace = r at h ⊢
  cases r with
  | nil => cases h
  | cons b r =>
    obtain rfl | hne := eq_or_ne b 45
    · cases h
    · have hsign : (some b == some 45) = false := by simpa using hne
      simp only [head?_cons, tail_cons, Option.some.injEq] at h
      simp only [head?_cons, tail_cons, hsign, Bool.false_or, beq_iff_eq, Option.some.injEq, Bool.false_eq_true,
        if_false]
      generalize hexDigits (if b = 43 then r else b :: r) = digits at h ⊢
      cases digits with
      | nil => cases h
      | cons d ds =>
        cases h
        rfl

lemma addByte_cases {bytes bytes' : List Int} {d : TokenData F} {k : Nat} (h : addByte bytes (d, k) = some bytes') :
    (∃ n, Numbered d n ∧ bytes' = bytes.set n k) ∨ ((∀ n, ¬ Numbered d n) ∧ bytes' = bytes) := by
  have hcond : (d.built.byte && d.text.length == 6 && d.text.take 3 == [60, 48, 120] && d.text.getLast? == some 62) =
      (d.built.byte && byteFrame d.text) := by
    simp only [byteFrame, Bool.and_assoc]
  simp only [addByte, hcond] at h
  split at h
  · rename_i hframe
    obtain ⟨hbyte, hframe⟩ := Bool.and_eq_true_iff.1 hframe
    obtain ⟨n, hn, h⟩ := Option.bind_eq_some_iff.1 h
    cases h
    exact .inl ⟨n, ⟨hbyte, hframe, hn⟩, rfl⟩
  · rename_i hframe
    cases h
    exact .inr ⟨fun n hn => hframe (Bool.and_eq_true_iff.2 ⟨hn.1, hn.2.1⟩), rfl⟩

lemma getD_set (bytes : List Int) (n i : Nat) (y : Int) (hi : i < bytes.length) :
    (bytes.set n y).getD i 0 = if n = i then y else bytes.getD i 0 := by
  rw [getD_eq_getElem?_getD, getD_eq_getElem?_getD, getElem?_set]
  split
  · rename_i heq
    subst heq
    rw [if_pos hi, Option.getD_some]
  · rfl

/-- What `bytes_` has: the token of a byte, or none yet. -/
structure ByteTable (done : List (TokenData F × Nat)) (bytes : List Int) : Prop where
  length : bytes.length = 256
  entry : ∀ n < 256, bytes.getD n 0 = 0 ∨ ∃ e ∈ done, bytes.getD n 0 = (e.2 : Int) ∧ Numbered e.1 n
  found : ∀ n < 256, (∃ e ∈ done, 0 < e.2 ∧ Numbered e.1 n) → bytes.getD n 0 ≠ 0

lemma Numbered.inj {d : TokenData F} {n n' : Nat} (h : Numbered d n) (h' : Numbered d n') : n = n' :=
  Option.some.inj (h.2.2.symm.trans h'.2.2)

lemma ByteTable.step {done rest : List (TokenData F × Nat)} {e : TokenData F × Nat} {bytes bytes' : List Int}
    {tokens : List (TokenData F)} (hl : tokens.zipIdx = done ++ e :: rest) (h : ByteTable done bytes)
    (hstep : addByte bytes e = some bytes') : ByteTable (done ++ [e]) bytes' := by
  obtain ⟨d, k⟩ := e
  -- only the first token has the index 0
  have hfirst : k = done.length := by
    have hget : tokens.zipIdx[done.length]? = some (d, k) := by
      rw [hl, getElem?_append_right (Nat.le_refl _), Nat.sub_self]
      rfl
    obtain ⟨y, -, hy⟩ := Option.map_eq_some_iff.1 (getElem?_zipIdx.symm.trans hget)
    cases hy
    exact zero_add _
  rcases addByte_cases hstep with ⟨i, hi, rfl⟩ | ⟨hnone, rfl⟩
  · refine ⟨by rw [length_set, h.length], ?_, ?_⟩
    · intro n hn
      rw [getD_set _ _ _ _ (by rw [h.length]; exact hn)]
      split
      · rename_i heq
        subst heq
        exact .inr ⟨(d, k), mem_append_right _ mem_cons_self, rfl, hi⟩
      · rcases h.entry n hn with hzero | ⟨e, he, hval⟩
        · exact .inl hzero
        · exact .inr ⟨e, mem_append_left _ he, hval⟩
    · rintro n hn ⟨e, he, hpos, hnum⟩
      rw [getD_set _ _ _ _ (by rw [h.length]; exact hn)]
      rcases mem_append.1 he with he | he
      · split
        · have := length_pos_of_mem he
          omega
        · exact h.found n hn ⟨e, he, hpos, hnum⟩
      · cases mem_singleton.1 he
        rw [if_pos (hi.inj hnum)]
        exact Int.natCast_ne_zero.2 (ne_of_gt hpos)
  · refine ⟨h.length, ?_, ?_⟩
    · intro n hn
      rcases h.entry n hn with hzero | ⟨e, he, hval⟩
      · exact .inl hzero
      · exact .inr ⟨e, mem_append_left _ he, hval⟩
    · rintro n hn ⟨e, he, hpos, hnum⟩
      rcases mem_append.1 he with he | he
      · exact h.found n hn ⟨e, he, hpos, hnum⟩
      · cases mem_singleton.1 he
        exact absurd hnum (hnone n)

lemma byteTable_start : ByteTable ([] : List (TokenData F × Nat)) (List.replicate 256 0) := by
  refine ⟨length_replicate, ?_, ?_⟩
  · intro n hn
    left
    rw [getD_eq_getElem?_getD, getElem?_replicate_of_lt hn]
    rfl
  · rintro n - ⟨e, he, -⟩
    cases he

lemma byteTable_fold {bytes : List Int} (h : v.idToToken.zipIdx.foldlM addByte (List.replicate 256 0) = some bytes) :
    ByteTable v.idToToken.zipIdx bytes :=
  @foldlM_inv _ _ addByte ByteTable v.idToToken.zipIdx (List.replicate 256 0) bytes byteTable_start
    (fun _ _ _ _ _ hl hP hf => hP.step hl hf) h

lemma plamoBytes_numbered {bytes : List Int} (h : plamoBytes v = some bytes) {n : Nat} (hn : n < 256) :
    ∃ (k : Nat) (d : TokenData F), bytes.getD n 0 = k ∧ v.idToToken[k]? = some d ∧ Numbered d n := by
  obtain ⟨filled, hfold, h⟩ := Option.bind_eq_some_iff.1 h
  have htable := byteTable_fold hfold
  split at h
  · cases h
  · rename_i hall
    cases h
    rcases htable.entry n hn with hzero | ⟨⟨d, k⟩, he, hval, hnum⟩
    · refine absurd (any_eq_true.2 ⟨bytes.getD n 0, ?_, ?_⟩) hall
      · rw [getD_eq_getElem?_getD, getElem?_eq_getElem (by rw [htable.length]; exact hn)]
        exact getElem_mem _
      · rw [hzero]
        rfl
    · exact ⟨k, d, hval, mem_zipIdx_iff_getElem?.mp he, hnum⟩

lemma or_shift_tagged {tag mask c s : UInt32} (k : Nat) (hs : s.toNat < 32) (hmask : mask.toNat = 2 ^ k - 1) (hk : k ≤ 6)
    (hor : ∀ y < 2 ^ k, tag.toNat ||| y = tag.toNat + y) (htag : tag.toNat + 2 ^ k ≤ 256)
    (hc : c.toNat / 2 ^ s.toNat % 64 < 2 ^ k) :
    tag.toNat ||| (c.toNat >>> s.toNat &&& 0x3F) = (tagged tag c s mask).toNat := by
  have hmod : c.toNat / 2 ^ s.toNat % 2 ^ k = c.toNat / 2 ^ s.toNat % 64 := by
    have hdvd : 2 ^ k ∣ 64 := Nat.pow_dvd_pow 2 hk
    rw [← Nat.mod_mod_of_dvd _ hdvd, Nat.mod_eq_of_lt hc]
  have hand : c.toNat >>> s.toNat &&& 0x3F = c.toNat / 2 ^ s.toNat % 64 := by
    rw [Nat.shiftRight_eq_div_pow]
    exact Nat.and_two_pow_sub_one_eq_mod _ 6
  rw [tagged_eq k hs hmask hor, hmod, hand, hor _ hc, UInt8.toNat_ofNat']
  exact (Nat.mod_eq_of_lt (by omega)).symm

/-- The index that the byte `i` of `s` bytes has in `bytes_`. -/
def byteIndex (c : UInt32) (s i : Nat) : Nat :=
  (if s = 1 then c.toNat % 256 else if i = 0 then (0xF00 >>> s) % 256 else 0x80) |||
    ((c.toNat >>> ((s - i - 1) * 6)) &&& 0x3F)

lemma byteTokens_of_index (t : Plamo) {c : UInt32} {bytes : Str} (s : Nat)
    (hs : 1 + (if 0x80 ≤ c then 1 else 0) + (if 0x800 ≤ c then 1 else 0) + (if 0x10000 ≤ c then 1 else 0) = s)
    (hindex : (List.range s).map (byteIndex c s) = bytes.map UInt8.toNat) :
    byteTokens t c = bytes.map fun b => t.bytes.getD b.toNat 0 := by
  have hmap := congrArg (List.map fun i => t.bytes.getD i 0) hindex
  rw [map_map, map_map] at hmap
  refine Eq.trans ?_ hmap
  simp only [byteTokens, hs]
  rfl

lemma byteTokens_eq (t : Plamo) {c : UInt32} {bytes : Str} (h : cptToUtf8 c = some bytes) :
    byteTokens t c = bytes.map fun b => t.bytes.getD b.toNat 0 := by
  have htail : ∀ s : UInt32, s.toNat < 32 → (tagged 0x80 c s 0x3f).toNat = 0x80 ||| (c.toNat >>> s.toNat &&& 0x3F) :=
    fun s hs =>
      (@or_shift_tagged 0x80 0x3f c s 6 hs rfl (by decide) (by decide) (by decide) (Nat.mod_lt _ (by decide))).symm
  have htail0 := htail 0 (by decide)
  have htail1 := htail 6 (by decide)
  have htail2 := htail 12 (by decide)
  have hlead : ∀ {n k : Nat}, c.toNat < 2 ^ k * n → c.toNat / 2 ^ k % 64 < n :=
    fun hlt => lt_of_le_of_lt (Nat.mod_le _ _) (Nat.div_lt_of_lt_mul hlt)
  have hlow : ∀ {k : UInt32}, ¬ c ≤ k → ∀ {n : UInt32}, n.toNat ≤ k.toNat + 1 → n ≤ c := by
    intro k hk n hn
    rw [UInt32.le_iff_toNat_le] at hk ⊢
    omega
  have hhigh : ∀ {k : UInt32}, c ≤ k → ∀ {n : UInt32}, k.toNat < n.toNat → ¬ n ≤ c := by
    intro k hk n hn
    rw [UInt32.le_iff_toNat_le] at hk ⊢
    omega
  unfold cptToUtf8 at h
  split at h
  · rename_i h1
    cases h
    refine byteTokens_of_index t 1 ?_ ?_
    · rw [if_neg (hhigh h1 (by decide)), if_neg (hhigh h1 (by decide)), if_neg (hhigh h1 (by decide))]
    · have hone : ∀ y < 128, y % 256 ||| (y >>> 0 &&& 0x3F) = y % 256 := by decide
      have hc := hone c.toNat (Nat.lt_succ_of_le (UInt32.le_iff_toNat_le.1 h1))
      exact congrArg (fun n => [n]) (hc.trans (UInt32.toNat_toUInt8 c).symm)
  split at h
  · rename_i h1 h2
    cases h
    refine byteTokens_of_index t 2 ?_ ?_
    · rw [if_pos (hlow h1 (by decide)), if_neg (hhigh h2 (by decide)), if_neg (hhigh h2 (by decide))]
    · have hc : c.toNat < 2048 := Nat.lt_succ_of_le (UInt32.le_iff_toNat_le.1 h2)
      have hfirst := @or_shift_tagged 0xc0 0x1f c 6 5 (by decide) rfl (by decide) (by decide) (by decide) (hlead hc)
      rw [map_cons, map_cons, ← hfirst, htail0]
      rfl
  split at h
  · rename_i h1 h2 h3
    cases h
    refine byteTokens_of_index t 3 ?_ ?_
    · rw [if_pos (hlow h1 (by decide)), if_pos (hlow h2 (by decide)), if_neg (hhigh h3 (by decide))]
    · have hc : c.toNat < 65536 := Nat.lt_succ_of_le (UInt32.le_iff_toNat_le.1 h3)
      have hfirst := @or_shift_tagged 0xe0 0x0f c 12 4 (by decide) rfl (by decide) (by decide) (by decide) (hlead hc)
      rw [map_cons, map_cons, map_cons, ← hfirst, htail1, htail0]
      rfl
  split at h
  · rename_i h1 h2 h3 h4
    cases h
    refine byteTokens_of_index t 4 ?_ ?_
    · rw [if_pos (hlow h1 (by decide)), if_pos (hlow h2 (by decide)), if_pos (hlow h3 (by decide))]
    · have hc : c.toNat < 1114112 := Nat.lt_succ_of_le (UInt32.le_iff_toNat_le.1 h4)
      have hfirst := @or_shift_tagged 0xf0 0x07 c 18 3 (by decide) rfl (by decide) (by decide) (by decide)
        (hlead (lt_trans hc (by decide)))
      rw [map_cons, map_cons, map_cons, map_cons, ← hfirst, htail2, htail1, htail0]
      rfl
  · cases h

end Mallana.Tokenizer
