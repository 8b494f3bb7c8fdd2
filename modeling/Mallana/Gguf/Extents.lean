import Mallana.Gguf.Accepted

/-!
# The extents of the tensors

What a context that the reader returns says about where its tensors are. Offsets are running sums of
padded sizes, so they are aligned, and the ranges of the tensors follow each other as long as no size
wraps. The checks of the reader bound the element count and the exact size of a tensor, but not
`ne[0]*nb[0]` in `ggml_nbytes` for types with blocks, nor the sum in `GGML_PAD`. `separate_iff` says
that these two are all that is missing.
-/

namespace Mallana.Gguf

open Lib ByteParser

def GgmlTensor.exactBytes (t : GgmlTensor) : Nat := typeSize t.type * (t.nelements / blckSize t.type)

/-- No size computation on the tensor wraps: the element counts in `int64_t`, the strides, the steps of
    `ggml_nbytes` and the padding in `size_t`. -/
structure NoWrap (alignment : Nat) (t : GgmlTensor) : Prop where
  elems1 : t.ne0 * t.ne1 ≤ int64Max
  elems2 : t.ne0 * t.ne1 * t.ne2 ≤ int64Max
  elems3 : t.ne0 * t.ne1 * t.ne2 * t.ne3 ≤ int64Max
  stride1 : t.nb0 * (t.ne0 / blckSize t.type) < sizeMod
  stride2 : t.nb1 * t.ne1 < sizeMod
  stride3 : t.nb2 * t.ne2 < sizeMod
  row : 0 < t.ne0 → blckSize t.type ≠ 1 → t.ne0 * t.nb0 < sizeMod
  bytes : 0 < t.ne0 → (if blckSize t.type = 1 then typeSize t.type + (t.ne0 - 1) * t.nb0
    else t.ne0 * t.nb0 / blckSize t.type) + (t.ne1 - 1) * t.nb1 + (t.ne2 - 1) * t.nb2 +
    (t.ne3 - 1) * t.nb3 < sizeMod
  pad : t.nbytes + alignment - 1 < sizeMod

/-- The tensors of a context are apart, aligned and inside the data section, and no size wrapped. -/
structure Separate (ctx : GgufContext) : Prop where
  aligned : ∀ ti ∈ ctx.info, ctx.alignment ∣ ti.offset
  inside : ∀ ti ∈ ctx.info, ti.offset + ti.t.nbytes ≤ ctx.size
  disjoint : ctx.info.Pairwise fun x y =>
    x.offset + x.t.nbytes ≤ y.offset ∨ y.offset + y.t.nbytes ≤ x.offset
  noWrap : ∀ ti ∈ ctx.info, NoWrap ctx.alignment ti.t
  sum : (ctx.info.map fun ti => ggmlPad ti.t.nbytes ctx.alignment).sum = ctx.size ∧ ctx.size < sizeMod

/-- What the reader does not check. -/
structure Fits (alignment : Nat) (t : GgmlTensor) : Prop where
  row : 0 < t.ne0 → blckSize t.type ≠ 1 → t.ne0 * typeSize t.type < sizeMod
  pad : t.exactBytes + alignment - 1 < sizeMod

lemma add_pred_mul {a n : Nat} (h : 0 < n) : a + (n - 1) * a = a * n := by
  obtain ⟨m, rfl⟩ := Nat.exists_eq_succ_of_ne_zero (ne_of_gt h)
  rw [Nat.succ_eq_add_one, Nat.add_sub_cancel, mul_add, mul_one, mul_comm a, add_comm]

namespace TensorOk
variable {t : GgmlTensor} (h : TensorOk t)
include h

lemma ne0_eq : t.ne0 = blckSize t.type * (t.ne0 / blckSize t.type) :=
  (Nat.mul_div_cancel' h.blck_dvd).symm

lemma nelements_div : t.nelements / blckSize t.type = t.ne0 / blckSize t.type * t.ne1 * t.ne2 * t.ne3 := by
  unfold GgmlTensor.nelements
  rw [h.ne0_eq]
  simp only [mul_assoc]
  rw [Nat.mul_div_cancel_left _ h.blck_pos, Nat.mul_div_cancel_left _ h.blck_pos]

lemma exactBytes_lt : t.exactBytes < sizeMod := by
  have hts := typeSize_pos h.type_lt h.blck_pos
  have hle := (Nat.le_div_iff_mul_le hts).1 h.size_le
  rw [mul_comm] at hle
  exact lt_of_le_of_lt hle (by decide)

lemma exactBytes_eq : t.exactBytes = typeSize t.type * (t.ne0 / blckSize t.type) * t.ne1 * t.ne2 * t.ne3 := by
  unfold GgmlTensor.exactBytes
  rw [h.nelements_div]
  simp only [mul_assoc]

lemma strides_eq : t.nb0 = typeSize t.type ∧ t.nb1 = typeSize t.type * (t.ne0 / blckSize t.type) ∧
    t.nb2 = typeSize t.type * (t.ne0 / blckSize t.type) * t.ne1 ∧
    t.nb3 = typeSize t.type * (t.ne0 / blckSize t.type) * t.ne1 * t.ne2 := by
  have hlt := h.exactBytes_lt
  rw [h.exactBytes_eq] at hlt
  have h3 := lt_of_le_of_lt (Nat.le_mul_of_pos_right _ h.ne3_pos) hlt
  have h2 := lt_of_le_of_lt (Nat.le_mul_of_pos_right _ h.ne2_pos) h3
  have h1 := lt_of_le_of_lt (Nat.le_mul_of_pos_right _ h.ne1_pos) h2
  have hs := h.strides
  have e0 : t.nb0 = typeSize t.type := congrArg GgmlTensor.nb0 hs
  have e1 : t.nb1 = typeSize t.type * (t.ne0 / blckSize t.type) := by
    rw [congrArg GgmlTensor.nb1 hs]
    exact Nat.mod_eq_of_lt h1
  have e2 : t.nb2 = typeSize t.type * (t.ne0 / blckSize t.type) * t.ne1 := by
    rw [congrArg GgmlTensor.nb2 hs]
    change typeSize t.type * (t.ne0 / blckSize t.type) % sizeMod * t.ne1 % sizeMod = _
    rw [Nat.mod_eq_of_lt h1, Nat.mod_eq_of_lt h2]
  have e3 : t.nb3 = typeSize t.type * (t.ne0 / blckSize t.type) * t.ne1 * t.ne2 := by
    rw [congrArg GgmlTensor.nb3 hs]
    change typeSize t.type * (t.ne0 / blckSize t.type) % sizeMod * t.ne1 % sizeMod * t.ne2 % sizeMod = _
    rw [Nat.mod_eq_of_lt h1, Nat.mod_eq_of_lt h2, Nat.mod_eq_of_lt h3]
  exact ⟨e0, e1, e2, e3⟩

lemma telescope : t.nb1 + (t.ne1 - 1) * t.nb1 + (t.ne2 - 1) * t.nb2 + (t.ne3 - 1) * t.nb3 = t.exactBytes := by
  obtain ⟨-, e1, e2, e3⟩ := h.strides_eq
  rw [add_pred_mul h.ne1_pos, show t.nb1 * t.ne1 = t.nb2 by rw [e1, e2], add_pred_mul h.ne2_pos,
    show t.nb2 * t.ne2 = t.nb3 by rw [e2, e3], add_pred_mul h.ne3_pos, e3, h.exactBytes_eq]

lemma firstRow (hne : 0 < t.ne0) : (if blckSize t.type = 1 then typeSize t.type + (t.ne0 - 1) * t.nb0
    else t.ne0 * t.nb0 / blckSize t.type) = t.nb1 := by
  obtain ⟨e0, e1, -, -⟩ := h.strides_eq
  split
  next hb => rw [e0, e1, add_pred_mul hne, hb, Nat.div_one]
  next hb =>
    rw [e0, e1, mul_comm, Nat.mul_div_assoc _ h.blck_dvd]

lemma nbytes_of_ne0 (hne : t.ne0 = 0) : t.nbytes = 0 ∧ t.exactBytes = 0 := by
  constructor
  · unfold GgmlTensor.nbytes
    rw [if_pos (.inl hne)]
  · rw [h.exactBytes_eq, hne, Nat.zero_div]
    simp

lemma nbytes_eq (hrow : 0 < t.ne0 → blckSize t.type ≠ 1 → t.ne0 * typeSize t.type < sizeMod) :
    t.nbytes = t.exactBytes := by
  by_cases hne : t.ne0 = 0
  · obtain ⟨h1, h2⟩ := h.nbytes_of_ne0 hne
    rw [h1, h2]
  · have hpos := Nat.pos_of_ne_zero hne
    have h1 := h.ne1_pos
    have h2 := h.ne2_pos
    have h3 := h.ne3_pos
    have hfirst := h.firstRow hpos
    have htel := h.telescope
    have hlt := h.exactBytes_lt
    unfold GgmlTensor.nbytes
    rw [if_neg (by omega)]
    split
    next hb =>
      rw [if_pos hb] at hfirst
      rw [hfirst, htel, Nat.mod_eq_of_lt hlt]
    next hb =>
      rw [if_neg hb] at hfirst
      have hmod : t.ne0 * t.nb0 % sizeMod = t.ne0 * t.nb0 := by
        rw [h.strides_eq.1]
        exact Nat.mod_eq_of_lt (hrow hpos hb)
      rw [hmod, hfirst, htel, Nat.mod_eq_of_lt hlt]

lemma noWrap_iff (alignment : Nat) : NoWrap alignment t ↔ Fits alignment t := by
  obtain ⟨e0, e1, e2, e3⟩ := h.strides_eq
  constructor
  · intro hw
    have hrow : 0 < t.ne0 → blckSize t.type ≠ 1 → t.ne0 * typeSize t.type < sizeMod := by
      rw [← e0]
      exact hw.row
    have hpad := hw.pad
    rw [h.nbytes_eq hrow] at hpad
    exact ⟨hrow, hpad⟩
  · intro hf
    have hlt := h.exactBytes_lt
    have heq := h.exactBytes_eq
    rw [← e3] at heq
    have h3 : t.nb3 ≤ t.exactBytes := by
      rw [heq]
      exact Nat.le_mul_of_pos_right _ h.ne3_pos
    have h2 : t.nb2 ≤ t.nb3 := by
      rw [e3, ← e2]
      exact Nat.le_mul_of_pos_right _ h.ne2_pos
    have h1 : t.nb1 ≤ t.nb2 := by
      rw [e2, ← e1]
      exact Nat.le_mul_of_pos_right _ h.ne1_pos
    refine ⟨?_, ?_, ?_, ?_, ?_, ?_, ?_, ?_, ?_⟩
    · exact (Nat.le_div_iff_mul_le h.ne1_pos).1 (le_of_lt h.elems1)
    · exact (Nat.le_div_iff_mul_le h.ne2_pos).1 (le_of_lt h.elems2)
    · exact (Nat.le_div_iff_mul_le h.ne3_pos).1 (le_of_lt h.elems3)
    · rw [e0, ← e1]
      omega
    · rw [show t.nb1 * t.ne1 = t.nb2 by rw [e1, e2]]
      omega
    · rw [show t.nb2 * t.ne2 = t.nb3 by rw [e2, e3]]
      omega
    · rw [e0]
      exact hf.row
    · intro hne
      rw [h.firstRow hne, h.telescope]
      exact hlt
    · rw [h.nbytes_eq hf.row]
      exact hf.pad

end TensorOk

lemma computeSize_eq_ok {k : Nat} (hk : k ≤ 64) {infos : List GgufTensorInfo} {s size : Nat}
    (hs : 2 ^ k ∣ s) (hlt : s < sizeMod) (h : computeSize (2 ^ k) infos s = .ok size) :
    s + (infos.map fun ti => ggmlPad ti.t.nbytes (2 ^ k)).sum = size ∧ size < sizeMod ∧
      (∀ ti ∈ infos, 2 ^ k ∣ ti.offset ∧ s ≤ ti.offset ∧ ti.offset + ggmlPad ti.t.nbytes (2 ^ k) ≤ size) ∧
      infos.Pairwise fun x y => x.offset + ggmlPad x.t.nbytes (2 ^ k) ≤ y.offset := by
  induction infos generalizing s with
  | nil =>
    cases h
    exact ⟨rfl, hlt, by simp, List.Pairwise.nil⟩
  | cons ti infos ih =>
    rw [computeSize] at h
    split at h
    · cases h
    next hoff =>
      split at h
      · cases h
      next hfit =>
        have hoff := not_not.1 hoff
        have hroom : s + ggmlPad ti.t.nbytes (2 ^ k) < sizeMod := by
          unfold sizeMod at hlt ⊢
          unfold sizeMax at hfit
          omega
        obtain ⟨hsum, hsize, hall, hpw⟩ := ih ((Nat.dvd_add_iff_right hs).1 (dvd_ggmlPad hk)) hroom h
        have hge : s + ggmlPad ti.t.nbytes (2 ^ k) ≤ size := by
          rw [← hsum]
          exact Nat.le_add_right _ _
        refine ⟨?_, hsize, ?_, ?_⟩
        · rw [List.map_cons, List.sum_cons, ← add_assoc, hsum]
        · simp only [List.mem_cons, forall_eq_or_imp]
          refine ⟨⟨by rw [hoff]; exact hs, by omega, by omega⟩, fun tj hj => ?_⟩
          obtain ⟨h1, h2, h3⟩ := hall tj hj
          exact ⟨h1, by omega, h3⟩
        · refine List.Pairwise.cons (fun tj hj => ?_) hpw
          obtain ⟨-, h2, -⟩ := hall tj hj
          omega

/-- The tensors of an accepted file are apart exactly when each of them fits. -/
theorem separate_iff {mem : Nat → Bool} {params : GgufInitParams} {file : List UInt8} {ctx : GgufContext}
    (h : initFromFilePtr mem params file = .ok ctx) : Separate ctx ↔ ∀ ti ∈ ctx.info, Fits ctx.alignment ti.t := by
  obtain ⟨hok, hs, -⟩ := initFromFilePtr_eq_ok h
  obtain ⟨k, hk, ha⟩ := hok.alignment_pow
  constructor
  · exact fun hsep ti hti => ((hok.info_ok ti hti).noWrap_iff _).1 (hsep.noWrap ti hti)
  · intro hfits
    rw [ha] at hs
    obtain ⟨hsum, hlt, hall, hpw⟩ := computeSize_eq_ok (by omega) (Nat.dvd_zero _) (by decide) hs
    -- without wrapping, a padded size is at least the size
    have hpad : ∀ ti ∈ ctx.info, ti.t.nbytes ≤ ggmlPad ti.t.nbytes (2 ^ k) := by
      intro ti hti
      have hp := (((hok.info_ok ti hti).noWrap_iff _).2 (hfits ti hti)).pad
      rw [ha] at hp
      exact le_ggmlPad (by omega) hp
    refine ⟨?_, ?_, ?_, ?_, ?_⟩
    · intro ti hti
      rw [ha]
      exact (hall ti hti).1
    · intro ti hti
      have := hpad ti hti
      have := (hall ti hti).2.2
      omega
    · refine hpw.imp_of_mem fun {x y} hx _ hxy => .inl ?_
      have := hpad x hx
      omega
    · exact fun ti hti => ((hok.info_ok ti hti).noWrap_iff _).2 (hfits ti hti)
    · rw [ha]
      exact ⟨by rw [← hsum, zero_add], hlt⟩

/-- The info of a tensor with one dimension, as it stands in a file. -/
def infoBytes (name : UInt8) (ne0 type offset : Nat) : List UInt8 :=
  leBytes 8 1 ++ [name] ++ leBytes 4 1 ++ leBytes 8 ne0 ++ leBytes 4 type ++ leBytes 8 offset

def twoTensorsFile : List UInt8 :=
  ggufMagic ++ leBytes 4 3 ++ leBytes 8 2 ++ leBytes 8 0 ++ infoBytes 97 4 0 0 ++ infoBytes 98 4 0 32

/-- A file with two tensors of `2^61 - 1` doubles, both with the offset 0. -/
def wrappingFile : List UInt8 :=
  ggufMagic ++ leBytes 4 3 ++ leBytes 8 2 ++ leBytes 8 0 ++ infoBytes 97 (2 ^ 61 - 1) 28 0 ++
    infoBytes 98 (2 ^ 61 - 1) 28 0

/-- What the reader makes of a file without loading the tensors; `none` if it does not accept it. -/
def acceptedInfos (file : List UInt8) : Option (List (Nat × Nat) × Nat) :=
  match initFromFilePtr (fun _ => true) ⟨true, false⟩ file with
  | .ok ctx => some (ctx.info.map fun ti => (ti.offset, ti.t.nbytes), ctx.size)
  | .error _ => none

/-- The reader accepts two tensors with the same `2^64 - 8` bytes, and a data section of size 0. -/
theorem accepts_overlap : ∃ ctx, initFromFilePtr (fun _ => true) ⟨true, false⟩ wrappingFile = .ok ctx ∧
    ¬ Separate ctx := by
  have hrun : acceptedInfos wrappingFile = some ([(0, 2 ^ 64 - 8), (0, 2 ^ 64 - 8)], 0) := by
    decide +kernel
  unfold acceptedInfos at hrun
  cases hc : initFromFilePtr (fun _ => true) ⟨true, false⟩ wrappingFile with
  | error e =>
    rw [hc] at hrun
    cases hrun
  | ok ctx =>
    rw [hc] at hrun
    simp only [Option.some.injEq, Prod.mk.injEq] at hrun
    refine ⟨ctx, rfl, fun hsep => ?_⟩
    obtain ⟨hmap, hsize⟩ := hrun
    obtain ⟨ti, hti, heq⟩ := List.mem_map.1 (show (0, 2 ^ 64 - 8) ∈ ctx.info.map _ by rw [hmap]; simp)
    have hin := hsep.inside ti hti
    rw [hsize] at hin
    have hnb : ti.t.nbytes = 2 ^ 64 - 8 := congrArg Prod.snd heq
    omega

/-- The two tensors of floats are apart. -/
theorem separate_twoTensors : ∃ ctx, initFromFilePtr (fun _ => true) ⟨true, false⟩ twoTensorsFile = .ok ctx ∧
    Separate ctx := by
  have hrun : ∃ ctx, initFromFilePtr (fun _ => true) ⟨true, false⟩ twoTensorsFile = .ok ctx ∧
      ∀ ti ∈ ctx.info, (blckSize ti.t.type = 1 ∧ ti.t.exactBytes + ctx.alignment - 1 < sizeMod) := by
    refine ⟨_, rfl, ?_⟩
    decide +kernel
  obtain ⟨ctx, hc, hall⟩ := hrun
  refine ⟨ctx, hc, (separate_iff hc).2 fun ti hti => ?_⟩
  obtain ⟨hb, hp⟩ := hall ti hti
  exact ⟨fun _ hne => absurd hb hne, hp⟩

theorem accepted_ok {mem : Nat → Bool} {params : GgufInitParams} {file : List UInt8} {ctx : GgufContext}
    (h : initFromFilePtr mem params file = .ok ctx) : ctx.Ok :=
  (initFromFilePtr_eq_ok h).1

theorem accepted_twoTensors : ∃ ctx, initFromFilePtr (fun _ => true) ⟨true, false⟩ twoTensorsFile = .ok ctx ∧ ctx.Ok := by
  have hrun : ∃ ctx, initFromFilePtr (fun _ => true) ⟨true, false⟩ twoTensorsFile = .ok ctx := ⟨_, rfl⟩
  obtain ⟨ctx, hc⟩ := hrun
  exact ⟨ctx, hc, accepted_ok hc⟩

end Mallana.Gguf
