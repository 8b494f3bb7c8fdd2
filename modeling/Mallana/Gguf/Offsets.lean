import Mallana.Gguf.Extents
import Mallana.Gguf.Writer

/-!
# Offsets of the tensors

`gguf_add_tensor` takes the offset of a tensor from the tensor before it, `gguf_set_tensor_type` computes those behind the
tensor again. `offsets_exact`: they stay the sums of the padded sizes, and the writer finds every tensor at its offset.
-/

namespace Mallana.Gguf

open Lib List

/-- A context to which tensors are added: an empty one, or one that was read. -/
inductive Opened : GgufContext → Prop where
  | empty : Opened initEmpty
  | read {mem params file ctx} : initFromFilePtr mem params file = .ok ctx → Opened ctx

inductive TensorStep : GgufContext → Unit → GgufContext → Prop where
  | add {ctx ctx' t} : addTensor ctx t = some ctx' → TensorStep ctx () ctx'
  | retype {ctx ctx' name type} : setTensorType ctx name type = some ctx' → TensorStep ctx () ctx'

/-- The padded sizes of tensors, as a `size_t`. -/
def paddedSum (alignment : Nat) (infos : List GgufTensorInfo) : Nat :=
  (infos.map fun ti => ggmlPad ti.t.nbytes alignment).sum % sizeMod

/-- The assertions of `write_tensor_data` on the offsets, in `size_t`, when `written` bytes are before the first tensor. -/
def offsetAsserts (alignment offsetData : Nat) : List GgufTensorInfo → Nat → Bool
  | [], _ => true
  | ti :: infos, written =>
    (written - offsetData) % sizeMod = ti.offset &&
      offsetAsserts alignment offsetData infos
        (written + ti.t.nbytes + (padding (written + ti.t.nbytes) alignment).length)

variable {ctx ctx' : GgufContext} {infos : List GgufTensorInfo} {k : Nat}

lemma linked_of_computeSize {s size : Nat} (hs : s < sizeMod) (h : computeSize k infos s = .ok size) :
    Linked k s infos := by
  induction infos generalizing s with
  | nil => trivial
  | cons ti infos ih =>
    rw [computeSize] at h
    split at h
    · cases h
    next hoff =>
      split at h
      · cases h
      next hsum =>
        have hlt : s + ggmlPad ti.t.nbytes k < sizeMod := by
          unfold sizeMax sizeMod at *
          omega
        refine ⟨not_not.1 hoff, ?_⟩
        rw [nextOffset, not_not.1 hoff, Nat.mod_eq_of_lt hlt]
        exact ih hlt h

/-- The tensors follow each other, for an alignment that is a power of two. -/
def Placed (ctx : GgufContext) : Prop := Linked ctx.alignment 0 ctx.info ∧ ∃ k ≤ 64, ctx.alignment = 2 ^ k

lemma Opened.placed (h : Opened ctx) : Placed ctx := by
  cases h with
  | empty => exact ⟨trivial, 5, by decide, rfl⟩
  | read h =>
    obtain ⟨hok, hs, -⟩ := initFromFilePtr_eq_ok h
    obtain ⟨k, hk, ha⟩ := hok.alignment_pow
    exact ⟨linked_of_computeSize (by decide) hs, k, by omega, ha⟩

lemma Placed.step {u : Unit} (h : Placed ctx) (hs : TensorStep ctx u ctx') : Placed ctx' := by
  obtain ⟨hlinked, hpow⟩ := h
  cases hs with
  | add he =>
    unfold addTensor at he
    split at he
    · cases he
    · cases he
      exact ⟨linked_append hlinked rfl, hpow⟩
  | retype he =>
    unfold setTensorType at he
    split at he
    · cases he
    · split at he
      · cases he
      · cases he
        exact ⟨linked_retypeInfos hlinked, hpow⟩

lemma linked_offset {off : Nat} (hoff : off < sizeMod) (h : Linked k off infos) {i : Nat} {ti : GgufTensorInfo}
    (hi : infos[i]? = some ti) : ti.offset = (off + paddedSum k (infos.take i)) % sizeMod := by
  induction infos generalizing off i with
  | nil => cases hi
  | cons tj infos ih =>
    cases i with
    | zero =>
      cases hi
      rw [h.1, take_zero, paddedSum, map_nil, sum_nil]
      exact (Nat.mod_eq_of_lt hoff).symm
    | succ i =>
      have hnext : nextOffset k tj < sizeMod := Nat.mod_lt _ (by decide)
      rw [ih hnext h.2 hi, take_succ_cons, paddedSum, paddedSum, map_cons, sum_cons, nextOffset, h.1]
      simp only [Nat.add_mod_mod, Nat.mod_add_mod, add_assoc]

lemma length_written {w n : Nat} (hw : 2 ^ k ∣ w) :
    n + (padding (w + n) (2 ^ k)).length = (n + 2 ^ k - 1) / 2 ^ k * 2 ^ k := by
  obtain ⟨c, rfl⟩ := hw
  have hpos : 0 < 2 ^ k := Nat.two_pow_pos k
  have hn := Nat.div_add_mod n (2 ^ k)
  have hlt := Nat.mod_lt n hpos
  rw [padding, length_replicate, Nat.mul_add_mod]
  rcases Nat.eq_zero_or_pos (n % 2 ^ k) with hr | hr
  · have hq : (n + 2 ^ k - 1) / 2 ^ k = n / 2 ^ k :=
      Nat.div_eq_of_lt_le (by rw [mul_comm]; omega) (by rw [Nat.succ_mul, mul_comm]; omega)
    rw [hq, hr, Nat.sub_zero, Nat.mod_self, Nat.mul_comm]
    omega
  · have hq : (n + 2 ^ k - 1) / 2 ^ k = n / 2 ^ k + 1 :=
      Nat.div_eq_of_lt_le (by rw [Nat.succ_mul, mul_comm]; omega)
        (by rw [Nat.succ_mul, Nat.succ_mul, mul_comm]; omega)
    rw [hq, Nat.mod_eq_of_lt (by omega), Nat.succ_mul, mul_comm]
    omega

lemma written_mod (hk : k ≤ 64) {w n : Nat} (hw : 2 ^ k ∣ w) :
    (n + (padding (w + n) (2 ^ k)).length) % sizeMod = ggmlPad n (2 ^ k) := by
  have hpow : sizeMod = 2 ^ k * 2 ^ (64 - k) := by
    rw [← pow_add, Nat.add_sub_cancel' hk]
    rfl
  rw [length_written hw, ggmlPad, and_mask hk (Nat.mod_lt _ (by decide)), hpow, mul_comm _ (2 ^ k),
    Nat.mul_mod_mul_left, Nat.mod_mul_right_div_self, mul_comm (2 ^ k)]

lemma offsetAsserts_of_linked (hk : k ≤ 64) {base written off : Nat} (hw : 2 ^ k ∣ written) (hle : base ≤ written)
    (hoff : (written - base) % sizeMod = off) (h : Linked (2 ^ k) off infos) :
    offsetAsserts (2 ^ k) base infos written = true := by
  induction infos generalizing written off with
  | nil => rfl
  | cons ti infos ih =>
    obtain ⟨hti, hrest⟩ := h
    have hdvd : 2 ^ k ∣ ti.t.nbytes + (padding (written + ti.t.nbytes) (2 ^ k)).length := by
      rw [length_written hw]
      exact Nat.dvd_mul_left _ _
    have hnext : (written + (ti.t.nbytes + (padding (written + ti.t.nbytes) (2 ^ k)).length) - base) % sizeMod =
        nextOffset (2 ^ k) ti := by
      rw [nextOffset, hti, ← hoff, ← written_mod hk hw, Nat.sub_add_comm hle, ← Nat.add_mod]
    rw [offsetAsserts, decide_eq_true (hoff.trans hti.symm), add_assoc,
      ih (Nat.dvd_add hw hdvd) (hle.trans (Nat.le_add_right _ _)) hnext hrest]
    rfl

/-- The offset of a tensor is the sum of the padded sizes of the tensors before it, and that is where it is written. -/
theorem offsets_exact (h : Reach Opened TensorStep ctx) :
    (∀ i ti, ctx.info[i]? = some ti → ti.offset = paddedSum ctx.alignment (ctx.info.take i)) ∧
      offsetAsserts ctx.alignment (writeHead ctx).length ctx.info (writeHead ctx).length = true := by
  obtain ⟨hlinked, k, hk, ha⟩ := h.invariant (fun _ => Opened.placed) fun _ _ _ => Placed.step
  refine ⟨fun i ti hi => ?_, ?_⟩
  · rw [linked_offset (by decide) hlinked hi, zero_add, paddedSum, Nat.mod_mod]
  · have hhead : 2 ^ k ∣ (writeHead ctx).length := by
      have hlen := length_written (n := (writeMeta ctx).length) (Nat.dvd_zero (2 ^ k))
      rw [zero_add] at hlen
      rw [writeHead, length_append, ha, hlen]
      exact Nat.dvd_mul_left _ _
    rw [ha] at hlinked ⊢
    exact offsetAsserts_of_linked hk hhead (Nat.le_refl _) (by rw [Nat.sub_self]; rfl) hlinked

/-- Two tensors of ten and five floats; the first is made one of half floats. -/
theorem offsets_retyped : ∃ ctx : GgufContext, ctx.info.map (·.offset) = [0, 32] ∧
    ∀ i ti, ctx.info[i]? = some ti → ti.offset = paddedSum ctx.alignment (ctx.info.take i) :=
  ⟨_, rfl, (offsets_exact (.step (.step (.step (.init .empty)
    (@TensorStep.add _ _ ⟨[97], 0, 10, 1, 1, 1, 4, 40, 40, 40⟩ rfl)) (@TensorStep.add _ _ ⟨[98], 0, 5, 1, 1, 1, 4, 20, 20, 20⟩ rfl))
      (@TensorStep.retype _ _ [97] 1 rfl))).1⟩

end Mallana.Gguf
