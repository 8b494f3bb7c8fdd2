import Mathlib.Algebra.Order.Ring.Nat
import Mathlib.Tactic.Linarith
import Mallana.Rpc.Bounds

/-!
# The extent of a tensor

`ggml_nbytes` adds the products of dimensions and strides as 64-bit words. `exactBytes` is the same sum without wrapping, and
`lastEnd` is where the last element ends. They agree for types without blocks; for a type with blocks `ggml_nbytes` counts
the first dimension in elements, and the last block can end behind it when the first stride is not the size of a block.
-/

namespace Mallana.Rpc

open Mallana.Gguf (typeTraits blckSize typeSize)

namespace GgmlTensor

variable {r : GgmlTensor} {i : Fin 4 → Nat}

lemma outer_mono {j : Fin 4 → Nat} (h : ∀ d, i d ≤ j d) : r.outer i ≤ r.outer j := by
  have h1 := Nat.mul_le_mul_right (r.nb 1).toNat (h 1)
  have h2 := Nat.mul_le_mul_right (r.nb 2).toNat (h 2)
  have h3 := Nat.mul_le_mul_right (r.nb 3).toNat (h 3)
  unfold outer
  omega

lemma elementOffset_le (h : ∀ d, i d < (r.ne d).toNat) : r.elementOffset i + typeSize r.type.toNat ≤ r.lastEnd := by
  have hle : ∀ d, i d ≤ r.lastIndex d := fun d => Nat.le_sub_one_of_lt (h d)
  have h0 := Nat.mul_le_mul_right (r.nb 0).toNat (Nat.div_le_div_right (c := blckSize r.type.toNat) (hle 0))
  have ho := outer_mono (r := r) hle
  unfold lastEnd elementOffset
  omega

lemma exactBytes_of_blck (h : blckSize r.type.toNat = 1) : r.exactBytes = r.lastEnd := by
  rw [exactBytes, if_pos h, lastEnd, elementOffset, h, Nat.div_one]
  omega

lemma exactBytes_le (hblck : 0 < blckSize r.type.toNat) : r.exactBytes ≤ r.lastEnd + (r.nb 0).toNat := by
  by_cases h : blckSize r.type.toNat = 1
  · rw [exactBytes_of_blck h]
    exact Nat.le_add_right _ _
  · have hne : (r.ne 0).toNat ≤ (r.lastIndex 0 / blckSize r.type.toNat + 1) * blckSize r.type.toNat := by
      have hdiv := Nat.lt_div_mul_add (a := r.lastIndex 0) hblck
      rw [Nat.succ_mul]
      unfold lastIndex at hdiv ⊢
      omega
    have hmul : (r.ne 0).toNat * (r.nb 0).toNat / blckSize r.type.toNat ≤
        (r.lastIndex 0 / blckSize r.type.toNat + 1) * (r.nb 0).toNat := by
      refine (Nat.div_le_div_right (Nat.mul_le_mul_right _ hne)).trans (le_of_eq ?_)
      rw [mul_right_comm]
      exact Nat.mul_div_cancel _ hblck
    rw [exactBytes, if_neg h, lastEnd, elementOffset]
    rw [Nat.succ_mul] at hmul
    omega

lemma ofNat_lastIndex {d : Fin 4} (h : r.ne d ≠ 0) : UInt64.ofNat (r.lastIndex d) = r.ne d - 1 := by
  have hpos : 1 ≤ (r.ne d).toNat := Nat.one_le_iff_ne_zero.2 fun e => h (UInt64.toNat_inj.1 e)
  rw [lastIndex, UInt64.ofNat_sub hpos, UInt64.ofNat_toNat]
  rfl

lemma nbytes_eq (hne : ∀ d, r.ne d ≠ 0) (hblck : blckSize r.type.toNat < 18446744073709551616)
    (hrow : (r.ne 0).toNat * (r.nb 0).toNat < 18446744073709551616) : r.nbytes = UInt64.ofNat r.exactBytes := by
  have hsum : UInt64.ofNat (r.outer r.lastIndex) =
      (r.ne 1 - 1) * r.nb 1 + (r.ne 2 - 1) * r.nb 2 + (r.ne 3 - 1) * r.nb 3 := by
    simp only [outer, UInt64.ofNat_add, UInt64.ofNat_mul, ofNat_lastIndex (hne _), UInt64.ofNat_toNat]
  rw [nbytes, if_neg fun ⟨d, hd⟩ => hne d hd, exactBytes]
  by_cases h : blckSize r.type.toNat = 1
  · rw [if_pos h, if_pos h, UInt64.ofNat_add, UInt64.ofNat_add, UInt64.ofNat_mul, hsum, ofNat_lastIndex (hne 0),
      UInt64.ofNat_toNat]
    grind
  · rw [if_neg h, if_neg h, UInt64.ofNat_add, UInt64.ofNat_div hrow hblck, UInt64.ofNat_mul, hsum, UInt64.ofNat_toNat,
      UInt64.ofNat_toNat]
    grind

end GgmlTensor

lemma blckSize_le (type : Nat) : blckSize type ≤ 256 := by
  unfold blckSize
  have hall : ∀ t ∈ typeTraits, t.blckSize ≤ 256 := by decide
  rcases lt_or_ge type typeTraits.length with hlt | hge
  · rw [List.getD_eq_getElem _ _ hlt]
    exact hall _ (List.getElem_mem hlt)
  · rw [List.getD_eq_default _ _ hge]
    decide

namespace RpcServer

def ElementsInside (b : Buffer) (r : GgmlTensor) : Prop :=
  ∀ i : Fin 4 → Nat, (∀ d, i d < (r.ne d).toNat) →
    Buffer.Contains b (r.data.toNat + r.elementOffset i) (typeSize r.type.toNat)

/-- A tensor has no elements; or its size in bytes does not wrap, and the last block of a type with blocks ends within it or
finds room in the buffer. -/
def Fits (b : Buffer) (r : GgmlTensor) : Prop :=
  (∃ d, r.ne d = 0) ∨ r.exactBytes < 18446744073709551616 ∧
      (r.lastEnd ≤ r.exactBytes ∨ r.data.toNat + r.lastEnd ≤ b.base.toNat + b.size.toNat)

variable {srv : RpcServer} {t : RpcTensor} {b : Buffer}

lemma nbytes_newTensor (hne : ∀ d, (srv.newTensor t).ne d ≠ 0) :
    (srv.newTensor t).nbytes = UInt64.ofNat (srv.newTensor t).exactBytes := by
  have hblck := blckSize_le (srv.newTensor t).type.toNat
  refine GgmlTensor.nbytes_eq hne (by omega) ?_
  have h1 : ((srv.newTensor t).ne 0).toNat < 4294967296 := (UInt32.toNat_toUInt64 (t.ne 0)).trans_lt (t.ne 0).toNat_lt
  have h2 : ((srv.newTensor t).nb 0).toNat < 4294967296 := (UInt32.toNat_toUInt64 (t.nb 0)).trans_lt (t.nb 0).toNat_lt
  nlinarith

lemma elementsInside_iff (hlow : b.base.toNat + b.size.toNat ≤ 9223372036854775808)
    (hd : srv.Deserialized t (srv.newTensor t)) (hb : srv.find t.buffer = some b) :
    ElementsInside b (srv.newTensor t) ↔ Fits b (srv.newTensor t) := by
  have hin := dataInside_toNat hlow (hd.inside b hb)
  by_cases hz : ∃ d, (srv.newTensor t).ne d = 0
  · refine ⟨fun _ => .inl hz, fun _ i hi => ?_⟩
    obtain ⟨d, hd0⟩ := hz
    have hlt := hi d
    rw [hd0] at hlt
    exact absurd hlt (Nat.not_lt_zero _)
  · have hne : ∀ d, (srv.newTensor t).ne d ≠ 0 := fun d e => hz ⟨d, e⟩
    have hpos : ∀ d, 0 < ((srv.newTensor t).ne d).toNat := fun d =>
      pos_of_ne_zero fun e => hne d (UInt64.toNat_inj.1 e)
    have hnb : ((srv.newTensor t).nb 0).toNat < 4294967296 :=
      (UInt32.toNat_toUInt64 (t.nb 0)).trans_lt (t.nb 0).toNat_lt
    have hbytes := GgmlTensor.exactBytes_le (r := srv.newTensor t) hd.blck_pos
    constructor
    · intro h
      have hlast := (h (srv.newTensor t).lastIndex fun d => Nat.sub_lt (hpos d) Nat.one_pos).2
      have hend : (srv.newTensor t).data.toNat + (srv.newTensor t).lastEnd ≤ b.base.toNat + b.size.toNat := by
        unfold GgmlTensor.lastEnd
        omega
      exact .inr ⟨by omega, .inr hend⟩
    · intro h i hi
      rcases h with hz' | ⟨hwrap, hlast⟩
      · exact absurd hz' hz
      · have hexact : (srv.newTensor t).nbytes.toNat = (srv.newTensor t).exactBytes := by
          rw [nbytes_newTensor hne, UInt64.toNat_ofNat']
          exact Nat.mod_eq_of_lt hwrap
        have hle := GgmlTensor.elementOffset_le hi
        have hlo := hin.1
        have hhi := hin.2
        rw [hexact] at hhi
        refine ⟨by omega, ?_⟩
        rcases hlast with hlast | hlast <;> omega

end RpcServer

end Mallana.Rpc
