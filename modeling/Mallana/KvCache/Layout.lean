import Mathlib.Algebra.Order.Group.Nat
import Mathlib.Tactic.Ring

/-!
# Where a V row lies

Byte offsets into the V tensor of one layer of a cache that is not transposed, as four places of the
source compute them: `set_input_v_idxs` with `cpy_v` (writing), `get_v` (attention), the state functions
through `v_stream`, and the stream copy of `update` through `v_stream`. Each is built from the `ggml`
functions that the source calls. The V tensor has `pg_block_size` rows more for each stream than the
stream has cells, also without paging; the first two places count `kv_size` rows for a stream, the other
two use the stride of the tensor.
-/

namespace Mallana

/-- A `ggml` type: `typeSize` bytes for each block of `blckSize` elements. -/
structure GgmlType where
  typeSize : Nat
  blckSize : Nat
  typeSize_pos : 0 < typeSize
  blckSize_pos : 0 < blckSize

def GgmlType.f16 : GgmlType := ⟨2, 1, by decide, by decide⟩

/-- C++ `ggml_row_size`. -/
def GgmlType.rowSize (ty : GgmlType) (ne : Nat) : Nat := ty.typeSize * ne / ty.blckSize

lemma GgmlType.rowSize_mul (ty : GgmlType) {ne : Nat} (h : ty.blckSize ∣ ne) (n : Nat) :
    ty.rowSize (ne * n) = n * (ty.typeSize * (ne / ty.blckSize)) := by
  obtain ⟨m, rfl⟩ := h
  rw [Nat.mul_div_cancel_left _ ty.blckSize_pos, GgmlType.rowSize]
  rw [show ty.typeSize * (ty.blckSize * m * n) = n * (ty.typeSize * m) * ty.blckSize by ring]
  exact Nat.mul_div_cancel _ ty.blckSize_pos

/-- Geometry of a tensor or view: offset of its data, extents and strides in bytes. -/
structure Tensor where
  offs : Nat
  ne0 : Nat
  ne1 : Nat
  ne2 : Nat
  ne3 : Nat
  nb1 : Nat
  nb2 : Nat
  nb3 : Nat

/-- C++ `ggml_new_tensor_3d`, and `ggml_reshape_2d` with `ne2 = 1`: contiguous strides. -/
def GgmlType.newTensor3d (ty : GgmlType) (ne0 ne1 ne2 : Nat) : Tensor :=
  let nb1 := ty.typeSize * (ne0 / ty.blckSize)
  { offs := 0, ne0, ne1, ne2, ne3 := 1, nb1, nb2 := nb1 * ne1, nb3 := nb1 * ne1 * ne2 }

/-- C++ `ggml_view_2d`. -/
def Tensor.view2d (a : Tensor) (ne0 ne1 nb1 offset : Nat) : Tensor :=
  { offs := a.offs + offset, ne0, ne1, ne2 := 1, ne3 := 1, nb1, nb2 := nb1 * ne1, nb3 := nb1 * ne1 }

/-- C++ `ggml_view_4d`. -/
def Tensor.view4d (a : Tensor) (ne0 ne1 ne2 ne3 nb1 nb2 nb3 offset : Nat) : Tensor :=
  { offs := a.offs + offset, ne0, ne1, ne2, ne3, nb1, nb2, nb3 }

/-- The V cache of one layer: `nEmbd` elements for each cell, a whole number of blocks. -/
structure VLayout where
  ty : GgmlType
  nEmbd : Nat
  kvSize : Nat
  nStream : Nat
  nEmbd_pos : 0 < nEmbd
  nEmbd_dvd : ty.blckSize ∣ nEmbd

namespace VLayout

variable (L : VLayout)

/-- C++ `pg_block_size`. -/
def pgBlockSize : Nat := 32

/-- The V tensor (`v_rows` rows for each stream, not transposed). -/
def v : Tensor := L.ty.newTensor3d L.nEmbd (L.kvSize + pgBlockSize) L.nStream

/-- C++ `v_stream[s]`. -/
def vStream (s : Nat) : Tensor := L.v.view2d L.nEmbd L.kvSize L.v.nb1 (s * L.v.nb2)

/-- The row number of a cell in `set_input_v_idxs`, without paging. -/
def vIdx (s i : Nat) : Nat := s * L.kvSize + i

/-- Where `cpy_v` writes the row of a cell: `ggml_set_rows` on the flattened tensor. -/
def cpyV (s i : Nat) : Nat :=
  let v := if 1 < L.nStream then L.ty.newTensor3d L.nEmbd (L.v.ne1 * L.nStream) 1 else L.v
  v.offs + L.vIdx s i * v.nb1

/-- The view that `get_v` gives to attention, for a slot that starts at stream `s0` (the first two
    dimensions are the heads and their elements, which make up the row). -/
def getV (headV nHead nKv ns s0 : Nat) : Tensor :=
  L.v.view4d headV nHead nKv ns (L.ty.rowSize headV) (L.ty.rowSize L.nEmbd)
    (L.ty.rowSize (L.nEmbd * L.kvSize)) (L.ty.rowSize (L.nEmbd * L.kvSize) * s0)

def attnV (headV nHead nKv ns s0 s i : Nat) : Nat :=
  let w := L.getV headV nHead nKv ns s0
  w.offs + (s - s0) * w.nb3 + i * w.nb2

def stateV (s i : Nat) : Nat := (L.vStream s).offs + i * L.ty.rowSize L.nEmbd

/-- Where `update` finds the row of a cell when it copies the view of a stream. -/
def copyV (s i : Nat) : Nat := (L.vStream s).offs + i * (L.vStream s).nb1

/-- All four places agree on a cell of stream `s`, for every slot that contains the stream. -/
def SameRow (s i : Nat) : Prop :=
  ∀ headV nHead nKv ns s0, s0 ≤ s → s < s0 + ns →
    L.cpyV s i = L.attnV headV nHead nKv ns s0 s i ∧ L.cpyV s i = L.stateV s i ∧ L.cpyV s i = L.copyV s i

def rowBytes : Nat := L.ty.typeSize * (L.nEmbd / L.ty.blckSize)

lemma rowBytes_pos : 0 < L.rowBytes :=
  mul_pos L.ty.typeSize_pos
    (Nat.div_pos (Nat.le_of_dvd L.nEmbd_pos L.nEmbd_dvd) L.ty.blckSize_pos)

lemma rowSize_mul (n : Nat) : L.ty.rowSize (L.nEmbd * n) = n * L.rowBytes :=
  L.ty.rowSize_mul L.nEmbd_dvd n

lemma rowSize_nEmbd : L.ty.rowSize L.nEmbd = L.rowBytes := by
  have h := L.rowSize_mul 1
  rwa [mul_one, one_mul] at h

lemma cpyV_eq (s i : Nat) : L.cpyV s i = (s * L.kvSize + i) * L.rowBytes := by
  unfold cpyV
  simp only []
  split <;> simp [v, GgmlType.newTensor3d, vIdx, rowBytes]

lemma attnV_eq {headV nHead nKv ns s0 s : Nat} (h : s0 ≤ s) (i : Nat) :
    L.attnV headV nHead nKv ns s0 s i = (s * L.kvSize + i) * L.rowBytes := by
  obtain ⟨d, rfl⟩ := Nat.exists_eq_add_of_le h
  simp only [attnV, getV, Tensor.view4d, v, GgmlType.newTensor3d, rowSize_mul, rowSize_nEmbd,
    Nat.add_sub_cancel_left]
  ring

lemma stateV_eq (s i : Nat) : L.stateV s i = (s * (L.kvSize + 32) + i) * L.rowBytes := by
  simp only [stateV, vStream, Tensor.view2d, v, GgmlType.newTensor3d, rowSize_nEmbd, pgBlockSize, rowBytes]
  ring

lemma copyV_eq (s i : Nat) : L.copyV s i = (s * (L.kvSize + 32) + i) * L.rowBytes := by
  simp only [copyV, vStream, Tensor.view2d, v, GgmlType.newTensor3d, pgBlockSize, rowBytes]
  ring

lemma cpyV_eq_attnV {headV nHead nKv ns s0 s : Nat} (h : s0 ≤ s) (i : Nat) :
    L.cpyV s i = L.attnV headV nHead nKv ns s0 s i := by
  rw [cpyV_eq, L.attnV_eq h]

/-- The state functions and the stream copy agree with them on the first stream and on no other. -/
theorem sameRow_iff (s i : Nat) : L.SameRow s i ↔ s = 0 := by
  constructor
  · intro h
    obtain ⟨_, hst, _⟩ := h 0 0 0 1 s le_rfl (Nat.lt_succ_self s)
    rw [cpyV_eq, stateV_eq] at hst
    have hrow := Nat.eq_of_mul_eq_mul_right L.rowBytes_pos hst
    rw [mul_add] at hrow
    omega
  · rintro rfl headV nHead nKv ns s0 h0 _
    refine ⟨L.cpyV_eq_attnV h0 i, ?_, ?_⟩
    · rw [cpyV_eq, stateV_eq]
      simp
    · rw [cpyV_eq, copyV_eq]
      simp

/-- Two streams of 256 cells, rows of one `f16` element. -/
def twoStreams : VLayout where
  ty := .f16
  nEmbd := 1
  kvSize := 256
  nStream := 2
  nEmbd_pos := by decide
  nEmbd_dvd := by decide

/-- Cell 0 of stream 1 is row 256 for attention and row 288 for the state functions. -/
theorem twoStreams_differ : ¬ ∀ s < twoStreams.nStream, ∀ i < twoStreams.kvSize, twoStreams.SameRow s i := by
  intro h
  obtain ⟨_, hst, _⟩ := h 1 (by decide) 0 (by decide) 1 1 256 1 1 le_rfl (by decide)
  revert hst
  decide

end VLayout

end Mallana
