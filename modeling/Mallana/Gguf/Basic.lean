import Mallana.Lib.Reader

/-!
# GGUF contexts

Model of the data of `gguf.cpp`: key/value pairs, tensor infos and the context, with the functions of
`ggml.c` that compute element counts, strides and sizes. `size_t` arithmetic is reduced modulo `2^64`
wherever the source computes it; `int64_t` dimensions are natural numbers, since a negative one is
rejected as soon as it is read. `sizeof` values are those of a 64-bit build.
-/

namespace Mallana.Gguf

/-- The number of values of `size_t`. -/
def sizeMod : Nat := 2 ^ 64

/-- C++ `SIZE_MAX`. -/
def sizeMax : Nat := 2 ^ 64 - 1

/-- C++ `INT64_MAX`. -/
def int64Max : Nat := 2 ^ 63 - 1

/-- C++ `gguf_type`. -/
inductive GgufType where
  | uint8 | int8 | uint16 | int16 | uint32 | int32 | float32 | bool | string | array
  | uint64 | int64 | float64
deriving DecidableEq, Repr

namespace GgufType

def id : GgufType → Nat
  | uint8 => 0 | int8 => 1 | uint16 => 2 | int16 => 3 | uint32 => 4 | int32 => 5 | float32 => 6
  | bool => 7 | string => 8 | array => 9 | uint64 => 10 | int64 => 11 | float64 => 12

def ofId : Nat → Option GgufType
  | 0 => some uint8 | 1 => some int8 | 2 => some uint16 | 3 => some int16 | 4 => some uint32
  | 5 => some int32 | 6 => some float32 | 7 => some bool | 8 => some string | 9 => some array
  | 10 => some uint64 | 11 => some int64 | 12 => some float64 | _ => none

/-- C++ `gguf_type_size`; 0 where the source has no size. -/
def size : GgufType → Nat
  | uint8 | int8 | bool => 1
  | uint16 | int16 => 2
  | uint32 | int32 | float32 => 4
  | uint64 | int64 | float64 => 8
  | string | array => 0

lemma ofId_id (t : GgufType) : ofId t.id = some t := by
  cases t <;> rfl

lemma id_lt (t : GgufType) : t.id < 13 := by
  cases t <;> decide

def Fixed (t : GgufType) : Prop := t ≠ string ∧ t ≠ array

instance (t : GgufType) : Decidable t.Fixed := inferInstanceAs (Decidable (_ ∧ _))

lemma Fixed.size_pos {t : GgufType} (h : t.Fixed) : 0 < t.size := by
  obtain ⟨hs, ha⟩ := h
  cases t <;> first | decide | contradiction

end GgufType

/-- C++ `gguf_kv`: the elements of a fixed width are the bytes `data`, strings are in `dataString`. -/
structure GgufKv where
  key : List UInt8
  isArray : Bool
  type : GgufType
  data : List UInt8
  dataString : List (List UInt8)
deriving DecidableEq

/-- C++ `gguf_kv::get_ne`, without its assertions. -/
def GgufKv.getNe (kv : GgufKv) : Nat :=
  if kv.type = .string then kv.dataString.length else kv.data.length / kv.type.size

/-- What the constructors of `gguf_kv` establish, and `get_ne` asserts. -/
structure GgufKv.Ok (kv : GgufKv) : Prop where
  key_ne : kv.key ≠ []
  type_ne : kv.type ≠ .array
  strings : kv.type = .string → kv.data = []
  bytes : kv.type ≠ .string → kv.dataString = [] ∧ kv.type.size ∣ kv.data.length
  single : kv.isArray = false → kv.getNe = 1

/-- C++ `GGUF_KEY_GENERAL_ALIGNMENT`, the text `general.alignment`. -/
def keyGeneralAlignment : List UInt8 :=
  [103, 101, 110, 101, 114, 97, 108, 46, 97, 108, 105, 103, 110, 109, 101, 110, 116]

/-- C++ `gguf_find_key`. -/
def findKey (kvs : List GgufKv) (key : List UInt8) : Option GgufKv := kvs.find? (·.key = key)

/-- The traits of a type that matter for sizes. -/
structure TypeTraits where
  blckSize : Nat
  typeSize : Nat
deriving DecidableEq

/-- C++ `type_traits`, by the number of the type; `GGML_TYPE_COUNT` is the length. -/
def typeTraits : List TypeTraits :=
  [⟨1, 4⟩, ⟨1, 2⟩, ⟨32, 18⟩, ⟨32, 20⟩, ⟨0, 0⟩, ⟨0, 0⟩, ⟨32, 22⟩, ⟨32, 24⟩, ⟨32, 34⟩, ⟨32, 36⟩,
   -- the K-quants Q2_K to Q8_K
   ⟨256, 84⟩, ⟨256, 110⟩, ⟨256, 144⟩, ⟨256, 176⟩, ⟨256, 210⟩, ⟨256, 292⟩,
   -- IQ2_XXS, IQ2_XS, IQ3_XXS, IQ1_S, IQ4_NL, IQ3_S, IQ2_S, IQ4_XS
   ⟨256, 66⟩, ⟨256, 74⟩, ⟨256, 98⟩, ⟨256, 50⟩, ⟨32, 18⟩, ⟨256, 110⟩, ⟨256, 82⟩, ⟨256, 136⟩,
   -- I8, I16, I32, I64, F64, IQ1_M, BF16
   ⟨1, 1⟩, ⟨1, 2⟩, ⟨1, 4⟩, ⟨1, 8⟩, ⟨1, 8⟩, ⟨256, 56⟩, ⟨1, 2⟩,
   -- removed types, TQ1_0, TQ2_0, removed types
   ⟨0, 0⟩, ⟨0, 0⟩, ⟨0, 0⟩, ⟨256, 54⟩, ⟨256, 66⟩, ⟨0, 0⟩, ⟨0, 0⟩, ⟨0, 0⟩,
   -- MXFP4, NVFP4, TURBO3_0, TURBO4_0, TURBO2_0
   ⟨32, 17⟩, ⟨64, 36⟩, ⟨128, 50⟩, ⟨128, 68⟩, ⟨128, 34⟩]

/-- C++ `ggml_blck_size`. -/
def blckSize (type : Nat) : Nat := (typeTraits.getD type ⟨0, 0⟩).blckSize

/-- C++ `ggml_type_size`. -/
def typeSize (type : Nat) : Nat := (typeTraits.getD type ⟨0, 0⟩).typeSize

/-- The fields of `ggml_tensor` that a tensor info uses: `name` up to its end, dimensions, strides. -/
structure GgmlTensor where
  name : List UInt8
  type : Nat
  ne0 : Nat
  ne1 : Nat
  ne2 : Nat
  ne3 : Nat
  nb0 : Nat
  nb1 : Nat
  nb2 : Nat
  nb3 : Nat
deriving DecidableEq

/-- The strides that `gguf_init_from_file_ptr` and `gguf_set_tensor_type` compute. -/
def GgmlTensor.setStrides (t : GgmlTensor) : GgmlTensor :=
  let nb0 := typeSize t.type
  let nb1 := nb0 * (t.ne0 / blckSize t.type) % sizeMod
  let nb2 := nb1 * t.ne1 % sizeMod
  let nb3 := nb2 * t.ne2 % sizeMod
  { t with nb0 := nb0, nb1 := nb1, nb2 := nb2, nb3 := nb3 }

/-- C++ `ggml_nelements`. -/
def GgmlTensor.nelements (t : GgmlTensor) : Nat := t.ne0 * t.ne1 * t.ne2 * t.ne3

/-- C++ `ggml_nbytes`. -/
def GgmlTensor.nbytes (t : GgmlTensor) : Nat :=
  if t.ne0 = 0 ∨ t.ne1 = 0 ∨ t.ne2 = 0 ∨ t.ne3 = 0 then 0
  else if blckSize t.type = 1 then
    (typeSize t.type + (t.ne0 - 1) * t.nb0 + (t.ne1 - 1) * t.nb1 + (t.ne2 - 1) * t.nb2 +
      (t.ne3 - 1) * t.nb3) % sizeMod
  else
    (t.ne0 * t.nb0 % sizeMod / blckSize t.type + (t.ne1 - 1) * t.nb1 + (t.ne2 - 1) * t.nb2 +
      (t.ne3 - 1) * t.nb3) % sizeMod

/-- C++ `gguf_tensor_info`. -/
structure GgufTensorInfo where
  t : GgmlTensor
  offset : Nat
deriving DecidableEq

/-- C++ `GGML_PAD(x, n)` on `size_t`; `~(n - 1)` is `2^64 - n`. -/
def ggmlPad (x n : Nat) : Nat := ((x + n - 1) % sizeMod) &&& (sizeMod - n)

def alignmentOk (a : Nat) : Bool := a ≠ 0 && a &&& (a - 1) = 0

/-- C++ `gguf_context`; `data` is the blob that was read with the tensors. -/
structure GgufContext where
  version : Nat
  kv : List GgufKv
  info : List GgufTensorInfo
  alignment : Nat
  offset : Nat
  size : Nat
  data : Option (List UInt8)
deriving DecidableEq

/-- C++ `gguf_init_params`: whether `ctx` is set, and `no_alloc`. -/
structure GgufInitParams where
  noAlloc : Bool
  ctx : Bool

lemma alignmentOk_iff {a : Nat} : alignmentOk a = true ↔ ∃ k, a = 2 ^ k := by
  have h := Nat.ne_zero_and_sub_one_eq_zero_iff_isPowerOfTwo (n := a)
  simpa [alignmentOk, Nat.isPowerOfTwo] using h

lemma testBit_mask {k i : Nat} (hk : k ≤ 64) :
    (sizeMod - 2 ^ k).testBit i = (decide (i < 64) && decide (k ≤ i)) := by
  have hpos : 0 < 2 ^ k := Nat.two_pow_pos k
  have hlt : 2 ^ k - 1 < 2 ^ 64 := by
    have := Nat.pow_le_pow_right (n := 2) (by decide) hk
    omega
  have hsub : sizeMod - 2 ^ k = 2 ^ 64 - (2 ^ k - 1 + 1) := by
    unfold sizeMod
    omega
  rw [hsub, Nat.testBit_two_pow_sub_succ hlt, Nat.testBit_two_pow_sub_one, ← decide_not]
  congr 2
  exact propext not_lt

lemma and_mask {k y : Nat} (hk : k ≤ 64) (hy : y < sizeMod) : y &&& (sizeMod - 2 ^ k) = y / 2 ^ k * 2 ^ k := by
  refine Nat.eq_of_testBit_eq fun i => ?_
  rw [Nat.testBit_and, testBit_mask hk, Nat.testBit_mul_two_pow, Nat.testBit_div_two_pow]
  by_cases hki : k ≤ i
  · by_cases hi : i < 64
    · simp [hki, hi]
    · have hfalse : y.testBit i = false := by
        refine Nat.testBit_lt_two_pow (lt_of_lt_of_le hy ?_)
        exact Nat.pow_le_pow_right (by decide) (by omega)
      simp [hki, hfalse]
  · simp [hki]

lemma ggmlPad_eq {x k : Nat} (hk : k ≤ 64) (h : x + 2 ^ k - 1 < sizeMod) :
    ggmlPad x (2 ^ k) = (x + 2 ^ k - 1) / 2 ^ k * 2 ^ k := by
  rw [ggmlPad, Nat.mod_eq_of_lt h, and_mask hk h]

lemma dvd_ggmlPad {x k : Nat} (hk : k ≤ 64) : 2 ^ k ∣ ggmlPad x (2 ^ k) := by
  rw [ggmlPad, and_mask hk (Nat.mod_lt _ (by decide))]
  exact Nat.dvd_mul_left _ _

lemma le_ggmlPad {x k : Nat} (hk : k ≤ 64) (h : x + 2 ^ k - 1 < sizeMod) : x ≤ ggmlPad x (2 ^ k) := by
  have hpos : 0 < 2 ^ k := Nat.two_pow_pos k
  have hmod := Nat.mod_lt (x + 2 ^ k - 1) hpos
  have hdiv := Nat.div_add_mod (x + 2 ^ k - 1) (2 ^ k)
  rw [mul_comm] at hdiv
  rw [ggmlPad_eq hk h]
  omega

lemma ggmlPad_lt (x n : Nat) : ggmlPad x n < sizeMod :=
  lt_of_le_of_lt Nat.and_le_left (Nat.mod_lt _ (by decide))

end Mallana.Gguf
