import Mallana.Gguf.Accepted
import Mallana.Lib.Reach

/-!
# Building and writing GGUF

Model of the setters of `gguf.cpp` and of `gguf_write_out`. A setter returns `none` where the source
aborts: an assertion, a division by zero in `cast` or `gguf_set_tensor_type`, or a vector that would
be larger than the address space. Tensor data lives outside of the context: `dat i k` is byte `k` of
the data of tensor `i`.

`gguf_set_kv` with the context itself as the source, which invalidates what it reads, is left out.
-/

namespace Mallana.Gguf

open Lib ByteParser List

/-- C++ `gguf_init_empty`. -/
def initEmpty : GgufContext := ⟨ggufVersion, [], [], defaultAlignment, 0, 0, none⟩

/-- C++ `gguf_remove_key`. -/
def removeKey (ctx : GgufContext) (key : List UInt8) : GgufContext :=
  { ctx with kv := ctx.kv.eraseP (·.key = key) }

/-- C++ `gguf_check_reserved_keys`: the alignment is one `uint32_t`, a power of 2. -/
def checkReservedKeys (kv : GgufKv) : Bool :=
  kv.key ≠ keyGeneralAlignment || (kv.type = .uint32 && kv.isArray = false && alignmentOk (leNat kv.data))

/-- What all setters do with the pair: check the key, remove the old pair and append the new one. -/
def emplaceKv (ctx : GgufContext) (kv : GgufKv) : Option GgufContext :=
  if checkReservedKeys kv = false ∨ kv.key = [] ∨ sizeMax < ((removeKey ctx kv.key).kv.length + 1) * kvSize
  then none
  else some { ctx with kv := (removeKey ctx kv.key).kv ++ [kv] }

/-- The bytes of a value of fixed width; a `bool` is 0 or 1. -/
def fixedBytes (t : GgufType) (val : Nat) : List UInt8 :=
  if t = .bool then [if val = 0 then 0 else 1] else leBytes t.size val

/-- C++ `gguf_set_val_u8` and its siblings for the types of fixed width. -/
def setVal (ctx : GgufContext) (key : List UInt8) (t : GgufType) (val : Nat) : Option GgufContext :=
  if t.Fixed then emplaceKv ctx ⟨cString key, false, t, fixedBytes t val, []⟩ else none

/-- C++ `gguf_set_val_str`. -/
def setValStr (ctx : GgufContext) (key val : List UInt8) : Option GgufContext :=
  emplaceKv ctx ⟨cString key, false, .string, [], [cString val]⟩

/-- C++ `gguf_set_arr_data`; the number of bytes is a `size_t`. -/
def setArrData (ctx : GgufContext) (key : List UInt8) (t : GgufType) (data : Nat → UInt8) (n : Nat) :
    Option GgufContext :=
  if t.Fixed then emplaceKv ctx ⟨cString key, true, t, (List.range (n * t.size % sizeMod)).map data, []⟩
  else none

/-- C++ `gguf_set_arr_str`. -/
def setArrStr (ctx : GgufContext) (key : List UInt8) (data : List (List UInt8)) : Option GgufContext :=
  emplaceKv ctx ⟨cString key, true, .string, [], data.map cString⟩

/-- The pair that `gguf_set_kv` makes of one of the source: strings end at a NUL, and a single `bool` is
    read as such. -/
def copyKv (kv : GgufKv) : GgufKv :=
  ⟨cString kv.key, kv.isArray, kv.type,
    if kv.type = .bool ∧ kv.isArray = false then kv.data.map fun b => if b = 0 then 0 else 1 else kv.data,
    kv.dataString.map cString⟩

/-- C++ `gguf_set_kv`. -/
def setKv (ctx : GgufContext) (src : List GgufKv) : Option GgufContext :=
  src.foldlM (fun ctx kv => emplaceKv ctx (copyKv kv)) ctx

def nextOffset (alignment : Nat) (ti : GgufTensorInfo) : Nat :=
  (ti.offset + ggmlPad ti.t.nbytes alignment) % sizeMod

/-- C++ `gguf_add_tensor`. -/
def addTensor (ctx : GgufContext) (t : GgmlTensor) : Option GgufContext :=
  if t.name ∈ ctx.info.map (·.t.name) ∨ sizeMax < (ctx.info.length + 1) * tensorInfoSize then none
  else
    let offset := match ctx.info.getLast? with
      | none => 0
      | some ti => nextOffset ctx.alignment ti
    some { ctx with info := ctx.info ++ [⟨t, offset⟩] }

def relink (alignment : Nat) (prev : GgufTensorInfo) : List GgufTensorInfo → List GgufTensorInfo
  | [] => []
  | ti :: infos =>
    let ti' : GgufTensorInfo := ⟨ti.t, nextOffset alignment prev⟩
    ti' :: relink alignment ti' infos

def retype (t : GgmlTensor) (type : Nat) : GgmlTensor := GgmlTensor.setStrides { t with type := type }

/-- The infos after the tensor `name` was given another type. -/
def retypeInfos (alignment : Nat) (name : List UInt8) (type : Nat) : List GgufTensorInfo → List GgufTensorInfo
  | [] => []
  | ti :: infos =>
    if ti.t.name = name then
      let ti' : GgufTensorInfo := ⟨retype ti.t type, ti.offset⟩
      ti' :: relink alignment ti' infos
    else ti :: retypeInfos alignment name type infos

/-- C++ `gguf_set_tensor_type`; a type without blocks makes it divide by zero. -/
def setTensorType (ctx : GgufContext) (name : List UInt8) (type : Nat) : Option GgufContext :=
  match ctx.info.find? (·.t.name = name) with
  | none => none
  | some ti =>
    if blckSize type = 0 ∨ ti.t.ne0 % blckSize type ≠ 0 then none
    else some { ctx with info := retypeInfos ctx.alignment name type ctx.info }

/-- C++ `gguf_writer_base::write(const std::string &)`. -/
def writeString (s : List UInt8) : List UInt8 := leBytes 8 s.length ++ s

/-- The elements of a pair; a `bool` is written as 0 or 1. -/
def writeElems (kv : GgufKv) : List UInt8 :=
  if kv.type = .string then kv.dataString.flatMap writeString
  else if kv.type = .bool then kv.data.map fun b => if b = 0 then 0 else 1
  else kv.data

/-- The types of a pair, and the number of elements of an array. -/
def writeTag (kv : GgufKv) : List UInt8 :=
  if kv.isArray then leBytes 4 GgufType.array.id ++ leBytes 4 kv.type.id ++ leBytes 8 kv.getNe
  else leBytes 4 kv.type.id

/-- C++ `gguf_writer_base::write(const gguf_kv &)`. -/
def writeKv (kv : GgufKv) : List UInt8 := writeString kv.key ++ writeTag kv ++ writeElems kv

/-- C++ `ggml_n_dims`. -/
def GgmlTensor.nDims (t : GgmlTensor) : Nat :=
  if 1 < t.ne3 then 4 else if 1 < t.ne2 then 3 else if 1 < t.ne1 then 2 else 1

def GgmlTensor.ne (t : GgmlTensor) : List Nat := [t.ne0, t.ne1, t.ne2, t.ne3]

/-- C++ `gguf_writer_base::write_tensor_meta`. -/
def writeTensorMeta (ti : GgufTensorInfo) : List UInt8 :=
  writeString ti.t.name ++ leBytes 4 ti.t.nDims ++ (ti.t.ne.take ti.t.nDims).flatMap (leBytes 8) ++
    leBytes 4 ti.t.type ++ leBytes 8 ti.offset

/-- C++ `gguf_writer_base::pad`: the zeros that are written behind `written` bytes. -/
def padding (written alignment : Nat) : List UInt8 :=
  List.replicate ((alignment - written % alignment) % alignment) 0

def writeMeta (ctx : GgufContext) : List UInt8 :=
  ggufMagic ++ leBytes 4 ctx.version ++ leBytes 8 ctx.info.length ++ leBytes 8 ctx.kv.length ++
    ctx.kv.flatMap writeKv ++ ctx.info.flatMap writeTensorMeta

/-- C++ `ggml_is_contiguous`. -/
def GgmlTensor.isContiguous (t : GgmlTensor) : Bool :=
  let nb1 := typeSize t.type * (t.ne0 / blckSize t.type) % sizeMod
  let nb2 := nb1 * t.ne1 % sizeMod
  let nb3 := nb2 * t.ne2 % sizeMod
  (t.ne0 = blckSize t.type || t.nb0 = typeSize t.type) && (t.ne1 = 1 || t.nb1 = nb1) &&
    (t.ne2 = 1 || t.nb2 = nb2) && (t.ne3 = 1 || t.nb3 = nb3)

/-- The data of tensor `i`. -/
def tensorData (dat : Nat → Nat → UInt8) (i : Nat) (t : GgmlTensor) : List UInt8 :=
  (List.range t.nbytes).map (dat i)

/-- The loop over `write_tensor_data`, without its assertions: `written` bytes are before tensor `i`. -/
def writeData (alignment : Nat) (dat : Nat → Nat → UInt8) : List GgufTensorInfo → Nat → Nat → List UInt8
  | [], _, _ => []
  | ti :: infos, i, written =>
    let bs := tensorData dat i ti.t
    let bs := bs ++ padding (written + bs.length) alignment
    bs ++ writeData alignment dat infos (i + 1) (written + bs.length)

/-- The assertions of `write_tensor_data`: the offset is where the data goes, and it is contiguous. -/
def dataAsserts (alignment offsetData : Nat) : List GgufTensorInfo → Nat → Bool
  | [], _ => true
  | ti :: infos, written =>
    written - offsetData = ti.offset && ti.t.isContiguous &&
      dataAsserts alignment offsetData infos
        (written + ti.t.nbytes + (padding (written + ti.t.nbytes) alignment).length)

def writeHead (ctx : GgufContext) : List UInt8 :=
  writeMeta ctx ++ padding (writeMeta ctx).length ctx.alignment

/-- What `gguf_write_out` writes, up to its assertions. -/
def fileBytes (ctx : GgufContext) (dat : Nat → Nat → UInt8) : List UInt8 :=
  writeHead ctx ++ writeData ctx.alignment dat ctx.info 0 (writeHead ctx).length

/-- C++ `gguf_write_out`. -/
def writeOut (ctx : GgufContext) (dat : Nat → Nat → UInt8) : Option (List UInt8) :=
  if dataAsserts ctx.alignment (writeHead ctx).length ctx.info (writeHead ctx).length then
    some (fileBytes ctx dat)
  else none

/-- A tensor as `ggml` has it: a name that fits its array, dimensions that are `int64_t` and not negative, a
    type with blocks that its rows are divided into, blocks one after the other. -/
structure GgmlTensor.Valid (t : GgmlTensor) : Prop where
  name_lt : t.name.length < ggmlMaxName
  name_ne : 0 ∉ t.name
  ne_le : ∀ n ∈ t.ne, n ≤ int64Max
  type_lt : t.type < typeTraits.length
  blck_pos : 0 < blckSize t.type
  blck_dvd : blckSize t.type ∣ t.ne0
  nb0_eq : blckSize t.type ≠ 1 → t.nb0 = typeSize t.type

/-- One call of a setter. -/
inductive SetStep : GgufContext → Unit → GgufContext → Prop where
  | val {ctx ctx' key t v} : setVal ctx key t v = some ctx' → SetStep ctx () ctx'
  | valStr {ctx ctx' key v} : setValStr ctx key v = some ctx' → SetStep ctx () ctx'
  | arrData {ctx ctx' key t data n} : setArrData ctx key t data n = some ctx' → SetStep ctx () ctx'
  | arrStr {ctx ctx' key data} : setArrStr ctx key data = some ctx' → SetStep ctx () ctx'
  | kv {ctx ctx' src} : (∀ kv ∈ src, kv.Ok) → setKv ctx src = some ctx' → SetStep ctx () ctx'
  | remove {ctx key} : SetStep ctx () (removeKey ctx key)
  | tensor {ctx ctx' t} : t.Valid → addTensor ctx t = some ctx' → SetStep ctx () ctx'
  | tensorType {ctx ctx' name type} : setTensorType ctx name type = some ctx' → SetStep ctx () ctx'

abbrev Built : GgufContext → Prop := Reach (· = initEmpty) SetStep

def Linked (alignment : Nat) : Nat → List GgufTensorInfo → Prop
  | _, [] => True
  | offset, ti :: infos => ti.offset = offset ∧ Linked alignment (nextOffset alignment ti) infos

/-- What the setters keep. -/
structure BuiltOk (ctx : GgufContext) : Prop where
  version_eq : ctx.version = ggufVersion
  alignment_eq : ctx.alignment = defaultAlignment
  kv_ok : ∀ kv ∈ ctx.kv, kv.Ok
  kv_nodup : (ctx.kv.map (·.key)).Nodup
  kv_reserved : ∀ kv ∈ ctx.kv, checkReservedKeys kv = true
  kv_le : ctx.kv.length * kvSize ≤ sizeMax
  info_valid : ∀ ti ∈ ctx.info, ti.t.Valid
  info_nodup : (ctx.info.map (·.t.name)).Nodup
  info_le : ctx.info.length * tensorInfoSize ≤ sizeMax
  linked : Linked ctx.alignment 0 ctx.info

variable {key : List UInt8} {kv : GgufKv} {ctx ctx' : GgufContext} {alignment : Nat}
  {infos : List GgufTensorInfo} {type : Nat}

lemma key_ne_of_mem_eraseP {kvs : List GgufKv} (hnd : (kvs.map (·.key)).Nodup) (h : kv ∈ kvs.eraseP (·.key = key)) : kv.key ≠ key := by
  induction kvs with
  | nil => cases h
  | cons kv' kvs ih =>
    rw [map_cons, nodup_cons] at hnd
    rw [eraseP_cons] at h
    by_cases hk : kv'.key = key
    · rw [decide_eq_true hk] at h
      change kv ∈ kvs at h
      rintro rfl
      exact hnd.1 (hk ▸ mem_map_of_mem h)
    · rw [decide_eq_false hk] at h
      obtain rfl | h := mem_cons.1 h
      · exact hk
      · exact ih hnd.2 h

lemma BuiltOk.removeKey (h : BuiltOk ctx) (key : List UInt8) : BuiltOk (removeKey ctx key) := by
  have hsub : (ctx.kv.eraseP (·.key = key)).Sublist ctx.kv := eraseP_sublist
  refine ⟨h.version_eq, h.alignment_eq, fun kv hkv => h.kv_ok kv (hsub.subset hkv), ?_,
    fun kv hkv => h.kv_reserved kv (hsub.subset hkv), ?_, h.info_valid, h.info_nodup, h.info_le, h.linked⟩
  · exact (hsub.map _).nodup h.kv_nodup
  · exact le_trans (Nat.mul_le_mul_right _ hsub.length_le) h.kv_le

lemma BuiltOk.emplaceKv (h : BuiltOk ctx)
    (hok : kv.key ≠ [] → kv.Ok) (he : emplaceKv ctx kv = some ctx') : BuiltOk ctx' := by
  unfold Gguf.emplaceKv at he
  split at he
  · cases he
  next hc =>
    cases he
    obtain ⟨hres, hkey, hlen⟩ := not_or.1 hc |>.imp_right not_or.1
    have hr := h.removeKey kv.key
    have hnew : ∀ x ∈ (Gguf.removeKey ctx kv.key).kv ++ [kv], x ∈ (Gguf.removeKey ctx kv.key).kv ∨ x = kv := by
      intro x hx
      simpa using hx
    refine ⟨h.version_eq, h.alignment_eq, ?_, ?_, ?_, ?_, h.info_valid, h.info_nodup, h.info_le, h.linked⟩
    · intro x hx
      obtain hx | rfl := hnew x hx
      · exact hr.kv_ok x hx
      · exact hok hkey
    · exact nodup_map_append hr.kv_nodup fun x hx => key_ne_of_mem_eraseP h.kv_nodup hx
    · intro x hx
      obtain hx | rfl := hnew x hx
      · exact hr.kv_reserved x hx
      · simpa using hres
    · rw [length_append, length_singleton]
      exact Nat.not_lt.1 hlen

lemma length_fixedBytes {t : GgufType} (val : Nat) : (fixedBytes t val).length = t.size := by
  unfold fixedBytes
  split
  next h =>
    rw [h]
    rfl
  next => exact length_leBytes _ _

lemma GgufKv.ok_of_fixed {data : List UInt8} {isArray : Bool} {t : GgufType} (ht : t.Fixed)
    (hkey : key ≠ []) (hdvd : t.size ∣ data.length) (hone : isArray = false → data.length = t.size) :
    GgufKv.Ok ⟨key, isArray, t, data, []⟩ := by
  refine ⟨hkey, ht.2, fun hs => absurd hs ht.1, fun _ => ⟨rfl, hdvd⟩, fun ha => ?_⟩
  change (if t = .string then _ else data.length / t.size) = 1
  rw [if_neg ht.1, hone ha, Nat.div_self ht.size_pos]

lemma GgufKv.ok_of_strings {isArray : Bool} {ss : List (List UInt8)} (hkey : key ≠ [])
    (hone : isArray = false → ss.length = 1) : GgufKv.Ok ⟨key, isArray, .string, [], ss⟩ :=
  ⟨hkey, by simp, fun _ => rfl, fun hs => absurd rfl hs, hone⟩

lemma copyKv_ok (h : kv.Ok) (hkey : (copyKv kv).key ≠ []) : (copyKv kv).Ok := by
  have hlen : (copyKv kv).data.length = kv.data.length := by
    unfold copyKv
    simp only
    split
    · exact length_map _
    · rfl
  have hne : (copyKv kv).getNe = kv.getNe := by
    unfold GgufKv.getNe
    rw [hlen]
    change (if kv.type = .string then (kv.dataString.map cString).length else _) = _
    rw [length_map]
    rfl
  refine ⟨hkey, h.type_ne, fun hs => ?_, fun hs => ?_, fun ha => ?_⟩
  · have hdata : kv.data = [] := h.strings hs
    rw [hdata] at hlen
    exact length_eq_zero_iff.1 hlen
  · obtain ⟨h1, h2⟩ := h.bytes hs
    refine ⟨?_, ?_⟩
    · change kv.dataString.map cString = []
      rw [h1]
      rfl
    · rw [hlen]
      exact h2
  · rw [hne]
    exact h.single ha

lemma linked_append {offset : Nat} {ti : GgufTensorInfo}
    (h : Linked alignment offset infos)
    (hti : ti.offset = match infos.getLast? with
      | none => offset
      | some t => nextOffset alignment t) : Linked alignment offset (infos ++ [ti]) := by
  induction infos generalizing offset with
  | nil => exact ⟨hti, trivial⟩
  | cons t infos ih =>
    refine ⟨h.1, ih h.2 ?_⟩
    rw [hti]
    cases infos with
    | nil => rfl
    | cons t' infos =>
      rw [getLast?_cons_cons]
      cases hl : (t' :: infos).getLast? with
      | none => simp at hl
      | some x => rfl

lemma linked_relink (alignment : Nat) (prev : GgufTensorInfo) (infos : List GgufTensorInfo) :
    Linked alignment (nextOffset alignment prev) (relink alignment prev infos) := by
  induction infos generalizing prev with
  | nil => trivial
  | cons ti infos ih => exact ⟨rfl, ih _⟩

lemma map_t_relink (alignment : Nat) (prev : GgufTensorInfo) (infos : List GgufTensorInfo) :
    (relink alignment prev infos).map (·.t) = infos.map (·.t) := by
  induction infos generalizing prev with
  | nil => rfl
  | cons ti infos ih =>
    rw [relink, map_cons, map_cons, ih]

lemma linked_retypeInfos {offset : Nat} {name : List UInt8}
    (h : Linked alignment offset infos) : Linked alignment offset (retypeInfos alignment name type infos) := by
  induction infos generalizing offset with
  | nil => trivial
  | cons ti infos ih =>
    rw [retypeInfos]
    split
    · exact ⟨h.1, linked_relink _ _ _⟩
    · exact ⟨h.1, ih h.2⟩

lemma mem_retypeInfos {name : List UInt8} {x : GgufTensorInfo} (h : x ∈ retypeInfos alignment name type infos) :
    (∃ ti ∈ infos, x.t = ti.t) ∨ ∃ ti, infos.find? (·.t.name = name) = some ti ∧ x.t = retype ti.t type := by
  induction infos with
  | nil => cases h
  | cons ti infos ih =>
    rw [retypeInfos] at h
    rw [find?_cons]
    split at h
    next hn =>
      rw [show decide (ti.t.name = name) = true from decide_eq_true hn]
      obtain rfl | h := mem_cons.1 h
      · exact .inr ⟨ti, rfl, rfl⟩
      · have hx : x.t ∈ (relink alignment ⟨retype ti.t type, ti.offset⟩ infos).map (·.t) :=
          mem_map_of_mem h
        rw [map_t_relink] at hx
        obtain ⟨tj, hj, he⟩ := mem_map.1 hx
        exact .inl ⟨tj, mem_cons_of_mem _ hj, he.symm⟩
    next hn =>
      rw [show decide (ti.t.name = name) = false from decide_eq_false hn]
      obtain rfl | h := mem_cons.1 h
      · exact .inl ⟨x, mem_cons_self, rfl⟩
      · obtain ⟨tj, hj, he⟩ | ⟨tj, hf, he⟩ := ih h
        · exact .inl ⟨tj, mem_cons_of_mem _ hj, he⟩
        · exact .inr ⟨tj, hf, he⟩

lemma map_name_retypeInfos (alignment type : Nat) (name : List UInt8) (infos : List GgufTensorInfo) :
    (retypeInfos alignment name type infos).map (·.t.name) = infos.map (·.t.name) := by
  induction infos with
  | nil => rfl
  | cons ti infos ih =>
    rw [retypeInfos]
    split
    · have hm := congrArg (List.map GgmlTensor.name)
        (map_t_relink alignment ⟨retype ti.t type, ti.offset⟩ infos)
      rw [map_map, map_map] at hm
      rw [map_cons, map_cons]
      exact congrArg (ti.t.name :: ·) hm
    · rw [map_cons, map_cons, ih]

lemma retype_valid {t : GgmlTensor} (h : t.Valid) (hpos : blckSize type ≠ 0)
    (hdvd : t.ne0 % blckSize type = 0) : (retype t type).Valid := by
  have hlt : type < typeTraits.length := by
    by_contra hc
    refine hpos ?_
    unfold blckSize
    rw [getD_eq_default _ _ (Nat.not_lt.1 hc)]
  exact ⟨h.name_lt, h.name_ne, h.ne_le, hlt, Nat.pos_of_ne_zero hpos, Nat.dvd_of_mod_eq_zero hdvd, fun _ => rfl⟩

lemma BuiltOk.setKv (h : BuiltOk ctx) {src : List GgufKv}
    (hsrc : ∀ kv ∈ src, kv.Ok) (he : setKv ctx src = some ctx') : BuiltOk ctx' := by
  induction src generalizing ctx with
  | nil =>
    cases he
    exact h
  | cons kv src ih =>
    simp only [mem_cons, forall_eq_or_imp] at hsrc
    unfold Gguf.setKv at he
    rw [foldlM_cons] at he
    obtain ⟨c, hc, he⟩ := Option.bind_eq_some_iff.1 he
    exact ih (h.emplaceKv (copyKv_ok hsrc.1) hc) hsrc.2 he

/-- One call of a setter keeps the context well formed. -/
lemma builtOk_step {u : Unit} (h : BuiltOk ctx) (hs : SetStep ctx u ctx') : BuiltOk ctx' := by
  cases hs with
  | @val _ key t v he =>
    unfold setVal at he
    split at he
    next ht =>
      refine h.emplaceKv (fun hkey => ?_) he
      have hlen := @length_fixedBytes t v
      exact GgufKv.ok_of_fixed ht hkey (hlen.symm ▸ Nat.dvd_refl _) fun _ => hlen
    next => cases he
  | valStr he => exact h.emplaceKv (fun hkey => GgufKv.ok_of_strings hkey fun _ => rfl) he
  | @arrData _ key t data n he =>
    unfold setArrData at he
    split at he
    next ht =>
      refine h.emplaceKv (fun hkey => ?_) he
      refine GgufKv.ok_of_fixed ht hkey ?_ nofun
      rw [length_map, length_range]
      have hmod : t.size ∣ sizeMod := by
        cases t <;> first | decide | exact absurd ht (by decide)
      exact (Nat.dvd_mod_iff hmod).2 (Nat.dvd_mul_left _ _)
    next => cases he
  | @arrStr _ key data he =>
    have hok : ∀ hkey : cString key ≠ [], GgufKv.Ok ⟨cString key, true, .string, [], data.map cString⟩ :=
      fun hkey => GgufKv.ok_of_strings hkey nofun
    exact h.emplaceKv hok he
  | kv hsrc he => exact h.setKv hsrc he
  | remove => exact h.removeKey _
  | @tensor _ t ht he =>
    unfold addTensor at he
    split at he
    · cases he
    next hc =>
      cases he
      obtain ⟨hname, hlen⟩ := not_or.1 hc
      refine ⟨h.version_eq, h.alignment_eq, h.kv_ok, h.kv_nodup, h.kv_reserved, h.kv_le, ?_, ?_, ?_, ?_⟩
      · intro ti hti
        obtain hti | hti := mem_append.1 hti
        · exact h.info_valid ti hti
        · obtain rfl := mem_singleton.1 hti
          exact ht
      · refine nodup_map_append (f := fun ti : GgufTensorInfo => ti.t.name) h.info_nodup fun ti hti he => ?_
        exact hname (he ▸ mem_map_of_mem hti)
      · rw [length_append, length_singleton]
        exact Nat.not_lt.1 hlen
      · exact linked_append h.linked rfl
  | @tensorType _ name type he =>
    unfold setTensorType at he
    cases hf : ctx.info.find? (·.t.name = name) with
    | none =>
      rw [hf] at he
      cases he
    | some ti =>
      simp only [hf] at he
      split at he
      · cases he
      next hc =>
        cases he
        obtain ⟨hpos, hdvd⟩ := not_or.1 hc
        refine ⟨h.version_eq, h.alignment_eq, h.kv_ok, h.kv_nodup, h.kv_reserved, h.kv_le, ?_, ?_, ?_, ?_⟩
        · intro x hx
          obtain ⟨tj, hj, he⟩ | ⟨tj, hfj, he⟩ := mem_retypeInfos hx
          · rw [he]
            exact h.info_valid tj hj
          · rw [hf] at hfj
            cases hfj
            rw [he]
            exact retype_valid (h.info_valid ti (mem_of_find?_eq_some hf)) hpos (not_not.1 hdvd)
        · rw [map_name_retypeInfos]
          exact h.info_nodup
        · have hl := congrArg List.length (map_name_retypeInfos ctx.alignment type name ctx.info)
          rw [length_map, length_map] at hl
          rw [hl]
          exact h.info_le
        · exact linked_retypeInfos h.linked

lemma Built.ok (h : Built ctx) : BuiltOk ctx := by
  refine h.invariant (fun c hc => ?_) fun c _ c' hc hs => builtOk_step hc hs
  subst hc
  exact ⟨rfl, rfl, by simp [initEmpty], by simp [initEmpty], by simp [initEmpty], by decide,
    by simp [initEmpty], by simp [initEmpty], by decide, trivial⟩

end Mallana.Gguf
