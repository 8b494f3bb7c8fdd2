import Mallana.Gguf.Basic

/-!
# Reading GGUF

Model of `gguf_init_from_file_ptr` on a file that is a list of bytes, read from its start. The bytes
that are left stand for the file position and for `nbytes_remain`. A run ends with a context, with
`nullptr` or in a fault: an assertion that fails or a division by zero. The faults are kept apart, so
that a theorem can say which inputs reach them.

`mem` says which sizes `posix_memalign` can serve. Exhausted memory of the standard containers is left
out: their sizes are bounded by the length of the file. A file position that does not fit `int64_t`
makes `ftell` and `fseek` fail.
-/

namespace Mallana.Gguf

open Lib ByteParser

/-- What aborts the process. -/
inductive Fault where
  /-- `GGML_ASSERT(!key.empty())` -/
  | emptyKey
  /-- `GGML_ASSERT(int64_t(ctx->kv.size()) == n_kv)` -/
  | kvCount
  /-- the assertions of `gguf_get_val_u32` and `get_val` -/
  | alignmentValue
  /-- `INT64_MAX` divided by a dimension that is 0 -/
  | zeroDim
  /-- `GGML_ASSERT(int64_t(ctx->info.size()) == n_tensors)` -/
  | infoCount
  /-- `GGML_ASSERT(ctx->mem_buffer != NULL)` -/
  | memBuffer
  /-- the assertions of `ggml_new_tensor_impl` and `ggml_new_object` -/
  | newTensor
deriving DecidableEq

/-- How a run ends without a context. -/
inductive Stop where
  | null
  | fault (f : Fault)
deriving DecidableEq

abbrev Reader : Type → Type := ByteParser Stop

/-- C++ `GGUF_MAX_STRING_LENGTH`. -/
def maxStringLength : Nat := 1024 * 1024 * 1024

/-- C++ `GGUF_MAX_ARRAY_ELEMENTS`. -/
def maxArrayElements : Nat := 1024 * 1024 * 1024

/-- C++ `gguf_reader::read(std::string &)`. -/
def readString : Reader (List UInt8) := do
  let size ← num .null 8
  require .null (size ≤ maxStringLength)
  bytes .null size

/-- C++ `gguf_reader::read` of an element of fixed width; a `bool` is normalised. -/
def readFixed (t : GgufType) : Reader (List UInt8) := do
  let bs ← bytes .null t.size
  return if t = .bool then bs.map fun b => if b = 0 then 0 else 1 else bs

/-- C++ `gguf_reader::read(std::vector<T> &, n)`; `size` is the size of an element that is checked up
    front, which for a string is that of its length. -/
def readVector {α : Type} (elem : Reader α) (size n : Nat) : Reader (List α) := do
  require .null (n ≤ maxArrayElements)
  require .null (n ≤ sizeMax / size)
  let remain ← remaining
  require .null (n * size ≤ remain)
  times elem n

def readStrings (isArray : Bool) (n : Nat) : Reader (List (List UInt8)) :=
  if isArray then readVector readString 8 n else times readString 1

/-- The elements of fixed width of a value: those of an array, or one. -/
def readElems (t : GgufType) (isArray : Bool) (n : Nat) : Reader (List (List UInt8)) :=
  if isArray then readVector (readFixed t) t.size n else times (readFixed t) 1

/-- The value that `gguf_read_emplace_helper` reads for a key. -/
def readValue (key : List UInt8) (t : GgufType) (isArray : Bool) (n : Nat) : Reader GgufKv :=
  if t = .string then do
    let ss ← readStrings isArray n
    return ⟨key, isArray, t, [], ss⟩
  else do
    let es ← readElems t isArray n
    return ⟨key, isArray, t, es.flatten, []⟩

/-- The `switch` over the type that was read. -/
def readTyped (key : List UInt8) (tag : Nat) (isArray : Bool) (n : Nat) : Reader GgufKv :=
  match GgufType.ofId tag with
  | none => throw .null
  | some t => if t = .array then throw .null else readValue key t isArray n

/-- One turn of the loop over the pairs, up to the constructor of `gguf_kv`. -/
def readPair (kvs : List GgufKv) : Reader GgufKv := do
  let key ← readString
  require .null (kvs.all (·.key ≠ key))
  let tag ← num .null 4
  if tag = GgufType.array.id then do
    let tag' ← num .null 4
    let n ← num .null 8
    readTyped key tag' true n
  else readTyped key tag false 1

/-- `kv.emplace_back`, with the assertion of the constructor. -/
def emplaceBack (kvs : List GgufKv) (kv : GgufKv) : Reader (List GgufKv) :=
  if kv.key = [] then throw (.fault .emptyKey) else return kvs ++ [kv]

def readKv (kvs : List GgufKv) : Reader (List GgufKv) := do
  let kv ← readPair kvs
  emplaceBack kvs kv

/-- What the header says. -/
structure Header where
  version : Nat
  nTensors : Nat
  nKv : Nat
deriving DecidableEq

/-- C++ `GGUF_MAGIC`. -/
def ggufMagic : List UInt8 := [71, 71, 85, 70]

/-- C++ `GGUF_VERSION`. -/
def ggufVersion : Nat := 3

/-- `sizeof(gguf_tensor_info)`. -/
def tensorInfoSize : Nat := 344

/-- `sizeof(gguf_kv)`. -/
def kvSize : Nat := 88

def readHeader : Reader Header := do
  let magic ← bytes .null 4
  require .null (magic = ggufMagic)
  let version ← num .null 4
  require .null (version ≠ 0)
  require .null (version &&& 0xFFFF ≠ 0)
  require .null (version ≠ 1)
  require .null (version ≤ ggufVersion)
  let nTensors ← num .null 8
  require .null (nTensors ≤ int64Max && nTensors ≤ sizeMax / tensorInfoSize)
  let nKv ← num .null 8
  require .null (nKv ≤ int64Max && nKv ≤ sizeMax / kvSize)
  return ⟨version, nTensors, nKv⟩

/-- C++ `GGUF_DEFAULT_ALIGNMENT`. -/
def defaultAlignment : Nat := 32

/-- C++ `gguf_get_val_u32`. -/
def getValU32 (kv : GgufKv) : Reader Nat :=
  if kv.getNe ≠ 1 then throw (.fault .alignmentValue)
  else if kv.type ≠ .uint32 then throw (.fault .alignmentValue)
  else return leNat kv.data

def alignmentValue (kvs : List GgufKv) : Reader Nat :=
  match findKey kvs keyGeneralAlignment with
  | none => pure defaultAlignment
  | some kv => getValU32 kv

def readAlignment (kvs : List GgufKv) : Reader Nat := do
  let a ← alignmentValue kvs
  require .null (alignmentOk a)
  return a

/-- C++ `GGML_MAX_NAME`. -/
def ggmlMaxName : Nat := 64

/-- C++ `GGML_MAX_DIMS`. -/
def ggmlMaxDims : Nat := 4

/-- A name up to its first NUL, as `ggml_set_name` copies it and `strcmp` compares it. -/
def cString (s : List UInt8) : List UInt8 := s.takeWhile (· ≠ 0)

def readName (infos : List GgufTensorInfo) : Reader (List UInt8) := do
  let name ← readString
  require .null (name.length < ggmlMaxName)
  require .null (infos.all (·.t.name ≠ cString name))
  return cString name

def readDim : Reader Nat := do
  let ne ← num .null 8
  require .null (ne ≤ int64Max)
  return ne

def readDims : Reader (List Nat) := do
  let nDims ← num .null 4
  require .null (nDims ≤ ggmlMaxDims)
  times readDim nDims

/-- The check that the number of elements is representable, which divides by the dimensions. -/
def checkElements (ne0 ne1 ne2 ne3 : Nat) : Reader Unit :=
  if ne1 = 0 then throw (.fault .zeroDim)
  else if int64Max / ne1 ≤ ne0 then throw .null
  else if ne2 = 0 then throw (.fault .zeroDim)
  else if int64Max / ne2 ≤ ne0 * ne1 then throw .null
  else if ne3 = 0 then throw (.fault .zeroDim)
  else if int64Max / ne3 ≤ ne0 * ne1 * ne2 then throw .null
  else return ()

def readType (name : List UInt8) (ne0 ne1 ne2 ne3 : Nat) : Reader GgmlTensor := do
  let type ← num .null 4
  require .null (type < typeTraits.length)
  require .null (blckSize type ≠ 0 && ne0 % blckSize type = 0)
  require .null (ne0 * ne1 * ne2 * ne3 / blckSize type ≤ sizeMax / typeSize type)
  return GgmlTensor.setStrides ⟨name, type, ne0, ne1, ne2, ne3, 0, 0, 0, 0⟩

def readInfo (infos : List GgufTensorInfo) : Reader (List GgufTensorInfo) := do
  let name ← readName infos
  let ne ← readDims
  checkElements (ne.getD 0 1) (ne.getD 1 1) (ne.getD 2 1) (ne.getD 3 1)
  let t ← readType name (ne.getD 0 1) (ne.getD 1 1) (ne.getD 2 1) (ne.getD 3 1)
  let offset ← num .null 8
  return infos ++ [⟨t, offset⟩]

/-- The metadata: everything up to the padding before the data. -/
def readMeta : Reader GgufContext := do
  let h ← readHeader
  let kvs ← loop readKv h.nKv []
  require (.fault .kvCount) (kvs.length = h.nKv)
  let alignment ← readAlignment kvs
  let infos ← loop readInfo h.nTensors []
  require (.fault .infoCount) (infos.length = h.nTensors)
  return ⟨h.version, kvs, infos, alignment, 0, 0, none⟩

/-- The loop over the offsets; `size` is `ctx->size` so far. -/
def computeSize (alignment : Nat) : List GgufTensorInfo → Nat → Except Stop Nat
  | [], size => .ok size
  | ti :: infos, size =>
    if ti.offset ≠ size then .error .null
    else if sizeMax - size < ggmlPad ti.t.nbytes alignment then .error .null
    else computeSize alignment infos (size + ggmlPad ti.t.nbytes alignment)

/-- C++ `GGML_MEM_ALIGN`. -/
def ggmlMemAlign : Nat := 16

/-- C++ `GGML_OBJECT_SIZE`. -/
def ggmlObjectSize : Nat := 32

/-- C++ `GGML_TENSOR_SIZE`. -/
def ggmlTensorSize : Nat := 336

/-- C++ `ggml_tensor_overhead`. -/
def tensorOverhead : Nat := ggmlObjectSize + ggmlTensorSize

/-- The size of the memory pool for the tensors; `none` when it overflows. -/
def poolSize (noAlloc : Bool) (nTensors size : Nat) : Option Nat :=
  if noAlloc then
    if nTensors ≠ 0 ∧ sizeMax / nTensors < tensorOverhead then none else some (nTensors * tensorOverhead)
  else if sizeMax / (nTensors + 1) < tensorOverhead then none
  else if sizeMax - (nTensors + 1) * tensorOverhead < size then none
  else some ((nTensors + 1) * tensorOverhead + size)

/-- The number of bytes that `ggml_init` allocates for a pool. -/
def poolBytes (memSize : Nat) : Nat := ggmlPad (if memSize = 0 then ggmlMemAlign else memSize) ggmlMemAlign

/-- C++ `ggml_new_object` behind the assertion on its result; `curEnd` is the end of the objects in the
    pool, and so is the value. -/
def newObject (memSize curEnd size : Nat) : Except Stop Nat :=
  if sizeMax - (ggmlMemAlign - 1) < size then .error (.fault .newTensor)
  else if sizeMax - ggmlPad size ggmlMemAlign < curEnd then .error (.fault .newTensor)
  else if sizeMax - ggmlObjectSize < curEnd + ggmlPad size ggmlMemAlign then .error (.fault .newTensor)
  else if memSize < curEnd + ggmlPad size ggmlMemAlign + ggmlObjectSize then .error (.fault .newTensor)
  else .ok (curEnd + ggmlObjectSize + ggmlPad size ggmlMemAlign)

/-- C++ `ggml_new_tensor_impl`, with `obj_alloc_size`. -/
def newTensor (memSize curEnd objAllocSize : Nat) : Except Stop Nat :=
  if sizeMax - objAllocSize < ggmlTensorSize then .error (.fault .newTensor)
  else newObject memSize curEnd (ggmlTensorSize + objAllocSize)

def newTensors (memSize : Nat) : List GgufTensorInfo → Nat → Except Stop Nat
  | [], curEnd => .ok curEnd
  | _ :: infos, curEnd => newTensor memSize curEnd 0 >>= newTensors memSize infos

/-- The bytes of the blob. `remain` is `nbytes_remain`, which does not count the padding that was
    skipped. -/
def readBlob (size remain : Nat) (rest : List UInt8) : Except Stop (List UInt8) :=
  if remain < size ∨ rest.length < size then .error .null else .ok (rest.take size)

/-- The part for `params.ctx`. -/
def loadTensors (mem : Nat → Bool) (params : GgufInitParams) (ctx : GgufContext) (remain : Nat)
    (rest : List UInt8) : Except Stop GgufContext :=
  if params.ctx = false then .ok ctx
  else match poolSize params.noAlloc ctx.info.length ctx.size with
    | none => .error .null
    | some memSize =>
      if poolBytes memSize = 0 ∨ mem (poolBytes memSize) = false then .error (.fault .memBuffer)
      else if params.noAlloc then do
        let _ ← newTensors (poolBytes memSize) ctx.info 0
        return ctx
      else do
        let curEnd ← newTensor (poolBytes memSize) 0 ctx.size
        let data ← readBlob ctx.size remain rest
        let _ ← newTensors (poolBytes memSize) ctx.info curEnd
        return { ctx with data := some data }

/-- What follows the metadata: the padding, the sizes and the tensors. -/
def readData (mem : Nat → Bool) (params : GgufInitParams) (file : List UInt8) (ctx : GgufContext)
    (rest : List UInt8) : Except Stop GgufContext :=
  let offset := ggmlPad (file.length - rest.length) ctx.alignment
  if int64Max < offset then .error .null
  else do
    let size ← computeSize ctx.alignment ctx.info 0
    loadTensors mem params { ctx with offset := offset, size := size } rest.length (file.drop offset)

/-- C++ `gguf_init_from_file_ptr`. -/
def initFromFilePtr (mem : Nat → Bool) (params : GgufInitParams) (file : List UInt8) : Except Stop GgufContext :=
  if int64Max < file.length then .error .null
  else do
    let (ctx, rest) ← readMeta file
    readData mem params file ctx rest

end Mallana.Gguf
