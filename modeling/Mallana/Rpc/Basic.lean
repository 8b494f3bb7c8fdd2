import Mathlib.Data.Fintype.Pi
import Mallana.Gguf.Basic
import Mallana.Lib.Codec

/-!
# Tensors on the wire and on the server

`rpc_tensor` is the packed record that the client sends for a tensor. `deserialize_tensor` makes a tensor of the server from
it and asserts that its bytes lie in the buffer it names. The handlers of `SET_TENSOR`, `SET_TENSOR_HASH`, `GET_TENSOR` and
`COPY_TENSOR` check the range of the request once more. What a handler does to memory is the list of its accesses.

Pointers, sizes and strides are 64-bit words with the wrap-around of the source. A handler that returns `false` or whose
assertion fails is an error.
-/

namespace Mallana.Rpc

open Mallana.Lib
open Mallana.Gguf (typeTraits blckSize typeSize)

/-- A row of the wire format: the fields of `rpc_tensor`. -/
structure RpcTensor where
  id : UInt64
  type : UInt32
  buffer : UInt64
  ne : Fin 4 → UInt32
  nb : Fin 4 → UInt32
  op : UInt32
  opParams : Fin 16 → Int32
  flags : Int32
  src : Fin 10 → UInt64
  viewSrc : UInt64
  viewOffs : UInt64
  data : UInt64
  name : Fin 64 → UInt8
deriving DecidableEq

open Codec in
def RpcTensor.codec : Codec RpcTensor :=
  (word64.pair <| word32.pair <| word64.pair <| (word32.array 4).pair <| (word32.array 4).pair <| word32.pair <|
    (int32.array 16).pair <| int32.pair <| (word64.array 10).pair <| word64.pair <| word64.pair <| word64.pair <|
    (byte.array 64).pair <| padding 4).iso
    (fun (id, type, buffer, ne, nb, op, opParams, flags, src, viewSrc, viewOffs, data, name, _) =>
      { id, type, buffer, ne, nb, op, opParams, flags, src, viewSrc, viewOffs, data, name })
    (fun t => (t.id, t.type, t.buffer, t.ne, t.nb, t.op, t.opParams, t.flags, t.src, t.viewSrc, t.viewOffs, t.data,
      t.name, ()))
    (fun _ => rfl)

example : RpcTensor.codec.size = 296 := rfl

/-- `ggml_tensor`. Dimensions are never negative. Tensors and buffers are named by their addresses, on the server by the ids
and handles of the wire. -/
structure GgmlTensor where
  type : UInt32
  buffer : UInt64
  ne : Fin 4 → UInt64
  nb : Fin 4 → UInt64
  op : UInt32
  opParams : Fin 16 → Int32
  flags : Int32
  src : Fin 10 → UInt64
  viewSrc : UInt64
  viewOffs : UInt64
  data : UInt64
  name : Fin 64 → UInt8
  extra : UInt64
deriving DecidableEq

/-- `ggml_nbytes`. -/
def GgmlTensor.nbytes (t : GgmlTensor) : UInt64 :=
  if ∃ i, t.ne i = 0 then 0
  else if blckSize t.type.toNat = 1 then
    UInt64.ofNat (typeSize t.type.toNat) + (t.ne 0 - 1) * t.nb 0 + (t.ne 1 - 1) * t.nb 1 + (t.ne 2 - 1) * t.nb 2 +
      (t.ne 3 - 1) * t.nb 3
  else
    t.ne 0 * t.nb 0 / UInt64.ofNat (blckSize t.type.toNat) + (t.ne 1 - 1) * t.nb 1 + (t.ne 2 - 1) * t.nb 2 +
      (t.ne 3 - 1) * t.nb 3

namespace GgmlTensor

/-- The strides of the dimensions after the first, at an index. -/
def outer (r : GgmlTensor) (i : Fin 4 → Nat) : Nat := i 1 * (r.nb 1).toNat + i 2 * (r.nb 2).toNat + i 3 * (r.nb 3).toNat

def lastIndex (r : GgmlTensor) (d : Fin 4) : Nat := (r.ne d).toNat - 1

/-- `ggml_nbytes` of a tensor with elements, without wrapping. -/
def exactBytes (r : GgmlTensor) : Nat :=
  (if blckSize r.type.toNat = 1 then typeSize r.type.toNat + r.lastIndex 0 * (r.nb 0).toNat
    else (r.ne 0).toNat * (r.nb 0).toNat / blckSize r.type.toNat) + r.outer r.lastIndex

/-- Where the element at an index begins, from the beginning of the tensor; the elements of a block are at one place. -/
def elementOffset (r : GgmlTensor) (i : Fin 4 → Nat) : Nat := i 0 / blckSize r.type.toNat * (r.nb 0).toNat + r.outer i

def lastEnd (r : GgmlTensor) : Nat := r.elementOffset r.lastIndex + typeSize r.type.toNat

/-- The address of an element, as the sum of its indices times the strides. -/
def address (r : GgmlTensor) (i : Fin 4 → Nat) : Nat :=
  r.data.toNat + (i 0 * (r.nb 0).toNat + i 1 * (r.nb 1).toNat + i 2 * (r.nb 2).toNat + i 3 * (r.nb 3).toNat)

end GgmlTensor

/-- A name up to its end, as `snprintf` and `ggml_set_name` copy it. -/
def cstr (name : Fin 64 → UInt8) : Fin 64 → UInt8 :=
  fun i => if i.val < 63 ∧ ∀ j ≤ i, name j ≠ 0 then name i else 0

/-- `ggml_backend_buffer_get_base` asserts that a buffer with bytes is not at the null pointer. -/
structure Buffer where
  base : UInt64
  size : UInt64
  base_ne : size ≠ 0 → base ≠ 0
deriving DecidableEq

/-- What the handlers read of an `rpc_server`. -/
structure RpcServer where
  backends : Nat
  /-- The registered buffers by their handles. -/
  buffers : UInt64 → Option Buffer
  /-- The cached files by their hashes. -/
  cachedFile : UInt64 → Option (List UInt8)

/-- A handler returns a null pointer or `false`, or the process ends at an assertion. -/
inductive Stop where
  | null
  | abort
deriving DecidableEq

namespace RpcServer

def find (srv : RpcServer) (handle : UInt64) : Option Buffer := if handle = 0 then none else srv.buffers handle

def dataInside (b : Buffer) (t : GgmlTensor) : Bool :=
  t.data ≤ t.data + t.nbytes ∧ b.base ≤ t.data ∧ t.data + t.nbytes ≤ b.base + b.size

/-- The tensor that `deserialize_tensor` fills in: its sources and its view are still missing. -/
def newTensor (srv : RpcServer) (t : RpcTensor) : GgmlTensor where
  type := t.type
  buffer := if (srv.find t.buffer).isSome then t.buffer else 0
  ne := fun i => (t.ne i).toUInt64
  nb := fun i => (t.nb i).toUInt64
  op := t.op
  opParams := t.opParams
  flags := t.flags
  src := fun _ => 0
  viewSrc := 0
  viewOffs := 0
  data := t.data
  name := cstr t.name
  extra := 0

def deserializeTensor (srv : RpcServer) (t : RpcTensor) : Except Stop GgmlTensor :=
  if typeTraits.length ≤ t.type.toNat then .error .null
  else if blckSize t.type.toNat = 0 then .error .null
  else if (srv.find t.buffer).all fun b => dataInside b (srv.newTensor t) then .ok (srv.newTensor t)
  else .error .abort

/-- A range of bytes in the buffer that the request names. -/
structure Access where
  buffer : UInt64
  addr : UInt64
  size : UInt64
deriving DecidableEq

/-- The check of a range that the handlers make: `p0` and `p1` are the ends of the buffer. -/
def rangeInside (b : Buffer) (data offset size : UInt64) : Bool :=
  let p0 := b.base
  let p1 := p0 + b.size
  !(data + offset < p0 || data + offset ≥ p1 || size > p1 - data - offset)

/-- `ggml_backend_tensor_set` and `ggml_backend_tensor_get`: the range of a tensor that is read or written. -/
def tensorRange (handle : UInt64) (t : GgmlTensor) (offset size : UInt64) : Except Stop (List Access) :=
  if size = 0 then .ok []
  else if t.data = 0 then .error .abort
  else if offset + size ≤ t.nbytes then .ok [⟨handle, t.data + offset, size⟩]
  else .error .abort

def access (srv : RpcServer) (t : RpcTensor) (offset size : UInt64) : Except Stop (List Access) := do
  let result ← srv.deserializeTensor t
  match srv.find result.buffer with
  | none => throw .null
  | some b => if rangeInside b t.data offset size then tensorRange t.buffer result offset size else throw .null

/-- `| rpc_tensor | offset (8 bytes) | data (size bytes) |`. The file that a large tensor is also saved to is left out. -/
def setTensor (srv : RpcServer) (input : List UInt8) : Except Stop (List Access) :=
  if input.length < RpcTensor.codec.size + 8 then .error .null
  else
    let (tensor, offset) := (RpcTensor.codec.pair Codec.word64).dec input
    srv.access tensor offset (UInt64.ofNat (input.length - RpcTensor.codec.size - 8))

/-- A request of a fixed size: a message of another size ends the connection. -/
def request {α : Type} (c : Codec α) (input : List UInt8) : Except Stop α :=
  if input.length = c.size then .ok (c.dec input) else .error .null

/-- `tensor`, `offset` and `hash`. -/
def setTensorHash (srv : RpcServer) (input : List UInt8) : Except Stop (List Access) := do
  let (tensor, offset, hash) ← request (RpcTensor.codec.pair <| Codec.word64.pair Codec.word64) input
  match srv.cachedFile hash with
  | none => return []
  | some data => srv.access tensor offset (UInt64.ofNat data.length)

/-- `tensor`, `offset` and `size`. -/
def getTensor (srv : RpcServer) (input : List UInt8) : Except Stop (List Access) := do
  let (tensor, offset, size) ← request (RpcTensor.codec.pair <| Codec.word64.pair Codec.word64) input
  srv.access tensor offset size

/-- The result of `deserialize_tensor`, null included. -/
def deserializeTensor? (srv : RpcServer) (t : RpcTensor) : Except Stop (Option GgmlTensor) :=
  match srv.deserializeTensor t with
  | .ok result => .ok (some result)
  | .error .null => .ok none
  | .error .abort => .error .abort

/-- The bounds of a copy, and the bytes that a buffer copies: `ggml_nbytes(src)` of them. -/
def copyRange (srv : RpcServer) (reqSrc reqDst : RpcTensor) (src dst : GgmlTensor) : Except Stop (List Access) :=
  match srv.find src.buffer, srv.find dst.buffer with
  | some _, some dstBuffer =>
    if dst.data + src.nbytes > dstBuffer.base + dstBuffer.size then .error .null
    else .ok [⟨reqSrc.buffer, src.data, src.nbytes⟩, ⟨reqDst.buffer, dst.data, src.nbytes⟩]
  | _, _ => .error .null

/-- `src` and `dst`. -/
def copyTensor (srv : RpcServer) (input : List UInt8) : Except Stop (List Access) := do
  let (reqSrc, reqDst) ← request (RpcTensor.codec.pair RpcTensor.codec) input
  let src? ← srv.deserializeTensor? reqSrc
  let dst? ← srv.deserializeTensor? reqDst
  match src?, dst? with
  | some src, some dst => srv.copyRange reqSrc reqDst src dst
  | _, _ => throw .null

end RpcServer

/-- The commands that read or write tensors. -/
inductive TensorCmd where
  | setTensor
  | setTensorHash
  | getTensor
  | copyTensor
deriving DecidableEq

def RpcServer.handle (srv : RpcServer) : TensorCmd → List UInt8 → Except Stop (List RpcServer.Access)
  | .setTensor => srv.setTensor
  | .setTensorHash => srv.setTensorHash
  | .getTensor => srv.getTensor
  | .copyTensor => srv.copyTensor

end Mallana.Rpc
