import Mallana.Lib.Bytes

/-!
# Packed records

A codec writes a value as a fixed number of bytes and reads it back from the front of any byte string, as a packed record of
a program is read through a pointer: every byte string of that length is a value. Records are built from words by `pair`,
`array` and `iso`, and `decList` reads a number of records that follow each other.
-/

namespace Mallana.Lib

open List

structure Codec (α : Type) where
  size : Nat
  enc : α → List UInt8
  dec : List UInt8 → α
  length_enc : ∀ a, (enc a).length = size
  dec_enc : ∀ a rest, dec (enc a ++ rest) = a

namespace Codec
variable {α β : Type}

lemma drop_enc (c : Codec α) (a : α) (rest : List UInt8) : (c.enc a ++ rest).drop c.size = rest :=
  drop_left' (c.length_enc a)

def byte : Codec UInt8 where
  size := 1
  enc := fun b => [b]
  dec := fun bs => bs.headD 0
  length_enc := fun _ => rfl
  dec_enc := fun _ _ => rfl

def word32 : Codec UInt32 where
  size := 4
  enc := fun x => leBytes 4 x.toNat
  dec := fun bs => UInt32.ofNat (leNat (bs.take 4))
  length_enc := fun _ => length_leBytes _ _
  dec_enc := fun x rest => by
    rw [take_left' (length_leBytes _ _), leNat_leBytes x.toNat_lt]
    exact UInt32.ofNat_toNat

def word64 : Codec UInt64 where
  size := 8
  enc := fun x => leBytes 8 x.toNat
  dec := fun bs => UInt64.ofNat (leNat (bs.take 8))
  length_enc := fun _ => length_leBytes _ _
  dec_enc := fun x rest => by
    rw [take_left' (length_leBytes _ _), leNat_leBytes x.toNat_lt]
    exact UInt64.ofNat_toNat

def iso (c : Codec α) (pack : α → β) (unpack : β → α) (h : ∀ b, pack (unpack b) = b) : Codec β where
  size := c.size
  enc := fun b => c.enc (unpack b)
  dec := fun bs => pack (c.dec bs)
  length_enc := fun b => c.length_enc (unpack b)
  dec_enc := fun b rest => by rw [c.dec_enc, h]

def int32 : Codec Int32 := word32.iso UInt32.toInt32 Int32.toUInt32 Int32.toInt32_toUInt32

def padding (n : Nat) : Codec Unit where
  size := n
  enc := fun _ => List.replicate n 0
  dec := fun _ => ()
  length_enc := fun _ => length_replicate
  dec_enc := fun _ _ => rfl

def pair (c : Codec α) (d : Codec β) : Codec (α × β) where
  size := c.size + d.size
  enc := fun p => c.enc p.1 ++ d.enc p.2
  dec := fun bs => (c.dec bs, d.dec (bs.drop c.size))
  length_enc := fun p => by rw [length_append, c.length_enc, d.length_enc]
  dec_enc := fun p rest => by rw [append_assoc, c.dec_enc, c.drop_enc, d.dec_enc]

lemma length_flatMap_enc (c : Codec α) (l : List α) : (l.flatMap c.enc).length = l.length * c.size := by
  induction l with
  | nil => exact (zero_mul _).symm
  | cons a l ih => rw [flatMap_cons, length_append, c.length_enc, ih, length_cons, Nat.succ_mul, add_comm]

lemma dec_drop_flatMap (c : Codec α) {l : List α} {i : Nat} (h : i < l.length) (rest : List UInt8) :
    c.dec ((l.flatMap c.enc ++ rest).drop (i * c.size)) = l[i] := by
  have hsplit : l.flatMap c.enc = (l.take i).flatMap c.enc ++ (c.enc l[i] ++ (l.drop (i + 1)).flatMap c.enc) := by
    conv_lhs => rw [← take_append_drop i l, drop_eq_getElem_cons h, flatMap_append, flatMap_cons]
  have hlen : ((l.take i).flatMap c.enc).length = i * c.size := by
    rw [length_flatMap_enc, length_take, min_eq_left (le_of_lt h)]
  rw [hsplit, append_assoc, drop_left' hlen, append_assoc, c.dec_enc]

def array (c : Codec α) (n : Nat) : Codec (Fin n → α) where
  size := n * c.size
  enc := fun f => (List.ofFn f).flatMap c.enc
  dec := fun bs i => c.dec (bs.drop (i * c.size))
  length_enc := fun f => by rw [length_flatMap_enc, length_ofFn]
  dec_enc := fun f rest => by
    funext i
    have hi : i.val < (List.ofFn f).length := by
      rw [length_ofFn]
      exact i.isLt
    rw [c.dec_drop_flatMap hi, List.getElem_ofFn]

/-- `n` records that follow each other. -/
def decList (c : Codec α) (n : Nat) (bs : List UInt8) : List α := (List.range n).map fun i => c.dec (bs.drop (i * c.size))

lemma decList_flatMap (c : Codec α) (l : List α) (rest : List UInt8) :
    c.decList l.length (l.flatMap c.enc ++ rest) = l := by
  refine ext_getElem (by rw [decList, length_map, length_range]) fun i hi hi' => ?_
  simp only [decList, getElem_map, getElem_range]
  exact c.dec_drop_flatMap hi' rest

end Codec

end Mallana.Lib
