import Mathlib.Algebra.Order.Ring.Int
import Mathlib.Data.List.GetD

/-!
# Bytes: little-endian numbers and flat memory

Numbers of a fixed width as little-endian bytes, and a byte-addressed memory with block reads and writes.
On top of single blocks there are rows: `readRows` gathers rows of one size by their numbers, `writeRows`
scatters a buffer over rows. A contiguous block write is a scatter over consecutive rows
(`write_eq_writeRows`), and scattering what was gathered copies row by row (`read_writeRows_readRows`).
-/

namespace Mallana.Lib

open List

/-- The lowest `n` bytes of a number, the lowest first. -/
def leBytes : Nat → Nat → List UInt8
  | 0, _ => []
  | n + 1, x => UInt8.ofNat x :: leBytes n (x / 256)

def leNat : List UInt8 → Nat
  | [] => 0
  | b :: bs => b.toNat + 256 * leNat bs

@[simp] lemma length_leBytes (n x : Nat) : (leBytes n x).length = n := by
  induction n generalizing x with
  | zero => rfl
  | succ n ih => simp [leBytes, ih]

lemma leNat_leBytes {n x : Nat} (h : x < 256 ^ n) : leNat (leBytes n x) = x := by
  induction n generalizing x with
  | zero =>
    obtain rfl : x = 0 := by simpa using h
    rfl
  | succ n ih =>
    have hdiv : x / 256 < 256 ^ n := by
      rw [Nat.div_lt_iff_lt_mul (by decide)]
      rwa [pow_succ] at h
    simp only [leBytes, leNat, ih hdiv, UInt8.toNat_ofNat']
    omega

def i32Bytes (x : Int) : List UInt8 := leBytes 4 (x % 4294967296).toNat

def i32Of (bs : List UInt8) : Int := Int.bmod (leNat bs) 4294967296

def IsI32 (x : Int) : Prop := -2147483648 ≤ x ∧ x < 2147483648

instance (x : Int) : Decidable (IsI32 x) := inferInstanceAs (Decidable (_ ∧ _))

@[simp] lemma length_i32Bytes (x : Int) : (i32Bytes x).length = 4 := length_leBytes _ _

lemma i32Of_i32Bytes {x : Int} (h : IsI32 x) : i32Of (i32Bytes x) = x := by
  obtain ⟨hlo, hhi⟩ := h
  have hnn := Int.emod_nonneg x (b := 4294967296) (by decide)
  have hlt := Int.emod_lt_of_pos x (b := 4294967296) (by decide)
  unfold i32Of i32Bytes
  rw [leNat_leBytes (by omega), Int.toNat_of_nonneg hnn]
  have hcast : ((4294967296 : Nat) : Int) = 4294967296 := rfl
  unfold Int.bmod
  simp only [hcast, Int.emod_emod]
  split <;> omega

abbrev Mem : Type := Nat → UInt8

namespace Mem
variable {m src : Mem} {off a n base row : Nat} {bs : List UInt8} {is js : List Nat}

/-- Read `n` bytes from `off` on. -/
def read (m : Mem) (off n : Nat) : List UInt8 := (List.range' off n).map m

/-- Write the bytes `bs` from `off` on. -/
def write (m : Mem) (off : Nat) (bs : List UInt8) : Mem := fun a =>
  if off ≤ a ∧ a < off + bs.length then bs.getD (a - off) 0 else m a

/-- Gather the rows numbered `is`, each of `row` bytes, counted from `base`. -/
def readRows (m : Mem) (base row : Nat) (is : List Nat) : List UInt8 :=
  is.flatMap fun i => m.read (base + i * row) row

/-- Scatter the bytes `bs` over the rows numbered `is`, in order. -/
def writeRows (m : Mem) (base row : Nat) : List Nat → List UInt8 → Mem
  | [], _ => m
  | i :: is, bs => writeRows (m.write (base + i * row) (bs.take row)) base row is (bs.drop row)

@[simp] lemma length_read (m : Mem) (off n : Nat) : (m.read off n).length = n := by
  simp [read]

@[simp] lemma length_readRows (m : Mem) (base row : Nat) (is : List Nat) :
    (m.readRows base row is).length = is.length * row := by
  induction is with
  | nil => simp [readRows]
  | cons i is ih =>
    rw [readRows, flatMap_cons, length_append, length_read, length_cons, Nat.succ_mul, add_comm, ← ih]
    rfl

lemma read_congr {m' : Mem} (h : ∀ a, off ≤ a → a < off + n → m' a = m a) : m'.read off n = m.read off n := by
  refine map_congr_left fun a ha => ?_
  rw [mem_range'_1] at ha
  exact h a ha.1 ha.2

lemma read_add_eq_map (m : Mem) (base off n : Nat) :
    m.read (base + off) n = (List.range' off n).map fun p => m (base + p) := by
  unfold read
  rw [← map_add_range', map_map]
  rfl

lemma read_append (m : Mem) (off n k : Nat) : m.read off (n + k) = m.read off n ++ m.read (off + n) k := by
  rw [read, ← range'_append_1, map_append]
  rfl

lemma readRows_range' (m : Mem) (base row h n : Nat) :
    m.readRows base row (List.range' h n) = m.read (base + h * row) (n * row) := by
  induction n generalizing h with
  | zero => simp [readRows, read]
  | succ n ih =>
    have hadd : base + (h + 1) * row = base + h * row + row := by
      rw [Nat.succ_mul, add_assoc]
    rw [range'_succ, Nat.succ_mul, add_comm (n * row), read_append, ← hadd, ← ih]
    rfl

lemma write_of_notMem (h : a < off ∨ off + bs.length ≤ a) : m.write off bs a = m a := by
  unfold write
  rw [if_neg (by omega)]

lemma read_write_self (m : Mem) (off : Nat) (bs : List UInt8) : (m.write off bs).read off bs.length = bs := by
  apply ext_getElem (by simp)
  intro k h1 h2
  simp [read, write, h2]

lemma write_append (m : Mem) (off : Nat) (b1 b2 : List UInt8) :
    m.write off (b1 ++ b2) = (m.write off b1).write (off + b1.length) b2 := by
  funext a
  simp only [write, length_append]
  by_cases h1 : a < off + b1.length
  · by_cases h0 : off ≤ a
    · rw [if_pos (by omega), if_neg (by omega), if_pos ⟨h0, h1⟩]
      exact getD_append _ _ _ _ (by omega)
    · rw [if_neg (by omega), if_neg (by omega), if_neg (by omega)]
  · by_cases h2 : a < off + b1.length + b2.length
    · rw [if_pos (by omega), if_pos (by omega), getD_append_right _ _ _ _ (by omega)]
      congr 1
      omega
    · rw [if_neg (by omega), if_neg (by omega), if_neg (by omega)]

lemma write_eq_writeRows (m : Mem) (base row h : Nat) (hbs : bs.length = n * row) :
    m.write (base + h * row) bs = m.writeRows base row (List.range' h n) bs := by
  induction n generalizing m h bs with
  | zero =>
    obtain rfl : bs = [] := by simpa using hbs
    funext a
    exact write_of_notMem (by simp only [length_nil]; omega)
  | succ n ih =>
    have hrow : row ≤ bs.length := by
      rw [hbs, Nat.succ_mul]
      omega
    have hadd : base + (h + 1) * row = base + h * row + row := by
      rw [Nat.succ_mul, add_assoc]
    rw [range'_succ, writeRows, ← ih _ (h + 1) (by rw [length_drop, hbs, Nat.succ_mul]; omega), hadd]
    conv_lhs => rw [← take_append_drop row bs, write_append]
    rw [length_take, min_eq_left hrow]

lemma writeRows_of_notMem (h : ∀ i ∈ is, a < base + i * row ∨ base + i * row + row ≤ a) :
    m.writeRows base row is bs a = m a := by
  induction is generalizing m bs with
  | nil => rfl
  | cons i is ih =>
    simp only [mem_cons, forall_eq_or_imp] at h
    rw [writeRows, ih h.2]
    have hlen : (bs.take row).length ≤ row := length_take_le _ _
    exact write_of_notMem (by omega)

lemma row_disjoint {i j : Nat} (h : i ≠ j) (hlo : base + j * row ≤ a) (hhi : a < base + j * row + row) :
    a < base + i * row ∨ base + i * row + row ≤ a := by
  obtain hlt | hgt := Nat.lt_or_gt_of_ne h
  · have := Nat.mul_le_mul_right row hlt
    rw [Nat.succ_mul] at this
    omega
  · have := Nat.mul_le_mul_right row hgt
    rw [Nat.succ_mul] at this
    omega

lemma read_writeRows_of_notMem {j : Nat} (h : j ∉ is) :
    (m.writeRows base row is bs).read (base + j * row) row = m.read (base + j * row) row := by
  refine read_congr fun a hlo hhi => writeRows_of_notMem fun i hi => ?_
  have hne : i ≠ j := by
    rintro rfl
    exact h hi
  exact row_disjoint hne hlo hhi

lemma read_writeRows_readRows {base' : Nat} (hnd : js.Nodup) {i j : Nat} (hij : (i, j) ∈ is.zip js) :
    (m.writeRows base row js (src.readRows base' row is)).read (base + j * row) row =
      src.read (base' + i * row) row := by
  induction is generalizing m js with
  | nil => simp at hij
  | cons i' is ih =>
    cases js with
    | nil => simp at hij
    | cons j' js =>
      rw [nodup_cons] at hnd
      have hlen : (src.read (base' + i' * row) row).length = row := length_read _ _ _
      have htake : (src.readRows base' row (i' :: is)).take row = src.read (base' + i' * row) row :=
        take_left' hlen
      have hdrop : (src.readRows base' row (i' :: is)).drop row = src.readRows base' row is :=
        drop_left' hlen
      rw [writeRows, htake, hdrop]
      obtain heq | hij := mem_cons.1 hij
      · obtain ⟨rfl, rfl⟩ := Prod.mk.inj heq
        rw [read_writeRows_of_notMem hnd.1]
        have hself := read_write_self m (base + j * row) (src.read (base' + i * row) row)
        rwa [hlen] at hself
      · exact ih hnd.2 hij

/-- Copy the first `n` bytes of block `c.1` to block `c.2`; block `t` begins at `t * size`. -/
def copyBlock (size n : Nat) (m : Mem) (c : Nat × Nat) : Mem :=
  m.write (c.2 * size) (m.read (c.1 * size) n)

/-- The block whose contents block `t` has after a list of copies. -/
def blockOrigin : List (Nat × Nat) → Nat → Nat
  | [], t => t
  | c :: q, t => if blockOrigin q t = c.2 then c.1 else blockOrigin q t

lemma copyBlock_apply {size : Nat} (hn : n ≤ size) {c : Nat × Nat} {t p : Nat} (hp : p < n) :
    m.copyBlock size n c (t * size + p) = m ((if t = c.2 then c.1 else t) * size + p) := by
  unfold copyBlock
  by_cases ht : t = c.2
  · subst ht
    unfold write
    rw [length_read, if_pos (by omega), if_pos rfl, Nat.add_sub_cancel_left]
    simp [read, hp]
  · rw [if_neg ht]
    refine write_of_notMem ?_
    rw [length_read]
    obtain hlt | hlt := Nat.lt_or_gt_of_ne ht
    · have hmul := Nat.mul_le_mul_right size (Nat.succ_le_of_lt hlt)
      rw [Nat.succ_mul] at hmul
      omega
    · have hmul := Nat.mul_le_mul_right size (Nat.succ_le_of_lt hlt)
      rw [Nat.succ_mul] at hmul
      omega

lemma foldl_copyBlock {size : Nat} (hn : n ≤ size) (q : List (Nat × Nat)) {t p : Nat} (hp : p < n) :
    q.foldl (copyBlock size n) m (t * size + p) = m (blockOrigin q t * size + p) := by
  induction q generalizing m with
  | nil => rfl
  | cons c q ih => rw [foldl_cons, ih, copyBlock_apply hn hp, blockOrigin]

end Mem

end Mallana.Lib
