import Mathlib.Data.Nat.ModEq
import Mallana.Lib.ListUpdate

/-!
# Ring buffers

A ring buffer of positive capacity over a fixed array: `first` is the oldest element, `pos` the next place to write. A full
buffer overwrites its oldest element. The invariants of the four numbers are fields. `toList` is the contents in order of
age, and `pushBack` keeps the last `capacity` elements of what was pushed (`toList_pushBack`).
-/

namespace Mallana.Lib

open List

structure RingBuffer (α : Type) where
  capacity : Nat
  sz : Nat
  first : Nat
  pos : Nat
  data : List α
  capacity_pos : 0 < capacity
  sz_le : sz ≤ capacity
  first_lt : first < capacity
  pos_eq : pos = (first + sz) % capacity
  length_data : data.length = capacity

/-- The last `n` elements of a list. -/
def lastN {α : Type} (n : Nat) (l : List α) : List α := l.drop (l.length - n)

section
variable {α : Type}

@[simp] lemma lastN_nil (n : Nat) : lastN n ([] : List α) = [] := drop_nil

lemma length_lastN (n : Nat) (l : List α) : (lastN n l).length = min n l.length := by
  rw [lastN, length_drop]
  omega

lemma lastN_of_length_le {n : Nat} {l : List α} (h : l.length ≤ n) : lastN n l = l := by
  rw [lastN, Nat.sub_eq_zero_of_le h, drop_zero]

lemma lastN_append (n : Nat) (l : List α) (a : α) : lastN n (lastN n l ++ [a]) = lastN n (l ++ [a]) := by
  rcases lt_or_ge n l.length with hlt | hge
  · have hlen : (lastN n l).length = n := by
      rw [length_lastN]
      exact min_eq_left (le_of_lt hlt)
    have hdrop : (lastN n l).drop 1 = l.drop (l.length + 1 - n) := by
      rw [lastN, drop_drop]
      congr 1
      omega
    show (lastN n l ++ [a]).drop ((lastN n l ++ [a]).length - n) = (l ++ [a]).drop ((l ++ [a]).length - n)
    rw [length_append, length_append, hlen, length_singleton, Nat.add_sub_cancel_left]
    rcases Nat.eq_zero_or_pos n with rfl | hpos
    · rw [Nat.sub_zero, drop_of_length_le (by rw [length_append, hlen, length_singleton]),
        drop_of_length_le (by rw [length_append, length_singleton])]
    · rw [drop_append_of_le_length (by omega), drop_append_of_le_length (by omega), hdrop]
  · rw [lastN_of_length_le hge]

end

namespace RingBuffer

variable {α : Type} [Inhabited α]

def new (capacity : Nat) (h : 0 < capacity) : RingBuffer α where
  capacity := capacity
  sz := 0
  first := 0
  pos := 0
  data := List.replicate capacity default
  capacity_pos := h
  sz_le := Nat.zero_le _
  first_lt := h
  pos_eq := by rw [add_zero, Nat.zero_mod]
  length_data := length_replicate

def at' (r : RingBuffer α) (i : Nat) : α := r.data.getD i default

def front (r : RingBuffer α) : α := r.at' r.first

/-- The element with `i` newer ones. -/
def rat (r : RingBuffer α) (i : Nat) : α := r.at' ((r.first + r.sz - i - 1) % r.capacity)

def toList (r : RingBuffer α) : List α := (List.range r.sz).map fun i => r.at' ((r.first + i) % r.capacity)

omit [Inhabited α] in
lemma pos_of_full {r : RingBuffer α} (h : r.sz = r.capacity) : r.pos = r.first := by
  rw [r.pos_eq, h, Nat.add_mod_right, Nat.mod_eq_of_lt r.first_lt]

def pushBack (r : RingBuffer α) (a : α) : RingBuffer α where
  capacity := r.capacity
  sz := if r.sz = r.capacity then r.sz else r.sz + 1
  first := if r.sz = r.capacity then (r.first + 1) % r.capacity else r.first
  pos := (r.pos + 1) % r.capacity
  data := r.data.set r.pos a
  capacity_pos := r.capacity_pos
  sz_le := by
    have hle := r.sz_le
    split <;> omega
  first_lt := by
    split
    · exact Nat.mod_lt _ r.capacity_pos
    · exact r.first_lt
  pos_eq := by
    split
    next h => rw [pos_of_full h, h, Nat.add_mod_right, Nat.mod_mod]
    next => rw [r.pos_eq, Nat.mod_add_mod, add_assoc]
  length_data := length_set.trans r.length_data

def clear (r : RingBuffer α) : RingBuffer α where
  capacity := r.capacity
  sz := 0
  first := 0
  pos := 0
  data := r.data
  capacity_pos := r.capacity_pos
  sz_le := Nat.zero_le _
  first_lt := r.capacity_pos
  pos_eq := by rw [add_zero, Nat.zero_mod]
  length_data := r.length_data

variable {r : RingBuffer α} {a : α} {i j : Nat}

omit [Inhabited α] in
@[simp] lemma capacity_pushBack : (r.pushBack a).capacity = r.capacity := rfl

@[simp] lemma length_toList : r.toList.length = r.sz := by
  rw [toList, length_map, length_range]

lemma getElem_toList (h : i < r.toList.length) : r.toList[i] = r.at' ((r.first + i) % r.capacity) := by
  simp only [toList, getElem_map, getElem_range]

lemma front_eq (h : 0 < r.sz) : r.toList.head? = some r.front := by
  rw [head?_eq_getElem?, getElem?_eq_getElem (by rwa [length_toList]), getElem_toList, add_zero,
    Nat.mod_eq_of_lt r.first_lt]
  rfl

omit [Inhabited α] in
lemma place_ne (r : RingBuffer α) (hij : i < j) (hj : j < i + r.capacity) :
    (r.first + i) % r.capacity ≠ (r.first + j) % r.capacity := by
  intro h
  have hdvd : r.capacity ∣ (r.first + j) - (r.first + i) := (Nat.modEq_iff_dvd' (by omega)).1 h
  have hle := Nat.le_of_dvd (by omega) hdvd
  omega

lemma at_pushBack (h : i < r.capacity) : (r.pushBack a).at' i = if i = r.pos then a else r.at' i := by
  have hlen := r.length_data
  unfold at' pushBack
  simp only []
  rw [getD_eq_getElem _ _ (by rw [length_set, hlen]; exact h), getElem_set]
  by_cases hi : i = r.pos
  · rw [if_pos hi.symm, if_pos hi]
  · rw [if_neg (Ne.symm hi), if_neg hi, getD_eq_getElem _ _ (by rw [hlen]; exact h)]

lemma toList_pushBack (r : RingBuffer α) (a : α) : (r.pushBack a).toList = lastN r.capacity (r.toList ++ [a]) := by
  have hplace := fun i => Nat.mod_lt (r.first + i) r.capacity_pos
  by_cases hfull : r.sz = r.capacity
  · -- the oldest element makes room
    have hlast : lastN r.capacity (r.toList ++ [a]) = r.toList.drop 1 ++ [a] := by
      rw [lastN, length_append, length_toList, hfull, length_singleton, Nat.add_sub_cancel_left,
        drop_append_of_le_length (by rw [length_toList, hfull]; exact r.capacity_pos)]
    rw [hlast]
    refine ext_getElem ?_ fun i hi hi' => ?_
    · rw [length_toList, length_append, length_drop, length_toList, length_singleton]
      have hpos := r.capacity_pos
      show (if r.sz = r.capacity then r.sz else r.sz + 1) = _
      rw [if_pos hfull]
      omega
    · have hsz : i < r.capacity := by
        rw [length_toList] at hi
        exact lt_of_lt_of_le hi (r.pushBack a).sz_le
      have hindex : ((r.pushBack a).first + i) % r.capacity = (r.first + (i + 1)) % r.capacity := by
        show ((if r.sz = r.capacity then (r.first + 1) % r.capacity else r.first) + i) % r.capacity = _
        rw [if_pos hfull, Nat.mod_add_mod, add_assoc, add_comm 1 i]
      rw [getElem_toList, capacity_pushBack, hindex, at_pushBack (hplace _), pos_of_full hfull]
      by_cases hi1 : i + 1 = r.capacity
      · have hat : (r.first + (i + 1)) % r.capacity = r.first := by
          rw [hi1, Nat.add_mod_right, Nat.mod_eq_of_lt r.first_lt]
        rw [if_pos hat, getElem_append_right (by rw [length_drop, length_toList]; omega)]
        exact (getElem_singleton _).symm
      · have hne := r.place_ne (i := 0) (j := i + 1) (Nat.succ_pos i) (by omega)
        rw [add_zero, Nat.mod_eq_of_lt r.first_lt] at hne
        rw [if_neg hne.symm, getElem_append_left (by rw [length_drop, length_toList]; omega), getElem_drop,
          getElem_toList, add_comm 1 i]
  · have hlt : r.sz < r.capacity := lt_of_le_of_ne r.sz_le hfull
    rw [lastN_of_length_le (by rw [length_append, length_toList, length_singleton]; exact hlt)]
    have hsz : (r.pushBack a).sz = r.sz + 1 := if_neg hfull
    have hfirst : (r.pushBack a).first = r.first := if_neg hfull
    refine ext_getElem ?_ fun i hi hi' => ?_
    · rw [length_toList, hsz, length_append, length_toList, length_singleton]
    · rw [length_toList, hsz] at hi
      rw [getElem_toList, capacity_pushBack, hfirst, at_pushBack (hplace _), r.pos_eq]
      rcases lt_or_ge i r.sz with hold | hnew
      · rw [if_neg (r.place_ne hold (by omega)), getElem_append_left (by rwa [length_toList]), getElem_toList]
      · obtain rfl : i = r.sz := by omega
        rw [if_pos rfl, getElem_append_right (by rw [length_toList])]
        exact (getElem_singleton _).symm

end RingBuffer

end Mallana.Lib
