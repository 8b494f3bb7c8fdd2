import Mathlib.Data.Finmap
import Mathlib.Data.Finset.Max
import Mathlib.Order.Bounds.Basic

/-!
# Counting maps

An ordered map from keys to occurrence counts in which a key with count zero is absent: the idiom
`m[k]++` on a missing key, `if (--m[k] == 0) erase(k)` and "the first key is the minimum". The
abstract content of such a map is a function `f : α → Nat`; `Represents m f` says that looking up a
key gives its count when that is positive and nothing when it is zero. `inc` and `dec` are the two
updates, and each of them is characterised by what it does to the represented function.

A map is determined by the function it represents (`Represents.unique`), and its least and greatest
keys are the least and greatest keys of positive count (`Represents.isLeast`,
`Represents.isGreatest`).
-/

namespace Mallana.Lib

/-- A map from keys to counts; a key of count zero is not stored. -/
abbrev CountMap (α : Type) : Type := Finmap (fun _ : α => Nat)

namespace CountMap

section Updates
variable {α : Type} [DecidableEq α]

/-- One more occurrence of `k`, inserting it when it is missing. -/
def inc (m : CountMap α) (k : α) : CountMap α :=
  m.insert k ((m.lookup k).getD 0 + 1)

/-- One occurrence of `k` less; the entry disappears with its last occurrence. -/
def dec (m : CountMap α) (k : α) : CountMap α :=
  match m.lookup k with
  | none => m
  | some n => if n - 1 = 0 then m.erase k else m.insert k (n - 1)

/-- The map `m` stores exactly the positive counts of `f`. -/
def Represents (m : CountMap α) (f : α → Nat) : Prop :=
  ∀ k, m.lookup k = if f k = 0 then none else some (f k)

lemma represents_empty : Represents (∅ : CountMap α) (fun _ => 0) := by
  intro k
  simp

variable {m : CountMap α} {f g : α → Nat}

lemma Represents.mem_iff (h : Represents m f) (k : α) : k ∈ m ↔ 0 < f k := by
  rw [← Finmap.lookup_isSome, h k]
  by_cases hk : f k = 0
  · simp [hk]
  · simp [hk, Nat.pos_of_ne_zero hk]

lemma Represents.unique {n : CountMap α} (hm : Represents m f) (hn : Represents n f) : m = n :=
  Finmap.ext_lookup fun k => (hm k).trans (hn k).symm

lemma Represents.eq (hf : Represents m f) (hg : Represents m g) (k : α) : f k = g k := by
  have h := (hf k).symm.trans (hg k)
  by_cases h1 : f k = 0
  · by_cases h2 : g k = 0
    · rw [h1, h2]
    · simp [h1, h2] at h
  · by_cases h2 : g k = 0
    · simp [h1, h2] at h
    · simpa [h1, h2] using h

lemma Represents.congr (h : Represents m f) (e : ∀ k, f k = g k) : Represents m g := by
  intro k
  rw [h k, e k]

lemma Represents.inc {k : α} (h : Represents m f)
    (hk : g k = f k + 1) (ho : ∀ j, j ≠ k → g j = f j) : Represents (m.inc k) g := by
  intro j
  unfold CountMap.inc
  by_cases e : j = k
  · subst e
    rw [Finmap.lookup_insert, h j, hk]
    by_cases hz : f j = 0 <;> simp [hz]
  · rw [Finmap.lookup_insert_of_ne _ e, h j, ho j e]

lemma Represents.dec {k : α} (h : Represents m f)
    (hk : f k = g k + 1) (ho : ∀ j, j ≠ k → g j = f j) : Represents (m.dec k) g := by
  have hl : m.lookup k = some (g k + 1) := by
    rw [h k, hk]
    simp
  intro j
  unfold CountMap.dec
  rw [hl]
  by_cases e : j = k
  · subst e
    by_cases hz : g j = 0
    · simp [hz]
    · simp [hz]
  · by_cases hz : g k = 0
    · simp only [hz, zero_add, sub_self, if_true]
      rw [Finmap.lookup_erase_ne e, h j, ho j e]
    · simp only [Nat.add_sub_cancel, hz, if_false]
      rw [Finmap.lookup_insert_of_ne _ e, h j, ho j e]

end Updates

section Extremes
variable {α : Type} [LinearOrder α]

/-- The first key of the map (`begin()->first`). -/
def minKey? (m : CountMap α) : Option α :=
  if h : m.keys.Nonempty then some (m.keys.min' h) else none

/-- The last key of the map (`rbegin()->first`). -/
def maxKey? (m : CountMap α) : Option α :=
  if h : m.keys.Nonempty then some (m.keys.max' h) else none

variable {m : CountMap α} {f : α → Nat}

lemma Represents.minKey?_none (h : Represents m f) : m.minKey? = none ↔ ∀ k, f k = 0 := by
  unfold minKey?
  by_cases hn : m.keys.Nonempty
  · obtain ⟨k, hk⟩ := hn
    have hpos := (h.mem_iff k).1 (Finmap.mem_keys.1 hk)
    simp only [show m.keys.Nonempty from ⟨k, hk⟩, dite_true, reduceCtorEq, false_iff, not_forall]
    exact ⟨k, by omega⟩
  · simp only [hn, dite_false, true_iff]
    intro k
    by_contra hk
    exact hn ⟨k, Finmap.mem_keys.2 ((h.mem_iff k).2 (Nat.pos_of_ne_zero hk))⟩

lemma maxKey?_none : m.maxKey? = none ↔ m.minKey? = none := by
  unfold maxKey? minKey?
  by_cases hn : m.keys.Nonempty <;> simp [hn]

lemma Represents.isLeast {k : α} (h : Represents m f) (hk : m.minKey? = some k) : IsLeast {j | 0 < f j} k := by
  unfold minKey? at hk
  split at hk
  · rename_i hn
    cases hk
    refine ⟨(h.mem_iff _).1 (Finmap.mem_keys.1 (Finset.min'_mem _ hn)), ?_⟩
    intro j hj
    exact Finset.min'_le _ _ (Finmap.mem_keys.2 ((h.mem_iff j).2 hj))
  · cases hk

lemma Represents.isGreatest {k : α} (h : Represents m f)
    (hk : m.maxKey? = some k) : IsGreatest {j | 0 < f j} k := by
  unfold maxKey? at hk
  split at hk
  · rename_i hn
    cases hk
    refine ⟨(h.mem_iff _).1 (Finmap.mem_keys.1 (Finset.max'_mem _ hn)), ?_⟩
    intro j hj
    exact Finset.le_max' _ _ (Finmap.mem_keys.2 ((h.mem_iff j).2 hj))
  · cases hk

end Extremes

end CountMap

end Mallana.Lib
