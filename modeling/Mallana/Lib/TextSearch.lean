import Mathlib.Data.List.Infix
import Mathlib.Data.Nat.Find

/-!
# Searching a text for words

`findFrom` is the first occurrence of a word at or after an offset, and `findCut` the longest beginning of a word with
which the text ends. A text and a word diverge if neither begins the other: then no
continuation of the text begins with the word. `FirstOf` is the earliest occurrence of any of several words.
-/

namespace Mallana.Lib

open List

variable {α : Type} {w text : List α} {q lo : Nat}

def OccursAt (w text : List α) (q : Nat) : Prop := w <+: text.drop q

instance [DecidableEq α] (w text : List α) (q : Nat) : Decidable (OccursAt w text q) :=
  inferInstanceAs (Decidable (w <+: text.drop q))

def findFrom [DecidableEq α] (text w : List α) (lo : Nat) : Option Nat :=
  (List.range' lo (text.length + 1 - w.length - lo)).find? fun q => decide (OccursAt w text q)

/-- The longest beginning of a word, of at most `len` letters, with which a text ends: its offset in the text. -/
def findCut [DecidableEq α] (text w : List α) : Nat → Option Nat
  | 0 => none
  | len + 1 =>
    if w[len]? = text.getLast? ∧ w.take (len + 1) <:+ text then some (text.length - (len + 1)) else findCut text w len

def Diverge (w text : List α) : Prop := ¬ w <+: text ∧ ¬ text <+: w

def FirstOf (ws : List (List α)) (text : List α) (q : Nat) : Prop :=
  (∃ w ∈ ws, OccursAt w text q) ∧ ∀ w ∈ ws, ∀ p, OccursAt w text p → q ≤ p

lemma OccursAt.length_le (h : OccursAt w text q) (hw : w ≠ []) : q + w.length ≤ text.length := by
  have hlen := List.IsPrefix.length_le h
  rw [length_drop] at hlen
  have hpos := length_pos_of_ne_nil hw
  omega

lemma OccursAt.isInfix (h : OccursAt w text q) : w <:+: text :=
  List.IsInfix.trans (List.IsPrefix.isInfix h) (drop_suffix q text).isInfix

lemma exists_occursAt (h : w <:+: text) : ∃ q, OccursAt w text q := by
  obtain ⟨s, t, rfl⟩ := h
  refine ⟨s.length, ?_⟩
  rw [OccursAt, append_assoc, drop_left]
  exact prefix_append w t

lemma OccursAt.mono {text' : List α} (h : OccursAt w text q) (ht : text <+: text') : OccursAt w text' q :=
  List.IsPrefix.trans h (List.IsPrefix.drop ht q)

lemma OccursAt.drop {n : Nat} (h : OccursAt w text q) (hn : n ≤ q) : OccursAt w (text.drop n) (q - n) := by
  rw [OccursAt, drop_drop, Nat.add_sub_cancel' hn]
  exact h

lemma occursAt_drop {n : Nat} (h : OccursAt w (text.drop n) q) : OccursAt w text (n + q) := by
  rw [OccursAt, drop_drop] at h
  exact h

lemma mem_range_of_occursAt (hw : w ≠ []) (hlo : lo ≤ q) (h : OccursAt w text q) :
    q ∈ List.range' lo (text.length + 1 - w.length - lo) := by
  have hlen := h.length_le hw
  apply mem_range'_1.2
  omega

section
variable [DecidableEq α]

lemma findFrom_some (h : findFrom text w lo = some q) : lo ≤ q ∧ OccursAt w text q := by
  have hmem := mem_of_find?_eq_some h
  have hocc := find?_some h
  exact ⟨(mem_range'_1.1 hmem).1, of_decide_eq_true hocc⟩

lemma findFrom_none (h : findFrom text w lo = none) (hw : w ≠ []) (hlo : lo ≤ q) : ¬ OccursAt w text q := by
  intro hocc
  have hno := find?_eq_none.1 h q (mem_range_of_occursAt hw hlo hocc)
  exact hno (decide_eq_true hocc)

lemma findFrom_le {p : Nat} (h : findFrom text w lo = some q) (hw : w ≠ []) (hlo : lo ≤ p)
    (hocc : OccursAt w text p) : q ≤ p := by
  apply Nat.le_of_not_lt
  intro hlt
  obtain ⟨_, as, bs, heq, hno⟩ := find?_eq_some_iff_append.1 h
  have hsorted : (as ++ q :: bs).Pairwise (· < ·) := by
    rw [← heq]
    exact pairwise_lt_range'
  have hmem := mem_range_of_occursAt hw hlo hocc
  rw [heq] at hmem
  rcases mem_append.1 hmem with hp | hp
  · have hno := hno p hp
    rw [decide_eq_true hocc] at hno
    cases hno
  · rcases mem_cons.1 hp with rfl | hp
    · exact lt_irrefl _ hlt
    · have hbehind := (pairwise_cons.1 (pairwise_append.1 hsorted).2.1).1 p hp
      exact lt_asymm hlt hbehind

lemma exists_findFrom (hw : w ≠ []) (hlo : lo ≤ q) (h : OccursAt w text q) : ∃ p, findFrom text w lo = some p ∧ p ≤ q := by
  cases hf : findFrom text w lo with
  | none => exact absurd h (findFrom_none hf hw hlo)
  | some p => exact ⟨p, rfl, findFrom_le hf hw hlo h⟩

lemma findCut_none {n len : Nat} (h : findCut text w n = none) (hlen : len < n) (hw : len < w.length) :
    ¬ w.take (len + 1) <:+ text := by
  induction n with
  | zero => exact absurd hlen (Nat.not_lt_zero _)
  | succ n ih =>
    rw [findCut] at h
    split at h
    · cases h
    rename_i hno
    rcases Nat.lt_succ_iff_lt_or_eq.1 hlen with hlt | rfl
    · exact ih h hlt
    · intro hsuf
      apply hno
      refine ⟨?_, hsuf⟩
      obtain ⟨s, rfl⟩ := hsuf
      have hne : w.take (len + 1) ≠ [] := ne_nil_of_length_pos (by rw [length_take]; omega)
      rw [getLast?_append_of_ne_nil _ hne, getLast?_take, if_neg (Nat.succ_ne_zero _), Nat.add_sub_cancel,
        getElem?_eq_getElem hw]
      rfl

end

lemma Diverge.mono {text' : List α} (h : Diverge w text) (ht : text <+: text') : Diverge w text' := by
  constructor
  · intro hw
    rcases prefix_or_prefix_of_prefix hw ht with hp | hp
    · exact h.1 hp
    · exact h.2 hp
  · intro hw
    exact h.2 (ht.trans hw)

lemma diverge_drop [DecidableEq α] (hno : ¬ OccursAt w text q) (hq : q < text.length)
    (hcut : findCut text w (min text.length w.length) = none) : Diverge w (text.drop q) := by
  refine ⟨hno, ?_⟩
  intro hw
  have hlen := hw.length_le
  rw [length_drop] at hlen
  have htake := prefix_iff_eq_take.1 hw
  rw [length_drop] at htake
  have hone : text.length - q - 1 + 1 = text.length - q := by omega
  refine @findCut_none α w text _ _ (text.length - q - 1) hcut ?_ ?_ ?_
  · omega
  · omega
  · rw [hone, ← htake]
    exact drop_suffix q text

lemma FirstOf.unique {ws : List (List α)} {p : Nat} (h : FirstOf ws text q) (h' : FirstOf ws text p) : q = p := by
  obtain ⟨⟨w, hw, hocc⟩, hmin⟩ := h
  obtain ⟨⟨w', hw', hocc'⟩, hmin'⟩ := h'
  exact le_antisymm (hmin w' hw' p hocc') (hmin' w hw q hocc)

lemma exists_firstOf {ws : List (List α)} (h : ∃ w ∈ ws, w <:+: text) : ∃ q, FirstOf ws text q := by
  classical
  obtain ⟨w, hw, hsub⟩ := h
  obtain ⟨p, hp⟩ := exists_occursAt hsub
  have hex : ∃ q, ∃ w ∈ ws, OccursAt w text q := ⟨p, w, hw, hp⟩
  exact ⟨Nat.find hex, Nat.find_spec hex, fun w hw p hp => Nat.find_min' hex ⟨w, hw, hp⟩⟩

lemma FirstOf.not_isInfix_take {ws : List (List α)} (h : FirstOf ws text q) (hne : ∀ w ∈ ws, w ≠ []) (hw : w ∈ ws) :
    ¬ w <:+: text.take q := by
  intro hin
  obtain ⟨p, hp⟩ := exists_occursAt hin
  have hlen := hp.length_le (hne w hw)
  rw [length_take] at hlen
  have hle := h.2 w hw p (hp.mono (List.take_prefix q text))
  have hpos := length_pos_of_ne_nil (hne w hw)
  omega

end Mallana.Lib
