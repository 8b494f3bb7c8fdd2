import Mathlib.Data.List.Basic

/-!
# Recursive walks over a graph

A depth-first walk enters a node once, marks it, and walks its successors one after another. `unseen` counts the nodes that
are not marked yet: it bounds the depth of the recursion. `foldl_done` is the induction over the successors, with the list of
those that were walked.
-/

namespace Mallana.Lib

open List

variable {α β σ : Type} {l : List α} {seen seen' : α → Bool}

def unseen (l : List α) (seen : α → Bool) : Nat := l.countP fun a => !seen a

lemma unseen_mono (h : ∀ a, seen a = true → seen' a = true) : unseen l seen' ≤ unseen l seen := by
  refine countP_mono_left fun a _ ha => ?_
  rw [Bool.not_eq_true'] at ha ⊢
  exact Bool.eq_false_iff.2 fun hs => Bool.eq_false_iff.1 ha (h a hs)

lemma unseen_lt {a : α} (ha : a ∈ l) (hnot : seen a = false) (hnow : seen' a = true)
    (h : ∀ a, seen a = true → seen' a = true) : unseen l seen' < unseen l seen := by
  obtain ⟨l1, l2, rfl⟩ := append_of_mem ha
  have h1 : unseen l1 seen' ≤ unseen l1 seen := unseen_mono h
  have h2 : unseen l2 seen' ≤ unseen l2 seen := unseen_mono h
  unfold unseen at h1 h2 ⊢
  rw [countP_append, countP_append, countP_cons_of_neg (by rw [hnow]; exact Bool.false_ne_true),
    countP_cons_of_pos (by rw [hnot]; rfl)]
  omega

lemma unseen_le_length (l : List α) (seen : α → Bool) : unseen l seen ≤ l.length := countP_le_length

lemma foldl_done {f : σ → β → σ} {P : List β → σ → Prop} {s : σ} {l : List β} (h0 : P [] s)
    (hstep : ∀ done b s, b ∈ l → P done s → P (done ++ [b]) (f s b)) : P l (l.foldl f s) := by
  suffices hgen : ∀ rest done s, done ++ rest = l → P done s → P l (rest.foldl f s) from hgen l [] s rfl h0
  intro rest
  induction rest with
  | nil =>
    intro done s hl hp
    obtain rfl : done = l := (append_nil done).symm.trans hl
    exact hp
  | cons b rest ih =>
    intro done s hl hp
    have hb : b ∈ l := hl ▸ mem_append_right done mem_cons_self
    exact ih (done ++ [b]) (f s b) (by rw [append_assoc]; exact hl) (hstep done b s hb hp)

end Mallana.Lib
