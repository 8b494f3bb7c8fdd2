import Mathlib.Data.List.Perm.Basic
import Mathlib.Data.List.Flatten
import Mathlib.Data.List.GetD
import Mathlib.Data.List.Induction

/-!
# Updating one entry of a list

Lists stand for arrays here: `l.getD i d` is the read `l[i]`, `l.modify i f` the in-place update of
entry `i`. The lemmas say how a read sees an update, and how an update changes the list as a bag of
entries: the bag of the updated list and the bag of the old list are one common rest plus the new
and the old entry. The second kind is stated for a plain list and for a two-level table.
-/

namespace Mallana.Lib

open List

section Reads
variable {α : Type}

variable {l : List α} {i : Nat} {β : Type}

lemma getD_modify_self (h : i < l.length) (f : α → α) (d : α) : (l.modify i f).getD i d = f (l.getD i d) := by
  simp [h]

lemma getD_modify_of_ne {j : Nat} (h : i ≠ j) (f : α → α) (d : α) : (l.modify i f).getD j d = l.getD j d := by
  simp [h]

lemma getD_modify (l : List α) (i j : Nat) (f : α → α) (d : α) :
    (l.modify i f).getD j d = if i = j ∧ j < l.length then f (l.getD j d) else l.getD j d := by
  by_cases e : i = j
  · subst e
    by_cases h : i < l.length
    · simp [h]
    · rw [modify_eq_self (Nat.le_of_not_lt h)]
      simp [h]
  · rw [getD_modify_of_ne e]
    simp [e]

lemma ext_getD {m : List α} (d : α) (hl : l.length = m.length)
    (h : ∀ i < l.length, l.getD i d = m.getD i d) : l = m := by
  apply ext_getElem hl
  intro i h1 h2
  have := h i h1
  rwa [getD_eq_getElem _ _ h1, getD_eq_getElem _ _ h2] at this

lemma map_getD_range (l : List α) (d : α) : (List.range l.length).map (l.getD · d) = l := by
  apply ext_getElem (by simp)
  intro i h1 h2
  simp [h2]

lemma drop_findIdx_eq_filter {p : α → Bool}
    (h : l.Pairwise fun a b => p a = true → p b = true) : l.drop (l.findIdx p) = l.filter p := by
  induction l with
  | nil => rfl
  | cons a l ih =>
    rw [pairwise_cons] at h
    cases ha : p a with
    | true =>
      rw [findIdx_cons, ha, cond_true, drop_zero, filter_cons_of_pos ha, filter_eq_self.2 fun b hb => h.1 b hb ha]
    | false =>
      rw [findIdx_cons, ha, cond_false, drop_succ_cons, filter_cons_of_neg (by simp [ha]), ih h.2]

lemma flatMap_eq_flatMap_iff {f g : α → List β} (hlen : ∀ a ∈ l, (f a).length = (g a).length) :
    l.flatMap f = l.flatMap g ↔ ∀ a ∈ l, f a = g a := by
  induction l with
  | nil => simp
  | cons a l ih =>
    simp only [mem_cons, forall_eq_or_imp] at hlen ⊢
    rw [flatMap_cons, flatMap_cons, ← ih hlen.2]
    constructor
    · exact fun h => append_inj h hlen.1
    · rintro ⟨h1, h2⟩
      rw [h1, h2]

lemma getD_flatMap {l : List β} {f : β → List α} {m t : Nat}
    (hlen : ∀ b ∈ l, (f b).length = m) (ht : t < l.length) (hi : i < m) (e : β) (d : α) :
    (l.flatMap f).getD (t * m + i) d = (f (l.getD t e)).getD i d := by
  induction l generalizing t with
  | nil => exact absurd ht (Nat.not_lt_zero t)
  | cons b l ih =>
    have hb : (f b).length = m := hlen b mem_cons_self
    rw [flatMap_cons]
    cases t with
    | zero =>
      rw [Nat.zero_mul, Nat.zero_add, getD_append _ _ _ _ (by omega), getD_cons_zero]
    | succ t =>
      rw [Nat.succ_mul, getD_append_right _ _ _ _ (by omega), hb, getD_cons_succ,
        show t * m + m + i - m = t * m + i by omega]
      exact ih (fun b hb => hlen b (mem_cons_of_mem _ hb)) (Nat.lt_of_succ_lt_succ ht)

lemma getD_flatMap_range (f : Nat → Nat → α) {n m t : Nat} (ht : t < n) (hi : i < m) (d : α) :
    ((List.range n).flatMap fun t => (List.range m).map (f t)).getD (t * m + i) d = f t i := by
  rw [getD_flatMap (by simp) (by simpa using ht) hi 0]
  simp [ht, hi]

lemma map_filter_range {γ : Type} (l : List α) {n : Nat} (hn : l.length ≤ n) {P : α → Bool}
    {Q : Nat → Bool} {f : α → γ} {g : Nat → γ} (hQ : ∀ i, Q i = l[i]?.elim false P)
    (hg : ∀ i a, l[i]? = some a → P a = true → g i = f a) :
    ((List.range n).filter Q).map g = (l.filter P).map f := by
  induction l generalizing n Q g with
  | nil =>
    have hnone : (List.range n).filter Q = [] := by
      rw [filter_eq_nil_iff]
      intro i _
      rw [hQ]
      simp
    rw [hnone]
    rfl
  | cons a l ih =>
    obtain ⟨m, rfl⟩ : ∃ m, n = m + 1 := ⟨n - 1, by simp only [length_cons] at hn; omega⟩
    have htail := ih (n := m) (Q := fun i => Q (i + 1)) (g := fun i => g (i + 1))
      (Nat.le_of_succ_le_succ hn) (fun i => hQ (i + 1)) (fun i => hg (i + 1))
    have hshift : (((List.range m).map Nat.succ).filter Q).map g = (l.filter P).map f := by
      rw [filter_map, map_map]
      exact htail
    rw [range_succ_eq_map, filter_cons, filter_cons, hQ 0]
    rw [getElem?_cons_zero, Option.elim_some]
    split
    · rename_i hp
      rw [map_cons, map_cons, hg 0 a rfl hp, hshift]
    · exact hshift

lemma foldl_update_zipIdx (g : α × Nat → β → β) (l : List α) (f : Nat → β) :
    l.zipIdx.foldl (fun f a => Function.update f a.2 (g a (f a.2))) f =
      fun i => l[i]?.elim (f i) fun a => g (a, i) (f i) := by
  induction l using List.reverseRecOn with
  | nil => rfl
  | append_singleton l a ih =>
    rw [zipIdx_append, foldl_append, ih]
    simp only [zipIdx_singleton, foldl_cons, foldl_nil, Nat.zero_add]
    funext i
    by_cases e : i = l.length
    · subst e
      simp
    · rw [Function.update_of_ne e]
      obtain hlt | hgt := Nat.lt_or_gt_of_ne e
      · rw [getElem?_append_left hlt]
      · rw [getElem?_eq_none (by omega), getElem?_eq_none (by simp; omega)]

end Reads

section Folds
variable {σ : Type}

lemma foldl_range_single {f : σ → Nat → σ} {x y : σ} {t n : Nat} (ht : t < n)
    (hbefore : ∀ i < t, f x i = x) (hat : f x t = y) (hafter : ∀ i, t < i → i < n → f y i = y) :
    (List.range n).foldl f x = y := by
  induction n with
  | zero => omega
  | succ n ih =>
    rw [range_succ, foldl_append, foldl_cons, foldl_nil]
    obtain htn | rfl := Nat.lt_or_eq_of_le (Nat.le_of_lt_succ ht)
    · rw [ih htn fun i hi hin => hafter i hi (by omega)]
      exact hafter n htn (Nat.lt_succ_self n)
    · have hsame : (List.range t).foldl f x = x := by
        refine List.foldlRecOn (motive := fun y => y = x) _ f rfl ?_
        rintro y rfl i hi
        exact hbefore i (mem_range.1 hi)
      rw [hsame, hat]

end Folds

section Bags
variable {α : Type}

lemma perm_getD_cons_eraseIdx {l : List α} {i : Nat} (h : i < l.length) (d : α) :
    l.Perm (l.getD i d :: l.eraseIdx i) := by
  rw [getD_eq_getElem _ _ h]
  exact (getElem_cons_eraseIdx_perm h).symm

lemma modify_perm_cons_eraseIdx {l : List α} {i : Nat} (h : i < l.length) (f : α → α) (d : α) :
    (l.modify i f).Perm (f (l.getD i d) :: l.eraseIdx i) := by
  have hp := perm_getD_cons_eraseIdx (l := l.modify i f) (by simpa using h) d
  rwa [getD_modify_self h, eraseIdx_modify_of_eq] at hp

lemma flatten_modify_modify_perm {t : List (List α)} {i j : Nat} (hi : i < t.length)
    (hj : j < (t.getD i []).length) (f : α → α) (d : α) : ∃ rest, t.flatten.Perm ((t.getD i []).getD j d :: rest) ∧
      (t.modify i (·.modify j f)).flatten.Perm (f ((t.getD i []).getD j d) :: rest) := by
  refine ⟨(t.getD i []).eraseIdx j ++ (t.eraseIdx i).flatten, ?_, ?_⟩
  · have hrow := (perm_getD_cons_eraseIdx hi []).flatten
    have hent := perm_getD_cons_eraseIdx hj d
    exact hrow.trans (hent.append_right _)
  · have hrow := (modify_perm_cons_eraseIdx hi (·.modify j f) []).flatten
    have hent := modify_perm_cons_eraseIdx hj f d
    exact hrow.trans (hent.append_right _)

end Bags

end Mallana.Lib
