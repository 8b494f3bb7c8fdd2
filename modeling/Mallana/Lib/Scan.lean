import Mathlib.Data.List.Induction

/-!
# Scanning a list

The elements of a list are visited one after another, and what is known before an element is visited is a property of the
elements before it. The rules derive it for the whole list from one step, for a fact about the list alone, for a fold and for
a fold that can fail. `foldl_write` is about a fold of writes to a memory.
-/

namespace Mallana.Lib

open List

variable {α σ : Type} {l : List α}

/-- A property of the elements before each element. -/
theorem scan {P : List α → Prop} (h0 : P []) (hstep : ∀ pre x post, l = pre ++ x :: post → P pre → P (pre ++ [x])) :
    ∀ pre post, l = pre ++ post → P pre := by
  intro pre
  induction pre using List.reverseRecOn with
  | nil => exact fun _ _ => h0
  | append_singleton pre x ih =>
    intro post hl
    rw [append_assoc, singleton_append] at hl
    exact hstep pre x post hl (ih _ hl)

lemma forall_before {P : List α → α → Prop} (h : ∀ i (hi : i < l.length), P (l.take i) l[i]) :
    ∀ pre x post, l = pre ++ x :: post → P pre x := by
  rintro pre x post rfl
  have hlt : pre.length < (pre ++ x :: post).length := by
    rw [length_append, length_cons]
    exact Nat.lt_add_of_pos_right (Nat.succ_pos _)
  have hx := h pre.length hlt
  rwa [take_left' rfl, getElem_append_right (Nat.le_refl _), getElem_cons, dif_pos (Nat.sub_self _)] at hx

/-- A property that a fold carries along. -/
theorem foldl_scan {f : σ → α → σ} {P : List α → σ → Prop} {s : σ} (h0 : P [] s)
    (hstep : ∀ pre x post s, l = pre ++ x :: post → P pre s → P (pre ++ [x]) (f s x)) : P l (l.foldl f s) := by
  suffices h : ∀ rest pre s, l = pre ++ rest → P pre s → P l (rest.foldl f s) from h l [] s rfl h0
  intro rest
  induction rest with
  | nil =>
    intro pre s hl hp
    rwa [hl, append_nil]
  | cons x rest ih =>
    intro pre s hl hp
    refine ih (pre ++ [x]) (f s x) ?_ (hstep pre x rest s hl hp)
    rw [hl, append_assoc, singleton_append]

/-- A property that a fold carries along until it fails. -/
theorem foldlM_scan {f : σ → α → Option σ} {P : List α → σ → Prop} {s s' : σ} (h0 : P [] s)
    (hstep : ∀ pre x post s s', l = pre ++ x :: post → P pre s → f s x = some s' → P (pre ++ [x]) s')
    (hrun : l.foldlM f s = some s') : P l s' := by
  suffices h : ∀ rest pre s, l = pre ++ rest → P pre s → rest.foldlM f s = some s' → P l s' from h l [] s rfl h0 hrun
  intro rest
  induction rest with
  | nil =>
    intro pre s hl hp hrun
    obtain rfl : s = s' := Option.some.inj hrun
    rwa [hl, append_nil]
  | cons x rest ih =>
    intro pre s hl hp hrun
    rw [foldlM_cons] at hrun
    obtain ⟨s1, hs1, hrest⟩ := Option.bind_eq_some_iff.1 hrun
    refine ih (pre ++ [x]) s1 ?_ (hstep pre x rest s s1 hl hp hs1) hrest
    rw [hl, append_assoc, singleton_append]

/-- What a sequence of writes leaves at a place where each of them writes something with a property or nothing. -/
theorem foldl_write_pred {V : Type} {f : (σ → V) → α → σ → V} {p : σ} {Q : V → Prop} {P : α → Prop}
    (hhit : ∀ d, ∀ g ∈ l, P g → Q (f d g p)) (hmiss : ∀ d, ∀ g ∈ l, ¬ P g → f d g p = d p) (d : σ → V) :
    ((∃ g ∈ l, P g) → Q (l.foldl f d p)) ∧ ((∀ g ∈ l, ¬ P g) → l.foldl f d p = d p) := by
  induction l generalizing d with
  | nil => exact ⟨fun ⟨_, h, _⟩ => absurd h not_mem_nil, fun _ => rfl⟩
  | cons g l ih =>
    obtain ⟨ih1, ih2⟩ := ih (fun d g hg => hhit d g (mem_cons_of_mem _ hg))
      (fun d g hg => hmiss d g (mem_cons_of_mem _ hg)) (f d g)
    rw [foldl_cons]
    refine ⟨fun hex => ?_, fun hall => ?_⟩
    · by_cases hl : ∃ g ∈ l, P g
      · exact ih1 hl
      · have hnone : ∀ g ∈ l, ¬ P g := fun g hg hh => hl ⟨g, hg, hh⟩
        obtain ⟨g', hg', hh⟩ := hex
        rcases mem_cons.1 hg' with rfl | hin
        · rw [ih2 hnone]
          exact hhit d g' mem_cons_self hh
        · exact absurd hh (hnone g' hin)
    · rw [ih2 (fun g hg => hall g (mem_cons_of_mem _ hg)), hmiss d g mem_cons_self (hall g mem_cons_self)]

/-- What a sequence of writes leaves at a place where each of them writes `v` or nothing. -/
theorem foldl_write {V : Type} {f : (σ → V) → α → σ → V} {p : σ} {v : V} {P : α → Prop}
    (hhit : ∀ d, ∀ g ∈ l, P g → f d g p = v) (hmiss : ∀ d, ∀ g ∈ l, ¬ P g → f d g p = d p) (d : σ → V) :
    ((∃ g ∈ l, P g) → l.foldl f d p = v) ∧ ((∀ g ∈ l, ¬ P g) → l.foldl f d p = d p) :=
  foldl_write_pred (Q := fun a => a = v) hhit hmiss d

end Mallana.Lib
