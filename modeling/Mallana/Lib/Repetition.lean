import Mathlib.Computability.Language
import Mallana.Lib.Pushdown

/-!
# Repetition in context-free grammars

The language of a sequence of symbols, and what two shapes of rules derive: a rule that is a sequence with a reference
to itself behind it, or nothing, and a chain of rules that are a sequence with a reference to the rule before behind it,
or nothing. The first derives all powers of the sequence, the second those up to the length of the chain.
-/

namespace Mallana.Lib

open List

section Language
variable {T τ ν : Type} (mem : τ → T → Prop) (alts : ν → List (List (GSym τ ν)))

def langOf (β : List (GSym τ ν)) : Language T := {w | Derives mem alts β w}

/-- `k` rules in a row; each is `β`, with a reference to the one before behind it if there is one, or nothing. -/
inductive Optionals (β : List (GSym τ ν)) : Nat → ν → Prop where
  | one {A} : alts A = [β, []] → Optionals β 1 A
  | more {k A B} : Optionals β k A → alts B = [β ++ [.ref A], []] → Optionals β (k + 1) B

end Language

section Language
variable {T τ ν : Type} {mem : τ → T → Prop} {alts : ν → List (List (GSym τ ν))} {α β : List (GSym τ ν)} {w : List T}
  {A : ν} {k : Nat}

lemma mem_langOf : w ∈ langOf mem alts β ↔ Derives mem alts β w := Iff.rfl

lemma mem_langOf_nil : w ∈ langOf mem alts [] ↔ w = [] := by
  constructor
  · intro h
    cases h
    rfl
  · rintro rfl
    exact .nil

lemma langOf_nil : langOf mem alts [] = 1 := by
  ext w
  rw [mem_langOf_nil, Language.mem_one]

lemma langOf_append : langOf mem alts (α ++ β) = langOf mem alts α * langOf mem alts β := by
  ext w
  rw [Language.mem_mul]
  constructor
  · intro h
    obtain ⟨u, v, rfl, hu, hv⟩ := Derives.exists_append h
    exact ⟨u, hu, v, hv, rfl⟩
  · rintro ⟨u, hu, v, hv, rfl⟩
    exact Derives.append hu hv

lemma langOf_replicate : langOf mem alts (List.replicate k β).flatten = langOf mem alts β ^ k := by
  induction k with
  | zero => exact langOf_nil
  | succ k ih => rw [replicate_succ, flatten_cons, langOf_append, ih, pow_succ']

lemma mem_langOf_optional (h : alts A = [α, []]) : w ∈ langOf mem alts [.ref A] ↔ w ∈ langOf mem alts α ∨ w = [] := by
  rw [mem_langOf, derives_ref, h]
  simp only [mem_cons, not_mem_nil, or_false, exists_eq_or_imp, exists_eq_left, append_nil]
  exact or_congr Iff.rfl mem_langOf_nil

lemma Optionals.mem_langOf_iff (h : Optionals alts β k A) :
    w ∈ langOf mem alts [.ref A] ↔ ∃ i ≤ k, w ∈ langOf mem alts β ^ i := by
  induction h generalizing w with
  | one hA =>
    rw [mem_langOf_optional hA]
    constructor
    · rintro (hw | rfl)
      · exact ⟨1, le_refl 1, (pow_one (langOf mem alts β)).symm ▸ hw⟩
      · exact ⟨0, Nat.zero_le 1, Language.nil_mem_one⟩
    · rintro ⟨i, hi, hw⟩
      cases i with
      | zero => exact .inr hw
      | succ i =>
        obtain rfl : i = 0 := by omega
        exact .inl ((pow_one (langOf mem alts β)) ▸ hw)
  | @more k A B _ hB ih =>
    rw [mem_langOf_optional hB, langOf_append, Language.mem_mul]
    constructor
    · rintro (⟨u, hu, v, hv, rfl⟩ | rfl)
      · obtain ⟨i, hi, hv⟩ := ih.1 hv
        refine ⟨i + 1, Nat.succ_le_succ hi, ?_⟩
        rw [pow_succ', Language.mem_mul]
        exact ⟨u, hu, v, hv, rfl⟩
      · exact ⟨0, Nat.zero_le _, Language.nil_mem_one⟩
    · rintro ⟨i, hi, hw⟩
      cases i with
      | zero => exact .inr hw
      | succ i =>
        rw [pow_succ', Language.mem_mul] at hw
        obtain ⟨u, hu, v, hv, rfl⟩ := hw
        exact .inl ⟨u, hu, v, ih.2 ⟨i, Nat.le_of_succ_le_succ hi, hv⟩, rfl⟩

lemma Derives.exists_power (hA : alts A = [β ++ [.ref A], []]) {γ : List (GSym τ ν)} (h : Derives mem alts γ w)
    (hγ : γ = α ++ [.ref A]) : ∃ i, w ∈ langOf mem alts α * langOf mem alts β ^ i := by
  induction h generalizing α with
  | nil => exact absurd hγ.symm (by simp)
  | @term t c γ w hc _ ih =>
    cases α with
    | nil => cases hγ
    | cons x α =>
      cases hγ
      obtain ⟨i, hi⟩ := ih rfl
      obtain ⟨u, hu, v, hv, rfl⟩ := Language.mem_mul.1 hi
      exact ⟨i, Language.mem_mul.2 ⟨c :: u, .term hc hu, v, hv, rfl⟩⟩
  | @ref B δ γ u v hδ hu hv ihu ihv =>
    cases α with
    | nil =>
      cases hγ
      cases hv
      rw [append_nil, langOf_nil]
      rw [hA] at hδ
      rcases mem_cons.1 hδ with rfl | hδ
      · obtain ⟨i, hi⟩ := ihu rfl
        refine ⟨i + 1, ?_⟩
        rwa [one_mul, pow_succ']
      · obtain rfl := mem_singleton.1 hδ
        refine ⟨0, ?_⟩
        rw [pow_zero, one_mul]
        exact mem_langOf_nil.1 hu
    | cons x α =>
      cases hγ
      obtain ⟨i, hi⟩ := ihv rfl
      obtain ⟨x, hx, y, hy, rfl⟩ := Language.mem_mul.1 hi
      exact ⟨i, Language.mem_mul.2 ⟨u ++ x, .ref hδ hu hx, y, hy, append_assoc _ _ _⟩⟩

lemma mem_langOf_repeat (hA : alts A = [β ++ [.ref A], []]) :
    w ∈ langOf mem alts [.ref A] ↔ ∃ i, w ∈ langOf mem alts β ^ i := by
  constructor
  · intro h
    obtain ⟨i, hi⟩ := Derives.exists_power (α := []) hA h rfl
    rw [langOf_nil, one_mul] at hi
    exact ⟨i, hi⟩
  · rintro ⟨i, hi⟩
    induction i generalizing w with
    | zero => exact (mem_langOf_optional hA).2 (.inr hi)
    | succ i ih =>
      rw [pow_succ', Language.mem_mul] at hi
      obtain ⟨u, hu, v, hv, rfl⟩ := hi
      exact (mem_langOf_optional hA).2 (.inl (hu.append (ih hv)))

end Language

end Mallana.Lib
