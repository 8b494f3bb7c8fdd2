import Mathlib.Data.Fintype.EquivFin
import Mallana.Lib.Pushdown

/-!
# Stacks of bounded height

When a reference is replaced by its alternatives, what follows it stays on the stack. A rule that reaches itself from
the left and leaves something behind it (`Leaves`) makes the stack grow without bound. Where no such rule is reached,
the stacks have a bounded height (`exists_height`), also along cycles of rules that leave nothing behind.
-/

namespace Mallana.Lib

open List

variable {τ ν : Type} {alts : ν → List (List (GSym τ ν))} {α β γ : List (GSym τ ν)} {Γ Δ x : List (List (GSym τ ν))}
  {A B C : ν}

lemma Nullable.append (h1 : Nullable alts α) (h2 : Nullable alts β) : Nullable alts (α ++ β) := by
  induction h1 with
  | nil => exact h2
  | ref hα h _ _ ih => exact .ref hα h ih

lemma Nullable.of_append (h : Nullable alts (α ++ β)) : Nullable alts α ∧ Nullable alts β := by
  induction α with
  | nil => exact ⟨.nil, h⟩
  | cons x α ih =>
    cases h with
    | ref hα h h' => exact ⟨.ref hα h (ih h').1, (ih h').2⟩

lemma push_append : push β (Δ ++ Γ) = push β Δ ++ Γ := by
  cases β <;> rfl

lemma child_append (hne : Δ ≠ []) (h : Child (expand alts) x (Δ ++ Γ)) : ∃ y, Child (expand alts) y Δ ∧ x = y ++ Γ := by
  obtain ⟨l, hl, hx⟩ := h
  match Δ, hne with
  | [] :: _, _ => cases hl
  | (.term _ :: _) :: _, _ => cases hl
  | (.ref A :: γ) :: Δ, _ =>
    cases hl
    obtain ⟨α, hα, rfl⟩ := mem_map.1 hx
    refine ⟨push α (push γ Δ), ⟨_, rfl, mem_map.2 ⟨α, hα, rfl⟩⟩, ?_⟩
    show push α (push γ (Δ ++ Γ)) = push α (push γ Δ) ++ Γ
    rw [push_append, push_append]

lemma Reaches.append_cases (h : Reaches (expand alts) (Δ ++ Γ) x) :
    (∃ y, Reaches (expand alts) Δ y ∧ x = y ++ Γ) ∨ Reaches (expand alts) Δ [] ∧ Reaches (expand alts) Γ x := by
  induction h with
  | refl => exact .inl ⟨Δ, .refl, rfl⟩
  | tail _ hc ih =>
    obtain ⟨y, hy, rfl⟩ | ⟨hnil, hr⟩ := ih
    · by_cases hne : y = []
      · rw [hne] at hy hc
        exact .inr ⟨hy, .single hc⟩
      · obtain ⟨y', hc', rfl⟩ := child_append hne hc
        exact .inl ⟨y', hy.tail hc', rfl⟩
    · exact .inr ⟨hnil, hr.tail hc⟩

lemma Reaches.nullable (h : Reaches (expand alts) Γ Δ) (hd : Nullable alts Δ.flatten) : Nullable alts Γ.flatten := by
  induction h with
  | refl => exact hd
  | tail _ hc ih =>
    obtain ⟨A, α, hα, γ, Γ', rfl, rfl⟩ := child_cases hc
    rw [flatten_push, flatten_push] at hd
    exact ih (.ref hα hd.of_append.1 hd.of_append.2)

lemma nullable_of_reaches_nil (h : Reaches (expand alts) (push β []) []) : Nullable alts β := by
  have hnull := h.nullable .nil
  rwa [flatten_push, flatten_nil, append_nil] at hnull

/-- An alternative of `A` is at `B`, behind symbols that derive the empty word and before `γ`. -/
def Opens (alts : ν → List (List (GSym τ ν))) (A B : ν) (γ : List (GSym τ ν)) : Prop :=
  ∃ β, β ++ .ref B :: γ ∈ alts A ∧ Nullable alts β

/-- `A` reaches `B` from the left. -/
def Corner (alts : ν → List (List (GSym τ ν))) : ν → ν → Prop := Relation.ReflTransGen fun A B => ∃ γ, Opens alts A B γ

/-- `A` reaches `C` from the left, and leaves something behind it in the last step. -/
def Leaves (alts : ν → List (List (GSym τ ν))) (A C : ν) : Prop := ∃ B γ, Corner alts A B ∧ Opens alts B C γ ∧ γ ≠ []

lemma Leaves.trans (h1 : Leaves alts A B) (h2 : Leaves alts B C) : Leaves alts A C := by
  obtain ⟨B₁, γ₁, hc₁, ho₁, -⟩ := h1
  obtain ⟨B₂, γ₂, hc₂, ho₂, hne⟩ := h2
  exact ⟨B₂, γ₂, (hc₁.tail ⟨γ₁, ho₁⟩).trans hc₂, ho₂, hne⟩

/-- The stacks that an alternative of the rule is taken apart into have a bounded height. -/
def Bounded (alts : ν → List (List (GSym τ ν))) (A : ν) : Prop :=
  ∃ h, ∀ α ∈ alts A, ∀ x, Reaches (expand alts) (push α []) x → x.length ≤ h

/-- What a stack above an alternative of `A` looks like: empty, or one rest, or a stack of `C` above a rest. -/
inductive Shape (alts : ν → List (List (GSym τ ν))) (A : ν) : List (List (GSym τ ν)) → Prop where
  | nil : Shape alts A []
  | one (B : ν) (β δ : List (GSym τ ν)) : Corner alts A B → β ++ δ ∈ alts B → Nullable alts β → δ ≠ [] →
      Shape alts A [δ]
  | above (B C : ν) (β γ α : List (GSym τ ν)) (Δ : List (List (GSym τ ν))) : Corner alts A B →
      β ++ .ref C :: γ ∈ alts B → Nullable alts β → γ ≠ [] → α ∈ alts C →
      Reaches (expand alts) (push α []) Δ → Δ ≠ [] → Shape alts A (Δ ++ [γ])

lemma shape_push (hc : Corner alts A B) (hα : α ∈ alts B) : Shape alts A (push α []) := by
  by_cases hne : α = []
  · rw [hne]
    exact .nil
  · rw [push_of_ne hne]
    exact .one B [] α hc hα .nil hne

lemma Shape.child (h : Shape alts A Γ) (hc : Child (expand alts) x Γ) : Shape alts A x := by
  cases h with
  | nil =>
    obtain ⟨l, hl, -⟩ := hc
    cases hl
  | one B β δ hcorner hβ hnull hne =>
    obtain ⟨l, hl, hmem⟩ := hc
    match δ, hne with
    | .term _ :: _, _ => cases hl
    | .ref C :: γ, _ =>
      cases hl
      obtain ⟨α, hα, rfl⟩ := mem_map.1 hmem
      have hC : Corner alts A C := hcorner.tail ⟨γ, β, hβ, hnull⟩
      by_cases hγ : γ = []
      · rw [hγ]
        exact shape_push hC hα
      rw [push_of_ne hγ]
      by_cases hαn : α = []
      · rw [hαn] at hα ⊢
        have hβ' : (β ++ [.ref C]) ++ γ ∈ alts B := by
          rw [append_assoc]
          exact hβ
        exact .one B _ γ hcorner hβ' (hnull.append (.ref hα .nil .nil)) hγ
      · rw [push_of_ne hαn]
        exact .above B C β γ α [α] hcorner hβ hnull hγ hα (by rw [push_of_ne hαn]; exact .refl) (by simp)
  | above B C β γ α Δ hcorner hβ hnull hγ hα hr hne =>
    obtain ⟨y, hy, rfl⟩ := child_append hne hc
    by_cases hyn : y = []
    · rw [hyn] at hy ⊢
      have hβ' : (β ++ [.ref C]) ++ γ ∈ alts B := by
        rw [append_assoc]
        exact hβ
      exact .one B _ γ hcorner hβ' (hnull.append (.ref hα (nullable_of_reaches_nil (hr.tail hy)) .nil)) hγ
    · exact .above B C β γ α y hcorner hβ hnull hγ hα (hr.tail hy) hyn

lemma shape_of_reaches (hα : α ∈ alts A) (h : Reaches (expand alts) (push α []) x) : Shape alts A x := by
  induction h with
  | refl => exact shape_push .refl hα
  | tail _ hc ih => exact ih.child hc

lemma bounded_of_leaves [Finite ν] (h : ∀ C, Leaves alts A C → Bounded alts C) : Bounded alts A := by
  have hchoose : ∀ C, ∃ k, Leaves alts A C → ∀ α ∈ alts C, ∀ x, Reaches (expand alts) (push α []) x → x.length ≤ k := by
    intro C
    by_cases hC : Leaves alts A C
    · obtain ⟨k, hk⟩ := h C hC
      exact ⟨k, fun _ => hk⟩
    · exact ⟨0, fun hC' => absurd hC' hC⟩
  choose k hk using hchoose
  obtain ⟨K, hK⟩ := (Set.finite_range k).bddAbove
  refine ⟨K + 1, fun α hα x hx => ?_⟩
  cases shape_of_reaches hα hx with
  | nil => exact Nat.zero_le _
  | one => exact Nat.le_add_left _ _
  | above B C β γ α Δ hcorner hβ hnull hγ hα hr hne =>
    have hle : Δ.length ≤ k C := hk C ⟨B, γ, hcorner, ⟨β, hβ, hnull⟩, hγ⟩ α hα Δ hr
    have hle' : k C ≤ K := hK ⟨C, rfl⟩
    rw [length_append, length_singleton]
    omega

/-- Among rules that do not leave themselves behind, every rule is bounded. -/
theorem bounded_of_good [Finite ν] {good : ν → Prop} (hcorner : ∀ A B, good A → Corner alts A B → good B)
    (hgood : ∀ A, good A → ¬ Leaves alts A A) (A : ν) (hA : good A) : Bounded alts A := by
  have : Std.Irrefl fun C A => good A ∧ Leaves alts A C := ⟨fun A h => hgood A h.1 h.2⟩
  have : IsTrans ν fun C A => good A ∧ Leaves alts A C := ⟨fun _ _ _ h1 h2 => ⟨h2.1, h2.2.trans h1.2⟩⟩
  have hwf := Finite.wellFounded_of_trans_of_irrefl fun C A => good A ∧ Leaves alts A C
  induction A using hwf.induction with
  | _ A ih =>
    refine bounded_of_leaves fun C hC => ih C ⟨hA, hC⟩ ?_
    obtain ⟨B, γ, hAB, hBC, -⟩ := hC
    exact hcorner A C hA (hAB.tail ⟨γ, hBC⟩)

lemma exists_height_push (h : ∀ β₁ B β₂, β = β₁ ++ .ref B :: β₂ → Nullable alts β₁ → Bounded alts B) :
    ∃ k, ∀ x, Reaches (expand alts) (push β []) x → x.length ≤ k := by
  induction β with
  | nil =>
    refine ⟨0, fun x hx => ?_⟩
    obtain rfl | ⟨y, ⟨l, hl, -⟩, -⟩ := Relation.ReflTransGen.cases_head hx
    · exact le_refl 0
    · cases hl
  | cons s β ih =>
    cases s with
    | term t =>
      refine ⟨1, fun x hx => ?_⟩
      obtain rfl | ⟨y, ⟨l, hl, -⟩, -⟩ := Relation.ReflTransGen.cases_head hx
      · exact le_refl 1
      · cases hl
    | ref B =>
      obtain ⟨k, hk⟩ := h [] B β rfl .nil
      have hrest : ∃ k', (∃ α ∈ alts B, Nullable alts α) →
          ∀ x, Reaches (expand alts) (push β []) x → x.length ≤ k' := by
        by_cases hnull : ∃ α ∈ alts B, Nullable alts α
        · obtain ⟨α, hα, hn⟩ := hnull
          obtain ⟨k', hk'⟩ := ih fun β₁ B' β₂ heq hn' =>
            h (.ref B :: β₁) B' β₂ (by rw [heq]; rfl) (.ref hα hn hn')
          exact ⟨k', fun _ => hk'⟩
        · exact ⟨0, fun h' => absurd h' hnull⟩
      obtain ⟨k', hk'⟩ := hrest
      refine ⟨max 1 (max (k + 1) k'), fun x hx => ?_⟩
      obtain rfl | ⟨y, ⟨l, hl, hmem⟩, hr⟩ := Relation.ReflTransGen.cases_head hx
      · exact le_max_left _ _
      cases hl
      obtain ⟨α, hα, rfl⟩ := mem_map.1 hmem
      have hsplit : push α (push β []) = push α [] ++ push β [] := push_append (Δ := [])
      rw [hsplit] at hr
      obtain ⟨z, hz, rfl⟩ | ⟨hnil, hr'⟩ := Reaches.append_cases hr
      · have hle := hk α hα z hz
        have hlen : (push β ([] : List (List (GSym τ ν)))).length ≤ 1 := by cases β <;> simp [push]
        rw [length_append]
        omega
      · have hle := hk' ⟨α, hα, nullable_of_reaches_nil hnil⟩ x hr'
        omega

/-- A stack whose references in front are bounded is taken apart into stacks of bounded height. -/
theorem exists_height (h : ∀ β₁ B β₂, Γ.flatten = β₁ ++ .ref B :: β₂ → Nullable alts β₁ → Bounded alts B)
    (hne : [] ∉ Γ) : ∃ k, ∀ x, Reaches (expand alts) Γ x → x.length ≤ k := by
  induction Γ with
  | nil => exact exists_height_push (β := []) fun β₁ _ _ heq => by cases β₁ <;> cases heq
  | cons β Γ ih =>
    rw [mem_cons, not_or] at hne
    obtain ⟨k, hk⟩ := exists_height_push (β := β) fun β₁ B β₂ heq =>
      h β₁ B (β₂ ++ Γ.flatten) (by rw [flatten_cons, heq, append_assoc]; rfl)
    have hrest : ∃ k', Nullable alts β → ∀ x, Reaches (expand alts) Γ x → x.length ≤ k' := by
      by_cases hnull : Nullable alts β
      · obtain ⟨k', hk'⟩ := ih (fun β₁ B β₂ heq hn =>
          h (β ++ β₁) B β₂ (by rw [flatten_cons, heq, append_assoc]) (hnull.append hn)) hne.2
        exact ⟨k', fun _ => hk'⟩
      · exact ⟨0, fun h' => absurd h' hnull⟩
    obtain ⟨k', hk'⟩ := hrest
    refine ⟨max (k + Γ.length) k', fun x hx => ?_⟩
    have hpush : push β [] = [β] := push_of_ne fun heq => hne.1 heq.symm
    rw [hpush] at hk
    obtain ⟨z, hz, rfl⟩ | ⟨hnil, hr⟩ := Reaches.append_cases (Δ := [β]) hx
    · have hle := hk z hz
      rw [length_append]
      omega
    · have hle := hk' (nullable_of_reaches_nil (by rw [hpush]; exact hnil)) x hr
      omega

/-- A sequence can be passed if its terminals can; `live` says which can be matched at all. -/
inductive Passable (live : τ → Prop) (alts : ν → List (List (GSym τ ν))) : List (GSym τ ν) → Prop where
  | nil : Passable live alts []
  | term (t : τ) (β : List (GSym τ ν)) : live t → Passable live alts β → Passable live alts (.term t :: β)
  | ref (A : ν) (α β : List (GSym τ ν)) : α ∈ alts A → Passable live alts α → Passable live alts β →
      Passable live alts (.ref A :: β)

/-- The rules that are reached from a root, behind sequences that can be passed. -/
inductive Reached (live : τ → Prop) (alts : ν → List (List (GSym τ ν))) (root : ν) : ν → Prop where
  | root : Reached live alts root root
  | step (A B : ν) (β γ : List (GSym τ ν)) : Reached live alts root A → β ++ .ref B :: γ ∈ alts A →
      Passable live alts β → Reached live alts root B

/-- Every reference of the stack that can be come to is to a rule that is reached. -/
def Near (live : τ → Prop) (alts : ν → List (List (GSym τ ν))) (root : ν) (β : List (GSym τ ν)) : Prop :=
  ∀ β₁ B β₂, β = β₁ ++ .ref B :: β₂ → Passable live alts β₁ → Reached live alts root B

variable {live : τ → Prop} {root : ν} {t : τ}

lemma Nullable.passable (h : Nullable alts β) : Passable live alts β := by
  induction h with
  | nil => exact .nil
  | ref hα _ _ ih ih' => exact .ref _ _ _ hα ih ih'

lemma Passable.of_append (h : Passable live alts (α ++ β)) : Passable live alts α ∧ Passable live alts β := by
  induction α with
  | nil => exact ⟨.nil, h⟩
  | cons x α ih =>
    cases h with
    | term _ _ ht h => exact ⟨.term _ _ ht (ih h).1, (ih h).2⟩
    | ref _ _ _ hα h h' => exact ⟨.ref _ _ _ hα h (ih h').1, (ih h').2⟩

lemma Reached.corner (h : Reached live alts root A) (hc : Corner alts A B) : Reached live alts root B := by
  induction hc with
  | refl => exact h
  | tail _ ho ih =>
    obtain ⟨γ, β, hβ, hnull⟩ := ho
    exact .step _ _ β γ ih hβ hnull.passable

lemma Near.term (h : Near live alts root (.term t :: β)) (ht : live t) : Near live alts root β := by
  intro β₁ B β₂ heq hpass
  exact h (.term t :: β₁) B β₂ (by rw [heq]; rfl) (.term t β₁ ht hpass)

lemma Near.ref (h : Near live alts root (.ref A :: β)) (hα : α ∈ alts A) : Near live alts root (α ++ β) := by
  intro β₁ B β₂ heq hpass
  obtain ⟨α', rfl, hβ⟩ | ⟨β', rfl, hα'⟩ := append_eq_append_iff.1 heq
  · -- behind the alternative
    obtain ⟨hpα, hpα'⟩ := hpass.of_append
    exact h (.ref A :: α') B β₂ (by rw [hβ]; rfl) (.ref A α α' hα hpα hpα')
  · cases β' with
    | nil =>
      rw [append_nil] at hα
      rw [nil_append] at hα'
      exact h [.ref A] B β₂ (by rw [← hα']; rfl) (.ref A β₁ [] hα hpass .nil)
    | cons y β' =>
      obtain ⟨rfl, -⟩ := List.cons.inj hα'
      exact .step A B β₁ β' (h [] A β rfl .nil) hα hpass

lemma Near.reaches (h : Near live alts root Γ.flatten) (hr : Reaches (expand alts) Γ Δ) :
    Near live alts root Δ.flatten := by
  induction hr with
  | refl => exact h
  | tail _ hc ih =>
    obtain ⟨A, α, hα, γ, Γ', rfl, rfl⟩ := child_cases hc
    rw [flatten_push, flatten_push]
    exact Near.ref ih hα

/-- Where no rule that is reached leaves itself behind, stacks have a bounded height. -/
theorem Near.exists_height [Finite ν] (h : Near live alts root Γ.flatten) (hne : [] ∉ Γ)
    (hgrow : ∀ A, Reached live alts root A → ¬ Leaves alts A A) :
    ∃ k, ∀ x, Reaches (expand alts) Γ x → x.length ≤ k := by
  refine Lib.exists_height (fun β₁ B β₂ heq hnull => ?_) hne
  exact bounded_of_good (fun _ _ hA hc => hA.corner hc) hgrow B (h β₁ B β₂ heq hnull.passable)

end Mallana.Lib
