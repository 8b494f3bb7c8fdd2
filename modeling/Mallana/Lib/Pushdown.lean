import Mathlib.Data.Fintype.Card
import Mathlib.Order.WellFounded
import Mallana.Lib.Search

/-!
# Context-free grammars on a stack

Grammars whose terminals stand for sets of letters, with their derivations. A stack of rests of alternatives is
taken apart from the top: a reference is replaced by each of its alternatives, until a terminal is on top
(`expand`). If no reference reaches itself from the left, this ends (`acc_expand`), and the stacks
found derive together what the first one does (`Reaches.derives`, `exists_reaches`).
-/

namespace Mallana.Lib

open List

/-- A symbol: a terminal, or a reference to a rule. -/
inductive GSym (τ ν : Type) where
  | term (t : τ)
  | ref (A : ν)

section Grammar
variable {T τ ν : Type} (mem : τ → T → Prop) (alts : ν → List (List (GSym τ ν)))

/-- A sequence of symbols derives a word. -/
inductive Derives : List (GSym τ ν) → List T → Prop where
  | nil : Derives [] []
  | term {t c β w} : mem t c → Derives β w → Derives (.term t :: β) (c :: w)
  | ref {A α β u v} : α ∈ alts A → Derives α u → Derives β v → Derives (.ref A :: β) (u ++ v)

/-- A sequence of symbols derives the empty word. -/
inductive Nullable : List (GSym τ ν) → Prop where
  | nil : Nullable []
  | ref {A α β} : α ∈ alts A → Nullable α → Nullable β → Nullable (.ref A :: β)

/-- A sequence can begin with a reference to `B`, behind references that derive the empty word. -/
inductive Begins : List (GSym τ ν) → ν → Prop where
  | here {B β} : Begins (.ref B :: β) B
  | skip {A α β B} : α ∈ alts A → Nullable alts α → Begins β B → Begins (.ref A :: β) B

/-- An alternative of `A` can begin with `B`. -/
def LeftCorner (A B : ν) : Prop := ∃ α ∈ alts A, Begins alts α B

def LeftRecursive : Prop := ∃ A, Relation.TransGen (LeftCorner alts) A A

def push {τ ν : Type} (β : List (GSym τ ν)) (Γ : List (List (GSym τ ν))) : List (List (GSym τ ν)) :=
  match β with
  | [] => Γ
  | _ => β :: Γ

/-- What is done with a stack: a reference on top is replaced by its alternatives. -/
def expand : List (List (GSym τ ν)) → Visit (List (List (GSym τ ν)))
  | [] => .emit
  | [] :: _ => .abort
  | (.term _ :: _) :: _ => .emit
  | (.ref A :: γ) :: Γ => .expand ((alts A).map fun α => push α (push γ Γ))

end Grammar

section Derivations
variable {T τ ν : Type} {mem : τ → T → Prop} {alts : ν → List (List (GSym τ ν))} {α β : List (GSym τ ν)}
  {Γ Δ : List (List (GSym τ ν))} {u v w : List T} {c : T} {t : τ} {A : ν}

lemma push_of_ne (h : β ≠ []) : push β Γ = β :: Γ := by
  cases β with
  | nil => exact absurd rfl h
  | cons x β => rfl

@[simp] lemma flatten_push : (push β Γ).flatten = β ++ Γ.flatten := by
  cases β <;> rfl

lemma mem_of_mem_push (h : [] ∈ push β Γ) : [] ∈ Γ := by
  cases β with
  | nil => exact h
  | cons x β => exact (mem_cons.1 h).resolve_left (by simp)

lemma Derives.append (h1 : Derives mem alts α u) (h2 : Derives mem alts β v) :
    Derives mem alts (α ++ β) (u ++ v) := by
  induction h1 with
  | nil => exact h2
  | term hc _ ih => exact .term hc ih
  | ref hα h _ _ ih =>
    rw [append_assoc]
    exact .ref hα h ih

lemma Derives.exists_append (h : Derives mem alts (α ++ β) w) :
    ∃ u v, w = u ++ v ∧ Derives mem alts α u ∧ Derives mem alts β v := by
  induction α generalizing w with
  | nil => exact ⟨[], w, rfl, .nil, h⟩
  | cons x α ih =>
    cases h with
    | term hc h =>
      obtain ⟨u, v, rfl, h1, h2⟩ := ih h
      exact ⟨_ :: u, v, rfl, .term hc h1, h2⟩
    | ref hα h h' =>
      obtain ⟨u, v, rfl, h1, h2⟩ := ih h'
      exact ⟨_ ++ u, v, (append_assoc _ _ _).symm, .ref hα h h1, h2⟩

lemma derives_ref : Derives mem alts (.ref A :: β) w ↔ ∃ α ∈ alts A, Derives mem alts (α ++ β) w := by
  constructor
  · intro h
    cases h with
    | ref hα h h' => exact ⟨_, hα, h.append h'⟩
  · rintro ⟨α, hα, h⟩
    obtain ⟨u, v, rfl, h1, h2⟩ := h.exists_append
    exact .ref hα h1 h2

lemma derives_term : Derives mem alts (.term t :: β) (c :: w) ↔ mem t c ∧ Derives mem alts β w := by
  constructor
  · intro h
    cases h with
    | term hc h => exact ⟨hc, h⟩
  · exact fun h => .term h.1 h.2

/-- A step puts an alternative of the reference on top in its place. -/
lemma child_cases (hc : Child (expand alts) Δ Γ) :
    ∃ A, ∃ α ∈ alts A, ∃ γ Γ', Γ = (.ref A :: γ) :: Γ' ∧ Δ = push α (push γ Γ') := by
  obtain ⟨l, hl, hmem⟩ := hc
  match Γ with
  | [] => cases hl
  | [] :: _ => cases hl
  | (.term _ :: _) :: _ => cases hl
  | (.ref A :: γ) :: Γ' =>
    cases hl
    obtain ⟨α, hα, rfl⟩ := mem_map.1 hmem
    exact ⟨A, α, hα, γ, Γ', rfl, rfl⟩

lemma Reaches.derives (h : Reaches (expand alts) Γ Δ) (hd : Derives mem alts Δ.flatten w) :
    Derives mem alts Γ.flatten w := by
  induction h with
  | refl => exact hd
  | tail _ hc ih =>
    obtain ⟨A, α, hα, γ, Γ', rfl, rfl⟩ := child_cases hc
    rw [flatten_push, flatten_push] at hd
    exact ih (derives_ref.2 ⟨α, hα, hd⟩)

lemma exists_reaches (hacc : Acc (Child (expand alts)) Γ) (hne : [] ∉ Γ) (hd : Derives mem alts Γ.flatten w) :
    ∃ Δ, Reaches (expand alts) Γ Δ ∧ expand alts Δ = .emit ∧ Derives mem alts Δ.flatten w := by
  induction hacc with
  | intro Γ _ ih =>
    match Γ with
    | [] => exact ⟨[], .refl, rfl, hd⟩
    | [] :: _ => exact absurd mem_cons_self hne
    | (.term t :: γ) :: Γ' => exact ⟨_, .refl, rfl, hd⟩
    | (.ref A :: γ) :: Γ' =>
      obtain ⟨α, hα, hd⟩ := derives_ref.1 hd
      have hc : Child (expand alts) (push α (push γ Γ')) ((.ref A :: γ) :: Γ') :=
        ⟨_, rfl, mem_map.2 ⟨α, hα, rfl⟩⟩
      have hne' : [] ∉ push α (push γ Γ') := fun hmem =>
        hne (mem_cons_of_mem _ (mem_of_mem_push (mem_of_mem_push hmem)))
      obtain ⟨Δ, hr, he, hd'⟩ := ih _ hc hne' (by rw [flatten_push, flatten_push]; exact hd)
      exact ⟨Δ, Relation.ReflTransGen.head hc hr, he, hd'⟩

def Occurs (alts : ν → List (List (GSym τ ν))) (Γ : List (List (GSym τ ν))) : Prop :=
  ∀ β ∈ Γ, ∀ x ∈ β, ∃ A, ∃ α ∈ alts A, x ∈ α

lemma Occurs.push (hα : ∀ x ∈ β, ∃ A, ∃ α ∈ alts A, x ∈ α) (h : Occurs alts Γ) : Occurs alts (push β Γ) := by
  cases β with
  | nil => exact h
  | cons x β => exact forall_mem_cons.2 ⟨hα, h⟩

lemma Occurs.reaches (h : Occurs alts Γ) (hr : Reaches (expand alts) Γ Δ) : Occurs alts Δ := by
  induction hr with
  | refl => exact h
  | tail _ hc ih =>
    obtain ⟨A, α, hα, γ, Γ', rfl, rfl⟩ := child_cases hc
    have hocc := forall_mem_cons.1 ih
    exact (Occurs.push (fun x hx => hocc.1 x (mem_cons_of_mem _ hx)) hocc.2).push fun x hx => ⟨A, α, hα, hx⟩

lemma exists_derives (h : ∀ x ∈ β, ∃ w, Derives mem alts [x] w) : ∃ w, Derives mem alts β w := by
  induction β with
  | nil => exact ⟨[], .nil⟩
  | cons x β ih =>
    obtain ⟨hx, hβ⟩ := forall_mem_cons.1 h
    obtain ⟨u, hu⟩ := hx
    obtain ⟨v, hv⟩ := ih hβ
    exact ⟨u ++ v, hu.append hv⟩

/-- A stack is taken apart in finitely many steps if the one below is, in case it is reached. -/
def Ends (alts : ν → List (List (GSym τ ν))) (β : List (GSym τ ν)) : Prop :=
  ∀ Γ, (Nullable alts β → Acc (Child (expand alts)) Γ) → Acc (Child (expand alts)) (push β Γ)

lemma ends_of_begins (h : ∀ B, Begins alts β B → ∀ α ∈ alts B, Ends alts α) : Ends alts β := by
  induction β with
  | nil => exact fun Γ hΓ => hΓ .nil
  | cons x β ih =>
    intro Γ hΓ
    cases x with
    | term t =>
      refine ⟨_, fun Δ hc => ?_⟩
      obtain ⟨l, hl, -⟩ := hc
      cases hl
    | ref B =>
      refine ⟨_, fun Δ hc => ?_⟩
      obtain ⟨l, hl, hmem⟩ := hc
      cases hl
      obtain ⟨α, hα, rfl⟩ := mem_map.1 hmem
      -- what is below is reached only if the alternative derives the empty word
      refine h B .here α hα (push β Γ) fun hnull => ?_
      exact ih (fun B' hB' => h B' (.skip hα hnull hB')) Γ fun hβ => hΓ (.ref hα hnull hβ)

lemma wellFounded_leftCorner [Finite ν] (h : ¬ LeftRecursive alts) :
    WellFounded fun B A => LeftCorner alts A B := by
  have : Std.Irrefl fun B A => Relation.TransGen (LeftCorner alts) A B := ⟨fun A hA => h ⟨A, hA⟩⟩
  have : IsTrans ν fun B A => Relation.TransGen (LeftCorner alts) A B := ⟨fun _ _ _ h1 h2 => h2.trans h1⟩
  exact Subrelation.wf (fun hAB => .single hAB)
    (Finite.wellFounded_of_trans_of_irrefl fun B A => Relation.TransGen (LeftCorner alts) A B)

/-- Without left recursion every stack is taken apart in finitely many steps. -/
theorem acc_expand [Finite ν] (h : ¬ LeftRecursive alts) (Γ : List (List (GSym τ ν))) :
    Acc (Child (expand alts)) Γ := by
  have hwf := wellFounded_leftCorner h
  have hends : ∀ A, ∀ α ∈ alts A, Ends alts α := by
    intro A
    induction A using hwf.induction with
    | _ A ih => exact fun α hα => ends_of_begins fun B hB => ih B ⟨α, hα, hB⟩
  induction Γ with
  | nil =>
    refine ⟨_, fun Δ hc => ?_⟩
    obtain ⟨l, hl, -⟩ := hc
    cases hl
  | cons β Γ ih =>
    cases β with
    | nil =>
      refine ⟨_, fun Δ hc => ?_⟩
      obtain ⟨l, hl, -⟩ := hc
      cases hl
    | cons x β =>
      have hβ : Ends alts (x :: β) := ends_of_begins fun B _ => hends B
      exact hβ Γ fun _ => ih

end Derivations

end Mallana.Lib
