import Mathlib.Data.List.GetD
import Mathlib.Data.List.OfFn
import Mallana.Grammar.Basic
import Mallana.Lib.Pushdown

/-!
# The grammar that rules denote

A context-free grammar whose terminals are character classes and tokens (`RuleSet`), and the arrays of elements that
stand for it (`RuleSet.rules`). A pointer into these arrays stands for the rest of an alternative (`Points`), a stack of
pointers for a stack of such rests. The functions of the engine do on pointers what `Lib.expand` does on
the grammar.
-/

namespace Mallana

open Lib List

/-- A character, or an inclusive range. -/
inductive CharItem where
  | one (c : UInt32)
  | range (a b : UInt32)
deriving DecidableEq

namespace CharItem

def has (c : UInt32) : CharItem → Bool
  | .one a => a == c
  | .range a b => decide (a ≤ c) && decide (c ≤ b)

def elems (type : GreType) : CharItem → List GrElement
  | .one a => [⟨type, a⟩]
  | .range a b => [⟨type, a⟩, ⟨.charRngUpper, b⟩]

end CharItem

/-- A character class: any character, or those of a list of items, or the others. -/
inductive CharClass where
  | any
  | chars (negated : Bool) (first : CharItem) (more : List CharItem)
deriving DecidableEq

namespace CharClass

def has (c : UInt32) : CharClass → Bool
  | .any => true
  | .chars negated first more => (first.has c || more.any (CharItem.has c)) != negated

def elems : CharClass → List GrElement
  | .any => [⟨.charAny, 0⟩]
  | .chars negated first more =>
    first.elems (if negated then .charNot else .char) ++ more.flatMap (CharItem.elems .charAlt)

end CharClass

/-- A terminal: a character class, or a token, or any other token. -/
inductive GrTerm where
  | cls (t : CharClass)
  | token (negated : Bool) (id : UInt32)
deriving DecidableEq

namespace GrTerm

/-- The code points of a terminal; a token is not made of code points. -/
def has (c : UInt32) : GrTerm → Bool
  | .cls t => t.has c
  | .token _ _ => false

def hasToken (id : UInt32) : GrTerm → Bool
  | .cls _ => false
  | .token negated id' => (id' == id) != negated

def elems : GrTerm → List GrElement
  | .cls t => t.elems
  | .token negated id => [⟨if negated then .tokenNot else .token, id⟩]

end GrTerm

/-- A symbol of a grammar with `n` rules. -/
abbrev GrSym (n : Nat) : Type := GSym GrTerm (Fin n)

namespace GrSym

def elems {n : Nat} : GrSym n → List GrElement
  | .term t => t.elems
  | .ref A => [⟨.ruleRef, UInt32.ofNat A⟩]

end GrSym

/-- A grammar: the alternatives of each rule, at least one. Rules have 32-bit indices. -/
structure RuleSet (n : Nat) where
  alts : Fin n → List (List (GrSym n))
  nonempty : ∀ A, alts A ≠ []
  small : n ≤ 4294967296

namespace RuleSet

lemma one_small : 1 ≤ 4294967296 := by decide

variable {n : Nat}

def seqElems (α : List (GrSym n)) : List GrElement := α.flatMap GrSym.elems

def ruleElems : List (List (GrSym n)) → GrRule
  | [] => [⟨.end, 0⟩]
  | [α] => seqElems α ++ [⟨.end, 0⟩]
  | α :: αs => seqElems α ++ ⟨.alt, 0⟩ :: ruleElems αs

def rules (G : RuleSet n) : GrRules := List.ofFn fun A => ruleElems (G.alts A)

def Derives (G : RuleSet n) (β : List (GrSym n)) (w : List UInt32) : Prop :=
  Lib.Derives (fun t c => GrTerm.has c t = true) G.alts β w

def Productive (G : RuleSet n) : Prop := ∀ A, ∃ u, G.Derives [.ref A] u

def Inhabited (G : RuleSet n) : Prop := ∀ A, ∀ α ∈ G.alts A, ∀ t, .term t ∈ α → ∃ c, GrTerm.has c t = true

end RuleSet

namespace Grammar

/-- The pointer is at the rest `β` of an alternative. -/
def Points {n : Nat} (rules : GrRules) (p : GrPos) (β : List (GrSym n)) : Prop :=
  ∃ e es, elems rules p = RuleSet.seqElems β ++ e :: es ∧ isEndOfSequence e = true

def Stands {n : Nat} (rules : GrRules) (stack : GrStack) (Γ : List (List (GrSym n))) : Prop :=
  List.Forall₂ (fun p β => Points rules p β ∧ β ≠ []) stack Γ

section Elements
variable {n : Nat} {rules : GrRules} {p : GrPos} {β : List (GrSym n)} {x : GrSym n}

def StartsChar (e : GrElement) : Prop := e.type = .char ∨ e.type = .charNot ∨ e.type = .charAny

def IsToken (e : GrElement) : Prop := e.type = .token ∨ e.type = .tokenNot

/-- The first element of a symbol starts a character class, or is a token or a reference. -/
def Starts (e : GrElement) : Prop := StartsChar e ∨ IsToken e ∨ e.type = .ruleRef

lemma CharItem.elems_eq (type : GreType) (i : CharItem) : ∃ v es, i.elems type = ⟨type, v⟩ :: es := by
  cases i with
  | one a => exact ⟨a, [], rfl⟩
  | range a b => exact ⟨a, _, rfl⟩

lemma exists_char (t : CharClass) : ∃ e es, t.elems = e :: es ∧ StartsChar e := by
  cases t with
  | any => exact ⟨_, [], rfl, .inr (.inr rfl)⟩
  | chars negated first more =>
    obtain ⟨v, es, hes⟩ := CharItem.elems_eq (if negated then .charNot else .char) first
    refine ⟨⟨if negated then .charNot else .char, v⟩, es ++ more.flatMap (CharItem.elems .charAlt), ?_, ?_⟩
    · rw [CharClass.elems, hes]
      rfl
    · cases negated with
      | false => exact .inl rfl
      | true => exact .inr (.inl rfl)

lemma isToken (negated : Bool) (id : UInt32) : IsToken ⟨if negated then .tokenNot else .token, id⟩ := by
  cases negated with
  | false => exact .inl rfl
  | true => exact .inr rfl

lemma exists_starts (x : GrSym n) : ∃ e es, x.elems = e :: es ∧ Starts e := by
  cases x with
  | ref A => exact ⟨_, [], rfl, .inr (.inr rfl)⟩
  | term t =>
    cases t with
    | cls t =>
      obtain ⟨e, es, ht, h⟩ := exists_char t
      exact ⟨e, es, ht, .inl h⟩
    | token negated id => exact ⟨_, [], rfl, .inr (.inl (isToken negated id))⟩

lemma Points.tail (h : Points rules p (x :: β)) : Points rules { p with idx := p.idx + x.elems.length } β := by
  obtain ⟨e, es, heq, he⟩ := h
  refine ⟨e, es, ?_, he⟩
  unfold elems at heq ⊢
  dsimp only
  rw [← drop_drop, heq, RuleSet.seqElems, flatMap_cons, append_assoc, drop_left]
  rfl

lemma Starts.not_end {e : GrElement} (h : Starts e) : isEndOfSequence e = false := by
  unfold isEndOfSequence
  obtain (h | h | h) | (h | h) | h := h <;> rw [h]

lemma Points.elem_nil (h : Points rules p ([] : List (GrSym n))) : isEndOfSequence (elem rules p) = true := by
  obtain ⟨e, es, heq, he⟩ := h
  unfold elem
  rw [heq]
  exact he

lemma Points.elem_cons (h : Points rules p (x :: β)) {e : GrElement} {es : List GrElement} (hx : x.elems = e :: es) :
    elem rules p = e := by
  obtain ⟨e', es', heq, -⟩ := h
  unfold elem
  rw [heq, RuleSet.seqElems, flatMap_cons, hx]
  rfl

lemma stands_pushPos {Γ : List (List (GrSym n))} {stack : GrStack} (h : Points rules p β) (hs : Stands rules stack Γ) :
    Stands rules (pushPos rules p stack) (push β Γ) := by
  unfold pushPos
  cases β with
  | nil =>
    rw [if_pos h.elem_nil]
    exact hs
  | cons x β =>
    obtain ⟨e, es, hx, he⟩ := exists_starts x
    rw [h.elem_cons hx, he.not_end]
    exact .cons ⟨h, cons_ne_nil x β⟩ hs

end Elements

section Match
variable {n : Nat} {rules : GrRules} {p : GrPos} {β : List (GrSym n)} {chr : UInt32}

def Ends (e : GrElement) : Prop := e.type ≠ .charAlt ∧ e.type ≠ .charRngUpper

lemma Starts.ends {e : GrElement} (h : Starts e) : Ends e := by
  unfold Ends
  obtain (h | h | h) | (h | h) | h := h <;> rw [h] <;> exact ⟨by decide, by decide⟩

lemma ends_of_isEnd {e : GrElement} (h : isEndOfSequence e = true) : Ends e := by
  unfold Ends
  unfold isEndOfSequence at h
  split at h
  · rename_i ht
    rw [ht]
    exact ⟨by decide, by decide⟩
  · rename_i ht
    rw [ht]
    exact ⟨by decide, by decide⟩
  · cases h

lemma exists_ends (β : List (GrSym n)) {e : GrElement} (es : List GrElement) (he : isEndOfSequence e = true) :
    ∃ e' es', RuleSet.seqElems β ++ e :: es = e' :: es' ∧ Ends e' := by
  cases β with
  | nil => exact ⟨e, es, rfl, ends_of_isEnd he⟩
  | cons x β =>
    obtain ⟨e', es', hx, hs⟩ := exists_starts x
    refine ⟨e', es' ++ (RuleSet.seqElems β ++ e :: es), ?_, hs.ends⟩
    rw [RuleSet.seqElems, flatMap_cons, hx, append_assoc]
    rfl

lemma matchLoop_item (i : CharItem) {type : GreType} (ht : type ≠ .charAny) {e : GrElement} {es : List GrElement}
    (he : e.type ≠ .charRngUpper) (found : Bool) (k : Nat) : matchLoop chr (i.elems type ++ e :: es) found k =
      if e.type = .charAlt then matchLoop chr (e :: es) (found || i.has chr) (k + (i.elems type).length)
      else (found || i.has chr, k + (i.elems type).length) := by
  cases i with
  | one a =>
    show matchLoop chr (⟨type, a⟩ :: e :: es) found k = _
    rw [matchLoop, if_neg he, if_neg ht]
    rfl
  | range a b =>
    show matchLoop chr (⟨type, a⟩ :: ⟨.charRngUpper, b⟩ :: e :: es) found k = _
    rw [matchLoop, if_pos rfl]
    simp only [head?_cons, Option.any_some, decide_eq_true_eq]
    rfl

lemma matchLoop_items (more : List CharItem) {e : GrElement} (es : List GrElement) (he : Ends e) (first : CharItem)
    {type : GreType} (ht : type ≠ .charAny) (found : Bool) (k : Nat) :
    matchLoop chr (first.elems type ++ (more.flatMap (CharItem.elems .charAlt) ++ e :: es)) found k =
      (found || (first.has chr || more.any (CharItem.has chr)),
        k + (first.elems type ++ more.flatMap (CharItem.elems .charAlt)).length) := by
  induction more generalizing first type found k with
  | nil =>
    rw [flatMap_nil, nil_append, matchLoop_item first ht he.2, if_neg he.1, append_nil, any_nil, Bool.or_false]
  | cons i more ih =>
    obtain ⟨v, es', hes⟩ := CharItem.elems_eq .charAlt i
    have halt : GreType.charAlt ≠ .charAny := by decide
    have hi := ih i halt (found || first.has chr) (k + (first.elems type).length)
    rw [flatMap_cons, append_assoc, hes, cons_append, matchLoop_item first ht (by simp),
      if_pos rfl, ← cons_append, ← hes, hi]
    simp only [any_cons, length_append, Bool.or_assoc, add_assoc]

/-- The elements of a class stand in front of an element that ends it. -/
lemma Points.elems_cls {t : CharClass} (h : Points rules p (.term (.cls t) :: β)) :
    ∃ e es, Ends e ∧ elems rules p = t.elems ++ e :: es := by
  obtain ⟨e, es, heq, he⟩ := h
  obtain ⟨e', es', heq', he'⟩ := exists_ends β es he
  refine ⟨e', es', he', ?_⟩
  rw [heq, ← heq', RuleSet.seqElems, flatMap_cons, append_assoc]
  rfl

lemma Points.matchChar {t : CharClass} (h : Points rules p (.term (.cls t) :: β)) (chr : UInt32) :
    matchChar rules p chr = some (t.has chr, { p with idx := p.idx + t.elems.length }) := by
  obtain ⟨e', es', he', helems⟩ := h.elems_cls
  unfold Grammar.matchChar
  dsimp only
  cases t with
  | any =>
    have helem : elem rules p = ⟨.charAny, 0⟩ := by
      unfold elem
      rw [helems]
      rfl
    have hloop : matchLoop chr (elems rules p) false 0 = (true, 1) := by
      rw [helems]
      show matchLoop chr (⟨.charAny, 0⟩ :: e' :: es') false 0 = _
      rw [matchLoop, if_neg he'.2, if_pos rfl, if_neg he'.1]
    rw [hloop, helem]
    rfl
  | chars negated first more =>
    obtain ⟨v, es₁, hes₁⟩ := CharItem.elems_eq (if negated then .charNot else .char) first
    have helem : elem rules p = ⟨if negated then .charNot else .char, v⟩ := by
      unfold elem
      rw [helems, CharClass.elems, hes₁]
      rfl
    have hloop : matchLoop chr (elems rules p) false 0 =
        (first.has chr || more.any (CharItem.has chr), (CharClass.elems (.chars negated first more)).length) := by
      rw [helems, CharClass.elems, append_assoc,
        matchLoop_items more es' he' first (by cases negated <;> decide), Bool.false_or, zero_add]
    rw [hloop, helem]
    cases negated with
    | false => simp [CharClass.has]
    | true => simp [CharClass.has]

end Match

section Stacks
variable {n : Nat} {G : RuleSet n} {A : Fin n} {stack : GrStack} {Γ : List (List (GrSym n))}

lemma isEnd_of_mem_elems {x : GrSym n} {e : GrElement} (h : e ∈ x.elems) : isEndOfSequence e = false := by
  have hitem : ∀ (i : CharItem) {type : GreType}, isEndOfSequence ⟨type, 0⟩ = false →
      ∀ e ∈ i.elems type, isEndOfSequence e = false := by
    intro i type ht e he
    cases i with
    | one a =>
      rw [mem_singleton.1 he]
      exact ht
    | range a b =>
      obtain rfl | he := mem_cons.1 he
      · exact ht
      · rw [mem_singleton.1 he]
        rfl
  cases x with
  | ref A =>
    rw [mem_singleton.1 h]
    rfl
  | term t =>
    match t with
    | .cls .any =>
      rw [mem_singleton.1 h]
      rfl
    | .cls (.chars negated first more) =>
      obtain h | h := mem_append.1 h
      · exact hitem first (by cases negated <;> rfl) e h
      · obtain ⟨i, -, h⟩ := mem_flatMap.1 h
        exact hitem i rfl e h
    | .token negated id =>
      rw [mem_singleton.1 h]
      cases negated <;> rfl

lemma scanAlts_append {es : List GrElement} (h : ∀ e ∈ es, isEndOfSequence e = false) (i : Nat)
    (rest : List GrElement) : scanAlts i (es ++ rest) = scanAlts (i + es.length) rest := by
  induction es generalizing i with
  | nil => rfl
  | cons e es ih =>
    simp only [mem_cons, forall_eq_or_imp] at h
    have hstep : scanAlts i (e :: es ++ rest) = scanAlts (i + 1) (es ++ rest) := by
      rw [cons_append, scanAlts]
      have he := h.1
      unfold isEndOfSequence at he
      split
      · rename_i ht
        rw [ht] at he
        cases he
      · rename_i ht
        rw [ht] at he
        cases he
      · rfl
    rw [hstep, ih h.2, length_cons]
    congr 1
    omega

lemma isEnd_of_mem_seqElems {α : List (GrSym n)} {e : GrElement} (h : e ∈ RuleSet.seqElems α) :
    isEndOfSequence e = false := by
  obtain ⟨x, -, hx⟩ := mem_flatMap.1 h
  exact isEnd_of_mem_elems hx

lemma points_alternates {rules : GrRules} {r : Nat} {αs : List (List (GrSym n))} (hne : αs ≠ []) {i : Nat}
    (h : (rules.getD r []).drop i = RuleSet.ruleElems αs) :
    List.Forall₂ (fun j α => Points rules ⟨r, j⟩ α) (i :: scanAlts i (RuleSet.ruleElems αs)) αs := by
  induction αs generalizing i with
  | nil => exact absurd rfl hne
  | cons α αs ih =>
    cases αs with
    | nil =>
      have hscan : scanAlts i (RuleSet.ruleElems [α]) = [] := by
        rw [RuleSet.ruleElems, scanAlts_append fun e he => isEnd_of_mem_seqElems he]
        rfl
      rw [hscan]
      exact .cons ⟨_, [], h, rfl⟩ .nil
    | cons α' αs =>
      have hdrop : (rules.getD r []).drop (i + (RuleSet.seqElems α).length + 1) = RuleSet.ruleElems (α' :: αs) := by
        rw [add_assoc, ← drop_drop, h, RuleSet.ruleElems, ← drop_drop, drop_left]
        · rfl
        · simp
      have hscan : scanAlts i (RuleSet.ruleElems (α :: α' :: αs)) = (i + (RuleSet.seqElems α).length + 1) ::
            scanAlts (i + (RuleSet.seqElems α).length + 1) (RuleSet.ruleElems (α' :: αs)) := by
        rw [RuleSet.ruleElems, scanAlts_append fun e he => isEnd_of_mem_seqElems he]
        · rfl
        · simp
      rw [hscan]
      refine .cons ⟨⟨.alt, 0⟩, RuleSet.ruleElems (α' :: αs), ?_, rfl⟩ (ih (by simp) hdrop)
      unfold elems
      rw [h, RuleSet.ruleElems]
      simp

lemma getD_rules (G : RuleSet n) (A : Fin n) : G.rules.getD A [] = RuleSet.ruleElems (G.alts A) := by
  unfold RuleSet.rules
  rw [getD_eq_getElem _ _ (by rw [length_ofFn]; exact A.isLt), List.getElem_ofFn]

lemma points_rule (G : RuleSet n) (A : Fin n) :
    List.Forall₂ (fun j α => Points G.rules ⟨A, j⟩ α) (alternates (G.rules.getD A [])) (G.alts A) := by
  rw [getD_rules]
  unfold alternates
  exact points_alternates (G.nonempty A) (by rw [getD_rules]; rfl)

lemma toNat_ofNat (G : RuleSet n) (A : Fin n) : (UInt32.ofNat A).toNat = A := by
  have hsmall := G.small
  rw [UInt32.toNat_ofNat']
  exact Nat.mod_eq_of_lt (by have := A.isLt; omega)

lemma sameVisit (h : Stands G.rules stack Γ) :
    SameVisit (Stands G.rules) (visit G.rules stack) (expand G.alts Γ) := by
  cases h with
  | nil => exact .emit
  | @cons p β stack Γ hp hs =>
    obtain ⟨hp, hne⟩ := hp
    match β, hne with
    | .term t :: β, _ =>
      have hvisit : visit G.rules (p :: stack) = .emit := by
        cases t with
        | cls t =>
          obtain ⟨e, es, hx, hchar⟩ := exists_char t
          have helem : elem G.rules p = e := hp.elem_cons hx
          unfold visit
          obtain ht | ht | ht := hchar
          · simp only [helem, ht]
          · simp only [helem, ht]
          · simp only [helem, ht]
        | token negated id =>
          have helem := hp.elem_cons rfl
          unfold visit
          obtain ht | ht := isToken negated id
          · simp only [helem, ht]
          · simp only [helem, ht]
      rw [hvisit]
      exact .emit
    | .ref A :: β, _ =>
      have helem : elem G.rules p = ⟨.ruleRef, UInt32.ofNat A⟩ := hp.elem_cons rfl
      have hvisit : visit G.rules (p :: stack) = .expand ((alternates (G.rules.getD A [])).map fun i =>
          pushPos G.rules ⟨A, i⟩ (pushPos G.rules { p with idx := p.idx + 1 } stack)) := by
        unfold visit
        simp only [helem, toNat_ofNat G]
      rw [hvisit]
      refine .expand ?_
      rw [forall₂_map_left_iff, forall₂_map_right_iff]
      refine (points_rule G A).imp fun j α hα => ?_
      exact stands_pushPos hα (stands_pushPos hp.tail hs)

end Stacks

end Grammar

end Mallana
