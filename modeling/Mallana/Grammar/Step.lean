import Mallana.Grammar.Detect
import Mallana.Grammar.Token

/-!
# Steps of the engine

What `llama_grammar_accept` and `llama_grammar_accept_token` do with a set of stacks, given that
`llama_grammar_advance_stack` ends where they call it (`Advances`). A property of stacks that is kept by such a step
(`Keeps`) holds along every run, and no call in the run fails to end.
-/

namespace Mallana

open Lib List

namespace Grammar

section Advance
variable {n : Nat} {G : RuleSet n} {stack x : GrStack} {Γ : List (List (GrSym n))} {out : List GrStack}

/-- Advancing the stack ends, and finds what can be reached from it. -/
def Advances (rules : GrRules) (stack : GrStack) : Prop :=
  ∀ out, ∃ N out', (∀ fuel, N ≤ fuel → advanceStack fuel rules stack out = some out') ∧
    ∀ x, x ∈ out' ↔ x ∈ out ∨ visit rules x = .emit ∧ Reaches (visit rules) stack x

lemma advances_of_not_leftRecursive (hleft : ¬ LeftRecursive G.alts) (h : Stands G.rules stack Γ) :
    Advances G.rules stack :=
  (searchable_of_sim (fun _ _ => sameVisit) h (acc_expand hleft Γ)).search_spec

def afterChr (rules : GrRules) (chr : UInt32) : GrStack → Option GrStack
  | [] => none
  | p :: stack => (matchChar rules p chr).bind fun m => if m.1 then some (pushPos rules m.2 stack) else none

lemma Points.matchChar_token {negated : Bool} {id : UInt32} {p : GrPos} {β : List (GrSym n)}
    (h : Points G.rules p (.term (.token negated id) :: β)) (chr : UInt32) : Grammar.matchChar G.rules p chr = none := by
  have helem := h.elem_cons rfl
  unfold Grammar.matchChar
  dsimp only
  obtain ht | ht := isToken negated id <;> rw [helem, ht] <;> rfl

lemma foldlM_advance {α : Type} {f : Nat → List GrStack → α → Option (List GrStack)} {P : α → GrStack → Prop}
    (l : List α) (h : ∀ a ∈ l, ∀ out, ∃ N out', (∀ fuel, N ≤ fuel → f fuel out a = some out') ∧
      ∀ x, x ∈ out' ↔ x ∈ out ∨ P a x) (out : List GrStack) :
    ∃ N out', (∀ fuel, N ≤ fuel → l.foldlM (f fuel) out = some out') ∧
      ∀ x, x ∈ out' ↔ x ∈ out ∨ ∃ a ∈ l, P a x := by
  induction l generalizing out with
  | nil => exact ⟨0, out, fun _ _ => rfl, fun x => by simp⟩
  | cons a l ih =>
    simp only [mem_cons, forall_eq_or_imp] at h
    obtain ⟨N₁, out₁, hrun₁, hmem₁⟩ := h.1 out
    obtain ⟨N₂, out₂, hrun₂, hmem₂⟩ := ih h.2 out₁
    refine ⟨max N₁ N₂, out₂, fun fuel hle => ?_, fun x => ?_⟩
    · rw [foldlM_cons, hrun₁ fuel (by omega)]
      exact hrun₂ fuel (by omega)
    · rw [hmem₂, hmem₁, or_assoc]
      simp

lemma Stands.afterChr {t : GrTerm} {β : List (GrSym n)} (h : Stands G.rules stack ((.term t :: β) :: Γ))
    (chr : UInt32) : (t.has chr = false → afterChr G.rules chr stack = none) ∧
      (t.has chr = true → ∃ s, afterChr G.rules chr stack = some s ∧ Stands G.rules s (push β Γ)) := by
  cases h with
  | @cons p _ stack _ hp hs =>
    cases t with
    | cls t =>
      have hmatch := hp.1.matchChar chr
      refine ⟨fun hno => ?_, fun hyes => ?_⟩
      · rw [Grammar.afterChr, hmatch, Option.bind_some, show t.has chr = false from hno]
        rfl
      · refine ⟨_, ?_, stands_pushPos hp.1.tail hs⟩
        rw [Grammar.afterChr, hmatch, Option.bind_some, show t.has chr = true from hyes]
        rfl
    | token negated id =>
      refine ⟨fun _ => ?_, fun hyes => by cases hyes⟩
      rw [Grammar.afterChr, hp.1.matchChar_token]
      rfl

lemma Stands.cases_emit (h : Stands G.rules stack Γ) (he : visit G.rules stack = .emit) :
    Γ = [] ∨ ∃ t β Γ', Γ = (.term t :: β) :: Γ' := by
  have he' := (sameVisit h).emit_iff.1 he
  match Γ with
  | [] => exact .inl rfl
  | [] :: _ => cases he'
  | (.term t :: β) :: Γ' => exact .inr ⟨t, β, Γ', rfl⟩
  | (.ref A :: β) :: Γ' => cases he'

lemma acceptChr_spec (h : Stands G.rules stack Γ) (he : visit G.rules stack = .emit) (chr : UInt32)
    (hadv : ∀ s ∈ afterChr G.rules chr stack, Advances G.rules s) (out : List GrStack) :
    ∃ N out', (∀ fuel, N ≤ fuel → acceptChr fuel G.rules chr out stack = some out') ∧
      ∀ x, x ∈ out' ↔ x ∈ out ∨ ∃ s ∈ Grammar.afterChr G.rules chr stack,
        visit G.rules x = .emit ∧ Reaches (visit G.rules) s x := by
  obtain rfl | ⟨t, β, Γ, rfl⟩ := h.cases_emit he
  · cases h
    exact ⟨0, out, fun _ _ => rfl, fun x => by simp [Grammar.afterChr]⟩
  cases h with
  | @cons p _ stack _ hp hs =>
    cases t with
    | token negated id =>
      have htoken : (elem G.rules p).type = .token ∨ (elem G.rules p).type = .tokenNot := by
        rw [hp.1.elem_cons rfl]
        exact isToken negated id
      refine ⟨0, out, fun fuel _ => ?_, fun x => ?_⟩
      · rw [acceptChr, if_pos htoken]
      · rw [Grammar.afterChr, hp.1.matchChar_token]
        simp
    | cls t =>
      have htoken : ¬ ((elem G.rules p).type = .token ∨ (elem G.rules p).type = .tokenNot) := by
        obtain ⟨e, es, hx, hchar⟩ := exists_char t
        rw [show elem G.rules p = e from hp.1.elem_cons hx]
        obtain ht | ht | ht := hchar <;> rw [ht] <;> decide
      have haccept : ∀ fuel, acceptChr fuel G.rules chr out (p :: stack) = if t.has chr then
            advanceStack fuel G.rules (pushPos G.rules { p with idx := p.idx + t.elems.length } stack) out
          else some out := by
        intro fuel
        rw [acceptChr, if_neg htoken, hp.1.matchChar chr]
        rfl
      have hafter : Grammar.afterChr G.rules chr (p :: stack) =
          if t.has chr then some (pushPos G.rules { p with idx := p.idx + t.elems.length } stack) else none := by
        rw [Grammar.afterChr, hp.1.matchChar chr]
        rfl
      cases hhas : t.has chr with
      | false =>
        refine ⟨0, out, fun fuel _ => ?_, fun x => ?_⟩
        · rw [haccept, hhas]
          rfl
        · rw [hafter, hhas]
          simp
      | true =>
        rw [hafter, hhas] at hadv
        obtain ⟨N, out', hrun, hmem⟩ := hadv _ rfl out
        refine ⟨N, out', fun fuel hle => ?_, fun x => ?_⟩
        · rw [haccept, hhas]
          exact hrun fuel hle
        · rw [hafter, hhas, hmem]
          simp

end Advance

def afterToken (rules : GrRules) (token : UInt32) : GrStack → Option GrStack
  | [] => none
  | p :: stack =>
    if matchToken (elem rules p) token = some true then some (pushPos rules { p with idx := p.idx + 1 } stack) else none

def Survives (rules : GrRules) : List UInt32 → GrStack → GrStack → Prop
  | [], s, x => x = s
  | chr :: chrs, s, x => ∃ s' ∈ afterChr rules chr s, ∃ y, visit rules y = .emit ∧ Reaches (visit rules) s' y ∧
      Survives rules chrs y x

/-- The property of stacks is kept by the steps of the engine, which end. -/
def Keeps {n : Nat} (G : RuleSet n) (I : GrStack → Prop) : Prop :=
  ∀ s, I s → visit G.rules s = .emit ∧ (∃ Γ : List (List (GrSym n)), Stands G.rules s Γ) ∧
    ∀ s', (∃ chr, s' ∈ afterChr G.rules chr s) ∨ (∃ token, s' ∈ afterToken G.rules token s) →
      Advances G.rules s' ∧ ∀ x, visit G.rules x = .emit → Reaches (visit G.rules) s' x → I x

section Tokens
variable {n : Nat} {G : RuleSet n} {I : GrStack → Prop} {stack : GrStack}

lemma Stands.token_or {Γ : List (List (GrSym n))} {p : GrPos} (h : Stands G.rules (p :: stack) Γ)
    (he : visit G.rules (p :: stack) = .emit) : (∃ negated id β Γ', Γ = (.term (.token negated id) :: β) :: Γ' ∧
        elem G.rules p = ⟨if negated then .tokenNot else .token, id⟩ ∧
        Points G.rules p (.term (.token negated id) :: β) ∧ Stands G.rules stack Γ') ∨
      (∃ t β Γ', Γ = (.term (.cls t) :: β) :: Γ' ∧ Points G.rules p (.term (.cls t) :: β) ∧
        Stands G.rules stack Γ' ∧ ¬ ((elem G.rules p).type = .token ∨ (elem G.rules p).type = .tokenNot)) := by
  obtain rfl | ⟨t, β, Γ', rfl⟩ := h.cases_emit he
  · cases h
  cases h with
  | cons hp hs =>
    cases t with
    | token negated id => exact .inl ⟨negated, id, β, Γ', rfl, hp.1.elem_cons rfl, hp.1, hs⟩
    | cls t =>
      refine .inr ⟨t, β, Γ', rfl, hp.1, hs, ?_⟩
      obtain ⟨e, es, hx, hchar⟩ := exists_char t
      rw [show elem G.rules p = e from hp.1.elem_cons hx]
      obtain ht | ht | ht := hchar <;> rw [ht] <;> decide

lemma matchToken_token (negated : Bool) (id token : UInt32) :
    matchToken ⟨if negated then .tokenNot else .token, id⟩ token = some (GrTerm.hasToken token (.token negated id)) := by
  cases negated with
  | false => simp [matchToken, GrTerm.hasToken]
  | true => simp [matchToken, GrTerm.hasToken, bne]

lemma accept_spec (hI : Keeps G I) (chr : UInt32) (l : List GrStack) (hl : ∀ s ∈ l, I s) :
    ∃ N out, (∀ fuel, N ≤ fuel → l.foldlM (acceptChr fuel G.rules chr) [] = some out) ∧
      ∀ x, x ∈ out ↔ ∃ s ∈ l, ∃ s' ∈ afterChr G.rules chr s, visit G.rules x = .emit ∧ Reaches (visit G.rules) s' x := by
  obtain ⟨N, out, hrun, hmem⟩ := foldlM_advance l (fun s hs out => by
    obtain ⟨he, ⟨Γ, hΓ⟩, hstep⟩ := hI s (hl s hs)
    exact acceptChr_spec hΓ he chr (fun s' hs' => (hstep s' (.inl ⟨chr, hs'⟩)).1) out) []
  refine ⟨N, out, hrun, fun x => ?_⟩
  rw [hmem, or_iff_right not_mem_nil]

lemma accept_keeps (hI : Keeps G I) {chr : UInt32} {s s' x : GrStack} (hs : I s) (hs' : s' ∈ afterChr G.rules chr s)
    (he : visit G.rules x = .emit) (hr : Reaches (visit G.rules) s' x) : I x :=
  ((hI s hs).2.2 s' (.inl ⟨chr, hs'⟩)).2 x he hr

lemma Survives.keeps (hI : Keeps G I) {chrs : List UInt32} {s x : GrStack} (hs : I s)
    (h : Survives G.rules chrs s x) : I x := by
  induction chrs generalizing s with
  | nil =>
    rw [show x = s from h]
    exact hs
  | cons chr chrs ih =>
    obtain ⟨s', hs', y, he, hr, hy⟩ := h
    exact ih (accept_keeps hI hs hs' he hr) hy

lemma survivors_spec (hI : Keeps G I) (chrs : List UInt32) (l : List GrStack) (hl : ∀ s ∈ l, I s) :
    ∃ N out, (∀ fuel, N ≤ fuel → chrs.foldlM
        (fun (current : List GrStack) chr => current.foldlM (acceptChr fuel G.rules chr) []) l = some out) ∧
      ∀ x, x ∈ out ↔ ∃ s ∈ l, Survives G.rules chrs s x := by
  induction chrs generalizing l with
  | nil => exact ⟨0, l, fun _ _ => rfl, fun x => by simp [Survives]⟩
  | cons chr chrs ih =>
    obtain ⟨N₁, l₁, hrun₁, hmem₁⟩ := accept_spec hI chr l hl
    have hl₁ : ∀ s ∈ l₁, I s := by
      intro x hx
      obtain ⟨s, hs, s', hs', he, hr⟩ := (hmem₁ x).1 hx
      exact accept_keeps hI (hl s hs) hs' he hr
    obtain ⟨N₂, out, hrun₂, hmem₂⟩ := ih l₁ hl₁
    refine ⟨max N₁ N₂, out, fun fuel hle => ?_, fun x => ?_⟩
    · rw [foldlM_cons, hrun₁ fuel (by omega)]
      exact hrun₂ fuel (by omega)
    · rw [hmem₂]
      constructor
      · rintro ⟨y, hy, hx⟩
        obtain ⟨s, hs, s', hs', he, hr⟩ := (hmem₁ y).1 hy
        exact ⟨s, hs, s', hs', y, he, hr, hx⟩
      · rintro ⟨s, hs, s', hs', y, he, hr, hx⟩
        exact ⟨y, (hmem₁ y).2 ⟨s, hs, s', hs', he, hr⟩, hx⟩

/-- The stacks that a stack leaves after a token with the given code points. -/
def TokenLeaves (rules : GrRules) (token : UInt32) (chrs : List UInt32) (s x : GrStack) : Prop :=
  (∃ s' ∈ afterToken rules token s, visit rules x = .emit ∧ Reaches (visit rules) s' x) ∨
    (∃ p rest, s = p :: rest ∧ ¬ ((elem rules p).type = .token ∨ (elem rules p).type = .tokenNot)) ∧
      Survives rules chrs s x

lemma mem_foldl_insert (l out : List GrStack) (x : GrStack) :
    x ∈ l.foldl (fun out s => if s ∈ out then out else out ++ [s]) out ↔ x ∈ out ∨ x ∈ l := by
  induction l generalizing out with
  | nil => simp
  | cons s l ih =>
    rw [foldl_cons, ih]
    split
    · rename_i hs
      simp only [mem_cons]
      constructor
      · rintro (h | h)
        · exact .inl h
        · exact .inr (.inr h)
      · rintro (h | rfl | h)
        · exact .inl h
        · exact .inl hs
        · exact .inr h
    · simp only [mem_append, mem_singleton, mem_cons, not_mem_nil, or_false, or_assoc]

lemma acceptTokenStack_spec (hI : Keeps G I) (token : UInt32) (chrs : List UInt32) (hs : I stack)
    (out : List GrStack) :
    ∃ N out', (∀ fuel, N ≤ fuel → LlamaGrammar.acceptTokenStack fuel G.rules token chrs out stack = some out') ∧
      ∀ x, x ∈ out' ↔ x ∈ out ∨ TokenLeaves G.rules token chrs stack x := by
  cases stack with
  | nil => exact ⟨0, out, fun _ _ => rfl, fun x => by simp [TokenLeaves, afterToken]⟩
  | cons p rest =>
    obtain ⟨he, ⟨Γ, hΓ⟩, hstep⟩ := hI _ hs
    obtain ⟨negated, id, β, Γ', rfl, helem, -, -⟩ | ⟨t, β, Γ', rfl, hp, -, hno⟩ := hΓ.token_or he
    · have htoken : (elem G.rules p).type = .token ∨ (elem G.rules p).type = .tokenNot := by
        rw [helem]
        exact isToken negated id
      have hleaves : ∀ x, TokenLeaves G.rules token chrs (p :: rest) x ↔
          ∃ s' ∈ afterToken G.rules token (p :: rest), visit G.rules x = .emit ∧ Reaches (visit G.rules) s' x := by
        intro x
        refine ⟨fun h => h.elim (fun h => h) ?_, .inl⟩
        rintro ⟨⟨p', rest', heq, hno⟩, -⟩
        cases heq
        exact absurd htoken hno
      by_cases hm : matchToken (elem G.rules p) token = some true
      · have hafter : afterToken G.rules token (p :: rest) =
            some (pushPos G.rules { p with idx := p.idx + 1 } rest) := by rw [afterToken, if_pos hm]
        obtain ⟨N, out', hrun, hmem⟩ := (hstep _ (.inr ⟨token, hafter⟩)).1 out
        refine ⟨N, out', fun fuel hle => ?_, fun x => ?_⟩
        · rw [LlamaGrammar.acceptTokenStack, if_pos htoken, if_pos hm]
          exact hrun fuel hle
        · rw [hmem, hleaves, hafter]
          simp
      · refine ⟨0, out, fun fuel _ => ?_, fun x => ?_⟩
        · rw [LlamaGrammar.acceptTokenStack, if_pos htoken, if_neg hm]
        · rw [hleaves, afterToken, if_neg hm]
          simp
    · have hafter : afterToken G.rules token (p :: rest) = none := by
        rw [afterToken, if_neg]
        intro hm
        exact hno (token_of_matchToken hm)
      obtain ⟨N, l, hrun, hmem⟩ := survivors_spec hI chrs [p :: rest] (by simpa using hs)
      refine ⟨N, l.foldl (fun out s => if s ∈ out then out else out ++ [s]) out, fun fuel hle => ?_, fun x => ?_⟩
      · rw [LlamaGrammar.acceptTokenStack, if_neg hno, hrun fuel hle]
        rfl
      · rw [mem_foldl_insert, hmem, TokenLeaves, hafter]
        simp only [mem_singleton, exists_eq_left, Option.mem_def, reduceCtorEq, false_and, exists_false, false_or]
        exact or_congr_right ⟨fun h => ⟨⟨p, rest, rfl, hno⟩, h⟩, fun h => h.2⟩

lemma TokenLeaves.keeps (hI : Keeps G I) {token : UInt32} {chrs : List UInt32} {s x : GrStack} (hs : I s)
    (h : TokenLeaves G.rules token chrs s x) : I x := by
  obtain ⟨s', hs', he, hr⟩ | ⟨-, h⟩ := h
  · exact ((hI s hs).2.2 s' (.inr ⟨token, hs'⟩)).2 x he hr
  · exact h.keeps hI hs

end Tokens

/-- A step of the engine: a code point, or a token with its piece. -/
inductive GrOp where
  | accept (chr : UInt32)
  | acceptToken (token : UInt32) (piece : List UInt8)

end Grammar

namespace LlamaGrammar

open Grammar

def step (fuel : Nat) (g : LlamaGrammar) : GrOp → Option LlamaGrammar
  | .accept chr => g.accept fuel chr
  | .acceptToken token piece => g.acceptToken fuel token piece

def run (fuel : Nat) : LlamaGrammar → List GrOp → Option LlamaGrammar := List.foldlM (step fuel)

/-- The stacks of a grammar have a property. -/
structure Holds {n : Nat} (G : RuleSet n) (I : GrStack → Prop) (g : LlamaGrammar) : Prop where
  rules : g.rules = G.rules
  all : ∀ s ∈ g.grStacks, I s

section Run
variable {n : Nat} {G : RuleSet n} {I : GrStack → Prop} {g : LlamaGrammar}

lemma Holds.acceptToken_spec (hI : Keeps G I) (h : Holds G I g) (token : UInt32) (piece : List UInt8) :
    ∃ N g', (∀ fuel, N ≤ fuel → g.acceptToken fuel token piece = some g') ∧ Holds G I g' ∧ ∀ x, x ∈ g'.grStacks ↔
        ∃ s ∈ g.grStacks, TokenLeaves G.rules token (decodeUtf8 piece g.partialUtf8).1 s x := by
  obtain ⟨N, out, hrun, hmem⟩ := foldlM_advance g.grStacks (fun s hs out =>
    acceptTokenStack_spec hI token (decodeUtf8 piece g.partialUtf8).1 (h.all s hs) out) []
  have hmem' : ∀ x, x ∈ out ↔ ∃ s ∈ g.grStacks, TokenLeaves G.rules token (decodeUtf8 piece g.partialUtf8).1 s x := by
    intro x
    rw [hmem, or_iff_right not_mem_nil]
  refine ⟨N, { g with grStacks := out, partialUtf8 := (decodeUtf8 piece g.partialUtf8).2 }, fun fuel hle => ?_,
    ⟨h.rules, fun x hx => ?_⟩, hmem'⟩
  · rw [LlamaGrammar.acceptToken, h.rules]
    simp only [hrun fuel hle, Option.bind_eq_bind, Option.bind_some, Option.pure_def]
  · obtain ⟨s, hs, hx⟩ := (hmem' x).1 hx
    exact hx.keeps hI (h.all s hs)

lemma Holds.step (hI : Keeps G I) (h : Holds G I g) (op : GrOp) :
    ∃ N g', (∀ fuel, N ≤ fuel → g.step fuel op = some g') ∧ Holds G I g' := by
  cases op with
  | accept chr =>
    obtain ⟨N, out, hrun, hmem⟩ := accept_spec hI chr g.grStacks h.all
    refine ⟨N, { g with grStacks := out }, fun fuel hle => ?_, ⟨h.rules, fun x hx => ?_⟩⟩
    · rw [LlamaGrammar.step, LlamaGrammar.accept, h.rules, hrun fuel hle]
      rfl
    · obtain ⟨s, hs, s', hs', he, hr⟩ := (hmem x).1 hx
      exact accept_keeps hI (h.all s hs) hs' he hr
  | acceptToken token piece =>
    obtain ⟨N, g', hrun, hg', -⟩ := h.acceptToken_spec hI token piece
    exact ⟨N, g', hrun, hg'⟩

lemma Holds.run (hI : Keeps G I) (h : Holds G I g) (ops : List GrOp) :
    ∃ N g', (∀ fuel, N ≤ fuel → g.run fuel ops = some g') ∧ Holds G I g' := by
  induction ops generalizing g with
  | nil => exact ⟨0, g, fun _ _ => rfl, h⟩
  | cons op ops ih =>
    obtain ⟨N₁, g₁, hrun₁, h₁⟩ := h.step hI op
    obtain ⟨N₂, g₂, hrun₂, h₂⟩ := ih h₁
    refine ⟨max N₁ N₂, g₂, fun fuel hle => ?_, h₂⟩
    rw [LlamaGrammar.run, foldlM_cons, hrun₁ fuel (by omega)]
    exact hrun₂ fuel (by omega)

end Run

end LlamaGrammar

end Mallana
