import Mallana.Grammar.Step

/-!
# The engine recognises the language of its grammar

The stacks after a string stand together for what can still follow it (`Tracks`): each stack derives only strings
that complete it to a string of the grammar, and each such completion is derived by a stack. Without left recursion
`llama_grammar_advance_stack` ends on every stack, so the engine needs only finitely many steps.
-/

namespace Mallana

open Lib List

namespace Grammar

section Advance
variable {n : Nat} {G : RuleSet n} {stack x : GrStack} {Γ : List (List (GrSym n))} {out : List GrStack}

/-- The stacks stand together for the strings of `L`. -/
structure Covers (G : RuleSet n) (S : GrStack → Prop) (L : List UInt32 → Prop) : Prop where
  sound : ∀ s, S s → ∃ Γ, Stands G.rules s Γ ∧ Occurs G.alts Γ ∧ ∀ v, G.Derives Γ.flatten v → L v
  complete : ∀ v, L v → ∃ s, S s ∧ ∃ Γ, Stands G.rules s Γ ∧ G.Derives Γ.flatten v

lemma Stands.nil_notMem (h : Stands G.rules stack Γ) : [] ∉ Γ := by
  induction h with
  | nil => exact not_mem_nil
  | cons hp _ ih =>
    rw [mem_cons, not_or]
    exact ⟨fun heq => hp.2 heq.symm, ih⟩

lemma Covers.advance (hleft : ¬ LeftRecursive G.alts) {S : GrStack → Prop} {L : List UInt32 → Prop}
    (h : Covers G S L) (hmem : ∀ x, x ∈ out ↔ ∃ s, S s ∧ visit G.rules x = .emit ∧ Reaches (visit G.rules) s x) :
    Covers G (· ∈ out) L := by
  constructor
  · intro x hx
    obtain ⟨s, hs, -, hr⟩ := (hmem x).1 hx
    obtain ⟨Γ, hΓ, hocc, hL⟩ := h.sound s hs
    obtain ⟨Δ, hrΔ, hΔ⟩ := reaches_of_sim (fun _ _ => sameVisit) hΓ hr
    exact ⟨Δ, hΔ, hocc.reaches hrΔ, fun v hv => hL v (Reaches.derives hrΔ hv)⟩
  · intro v hv
    obtain ⟨s, hs, Γ, hΓ, hd⟩ := h.complete v hv
    obtain ⟨Δ, hrΔ, he, hd'⟩ := exists_reaches (acc_expand hleft Γ) hΓ.nil_notMem hd
    obtain ⟨x, hr, hΔ⟩ := reaches_of_sim' (fun _ _ => sameVisit) hΓ hrΔ
    exact ⟨x, (hmem x).2 ⟨s, hs, (sameVisit hΔ).emit_iff.2 he, hr⟩, Δ, hΔ, hd'⟩

lemma Covers.afterChr {L : List UInt32 → Prop} (h : Covers G (· ∈ out) L)
    (hemit : ∀ s ∈ out, visit G.rules s = .emit) (chr : UInt32) :
    Covers G (fun s => ∃ s₀ ∈ out, s ∈ Grammar.afterChr G.rules chr s₀) fun v => L (chr :: v) := by
  constructor
  · rintro s ⟨s₀, hs₀, hs⟩
    obtain ⟨Γ, hΓ, hocc, hL⟩ := h.sound s₀ hs₀
    obtain rfl | ⟨t, β, Γ, rfl⟩ := hΓ.cases_emit (hemit s₀ hs₀)
    · cases hΓ
      cases hs
    cases hhas : t.has chr with
    | false =>
      rw [(hΓ.afterChr chr).1 hhas] at hs
      cases hs
    | true =>
      obtain ⟨s', heq, hst⟩ := (hΓ.afterChr chr).2 hhas
      rw [heq] at hs
      cases hs
      have hoccs := forall_mem_cons.1 hocc
      refine ⟨push β Γ, hst, ?_, fun v hv => hL _ ?_⟩
      · exact Occurs.push (fun x hx => hoccs.1 x (mem_cons_of_mem _ hx)) hoccs.2
      · rw [flatten_push] at hv
        exact .term hhas hv
  · intro v hv
    obtain ⟨s₀, hs₀, Γ, hΓ, hd⟩ := h.complete _ hv
    obtain rfl | ⟨t, β, Γ, rfl⟩ := hΓ.cases_emit (hemit s₀ hs₀)
    · cases hd
    obtain ⟨hhas, hd⟩ := derives_term.1 hd
    obtain ⟨s', heq, hst⟩ := (hΓ.afterChr chr).2 hhas
    refine ⟨s', ⟨s₀, hs₀, heq⟩, push β Γ, hst, ?_⟩
    rw [flatten_push]
    exact hd

end Advance

section Run
variable {n : Nat} {G : RuleSet n} {g : LlamaGrammar} {L : List UInt32 → Prop}

/-- The stacks of a grammar stand for the strings of `L`. -/
structure Tracks (G : RuleSet n) (g : LlamaGrammar) (L : List UInt32 → Prop) : Prop where
  rules : g.rules = G.rules
  emit : ∀ s ∈ g.grStacks, visit G.rules s = .emit
  covers : Covers G (· ∈ g.grStacks) L

lemma Tracks.accept (hleft : ¬ LeftRecursive G.alts) (h : Tracks G g L) (chr : UInt32) :
    ∃ N g', (∀ fuel, N ≤ fuel → g.accept fuel chr = some g') ∧ Tracks G g' fun v => L (chr :: v) := by
  obtain ⟨N, out, hrun, hmem⟩ := foldlM_advance g.grStacks (fun s hs out => by
    obtain ⟨Γ, hΓ, -⟩ := h.covers.sound s hs
    refine acceptChr_spec hΓ (h.emit s hs) chr (fun s' hs' => ?_) out
    obtain ⟨Γ', hΓ', -⟩ := (h.covers.afterChr h.emit chr).sound s' ⟨s, hs, hs'⟩
    exact advances_of_not_leftRecursive hleft hΓ') []
  have hmem' : ∀ x, x ∈ out ↔ ∃ s, (∃ s₀ ∈ g.grStacks, s ∈ afterChr G.rules chr s₀) ∧
      visit G.rules x = .emit ∧ Reaches (visit G.rules) s x := by
    intro x
    rw [hmem]
    constructor
    · rintro (hx | ⟨s₀, hs₀, s, hs, hx⟩)
      · cases hx
      · exact ⟨s, ⟨s₀, hs₀, hs⟩, hx⟩
    · rintro ⟨s, ⟨s₀, hs₀, hs⟩, hx⟩
      exact .inr ⟨s₀, hs₀, s, hs, hx⟩
  refine ⟨N, { g with grStacks := out }, fun fuel hle => ?_, h.rules, fun x hx => ?_, ?_⟩
  · rw [LlamaGrammar.accept, h.rules, hrun fuel hle]
    rfl
  · obtain ⟨-, -, he, -⟩ := (hmem' x).1 hx
    exact he
  · exact (h.covers.afterChr h.emit chr).advance hleft hmem'

lemma Tracks.acceptAll (hleft : ¬ LeftRecursive G.alts) (h : Tracks G g L) (w : List UInt32) :
    ∃ N g', (∀ fuel, N ≤ fuel → g.acceptAll fuel w = some g') ∧ Tracks G g' fun v => L (w ++ v) := by
  induction w generalizing g L with
  | nil => exact ⟨0, g, fun _ _ => rfl, h⟩
  | cons chr w ih =>
    obtain ⟨N₁, g₁, hrun₁, h₁⟩ := h.accept hleft chr
    obtain ⟨N₂, g₂, hrun₂, h₂⟩ := ih h₁
    refine ⟨max N₁ N₂, g₂, fun fuel hle => ?_, h₂⟩
    rw [LlamaGrammar.acceptAll, foldlM_cons, hrun₁ fuel (by omega)]
    exact hrun₂ fuel (by omega)

lemma covers_start (G : RuleSet n) (root : Fin n) :
    Covers G (fun s => ∃ i ∈ alternates (G.rules.getD root []), s = pushPos G.rules ⟨root, i⟩ [])
      (G.Derives [.ref root]) := by
  have hpoints := points_rule G root
  constructor
  · rintro s ⟨i, hi, rfl⟩
    obtain ⟨α, hα, hp⟩ := exists_of_forall₂ hpoints hi
    refine ⟨push α [], stands_pushPos hp .nil, ?_, fun v hv => ?_⟩
    · exact Occurs.push (fun x hx => ⟨root, α, hα, hx⟩) fun _ h => by cases h
    · rw [flatten_push] at hv
      exact derives_ref.2 ⟨α, hα, hv⟩
  · intro v hv
    obtain ⟨α, hα, hd⟩ := derives_ref.1 hv
    obtain ⟨i, hi, hp⟩ := exists_of_forall₂ hpoints.flip hα
    refine ⟨_, ⟨i, hi, rfl⟩, push α [], stands_pushPos hp .nil, ?_⟩
    rw [flatten_push]
    exact hd

lemma tracks_init (hleft : ¬ LeftRecursive G.alts) (root : Fin n) :
    ∃ N g, (∀ fuel, N ≤ fuel → LlamaGrammar.init fuel G.rules root = some (some g)) ∧
      Tracks G g (G.Derives [.ref root]) := by
  obtain ⟨N₁, hdetect⟩ := detectAll_false hleft (List.range G.rules.length)
    (fun i hi => by rw [mem_range, RuleSet.rules, length_ofFn] at hi; exact hi)
    (show MarksOk G {} from ⟨fun _ h => by cases h⟩) rfl
  have hstart := covers_start G root
  obtain ⟨N₂, out, hrun, hmem⟩ := foldlM_advance (alternates (G.rules.getD root [])) (fun i hi out => by
    obtain ⟨Γ, hΓ, -⟩ := hstart.sound _ ⟨i, hi, rfl⟩
    exact advances_of_not_leftRecursive hleft hΓ out) []
  have hmem' : ∀ x, x ∈ out ↔ ∃ s, (∃ i ∈ alternates (G.rules.getD root []), s = pushPos G.rules ⟨root, i⟩ []) ∧
      visit G.rules x = .emit ∧ Reaches (visit G.rules) s x := by
    intro x
    rw [hmem]
    constructor
    · rintro (hx | ⟨i, hi, hx⟩)
      · cases hx
      · exact ⟨_, ⟨i, hi, rfl⟩, hx⟩
    · rintro ⟨s, ⟨i, hi, rfl⟩, hx⟩
      exact .inr ⟨i, hi, hx⟩
  refine ⟨max N₁ N₂, { rules := G.rules, grStacks := out }, fun fuel hle => ?_, rfl, fun x hx => ?_, hstart.advance hleft hmem'⟩
  · unfold LlamaGrammar.init
    simp only [map_copyRule, hdetect fuel (by omega), Option.bind_eq_bind, Option.bind_some, Bool.false_eq_true,
      if_false, hrun fuel (by omega), Option.pure_def]
  · obtain ⟨-, -, he, -⟩ := (hmem' x).1 hx
    exact he

lemma Tracks.nil_mem_iff (h : Tracks G g L) : [] ∈ g.grStacks ↔ L [] := by
  constructor
  · intro hmem
    obtain ⟨Γ, hΓ, -, hL⟩ := h.covers.sound [] hmem
    cases hΓ
    exact hL [] .nil
  · intro hL
    obtain ⟨s, hs, Γ, hΓ, hd⟩ := h.covers.complete [] hL
    obtain rfl | ⟨t, β, Γ, rfl⟩ := hΓ.cases_emit (h.emit s hs)
    · cases hΓ
      exact hs
    · cases hd

lemma Tracks.ne_nil_iff (hprod : G.Productive) (hinh : G.Inhabited) (h : Tracks G g L) :
    g.grStacks ≠ [] ↔ ∃ v, L v := by
  constructor
  · intro hne
    obtain ⟨s, hs⟩ := exists_mem_of_ne_nil _ hne
    obtain ⟨Γ, -, hocc, hL⟩ := h.covers.sound s hs
    have hderives : ∃ v, G.Derives Γ.flatten v := by
      refine exists_derives fun x hx => ?_
      obtain ⟨β, hβ, hx⟩ := mem_flatten.1 hx
      obtain ⟨A, α, hα, hx⟩ := hocc β hβ x hx
      cases x with
      | ref B => exact hprod B
      | term t =>
        obtain ⟨c, hc⟩ := hinh A α hα t hx
        exact ⟨[c], .term hc .nil⟩
    obtain ⟨v, hv⟩ := hderives
    exact ⟨v, hL v hv⟩
  · rintro ⟨v, hv⟩
    obtain ⟨s, hs, -⟩ := h.covers.complete v hv
    exact ne_nil_of_mem hs

/-- Without left recursion the engine ends on every string; an empty stack is left exactly if the root derives the
string, and some stack exactly if the root derives a string that begins with it. -/
theorem LlamaGrammar.recognizes (G : RuleSet n) (hleft : ¬ LeftRecursive G.alts) (root : Fin n) (w : List UInt32) :
    ∃ N g₀ g, (∀ fuel, N ≤ fuel → LlamaGrammar.init fuel G.rules root = some (some g₀)) ∧
      (∀ fuel, N ≤ fuel → g₀.acceptAll fuel w = some g) ∧ ([] ∈ g.grStacks ↔ G.Derives [.ref root] w) ∧
      (G.Productive → G.Inhabited → (g.grStacks ≠ [] ↔ ∃ v, G.Derives [.ref root] (w ++ v))) := by
  obtain ⟨N₁, g₀, hinit, h₀⟩ := tracks_init hleft root
  obtain ⟨N₂, g, hrun, h⟩ := h₀.acceptAll hleft w
  refine ⟨max N₁ N₂, g₀, g, fun fuel hle => hinit fuel (by omega), fun fuel hle => hrun fuel (by omega), ?_, ?_⟩
  · rw [h.nil_mem_iff, append_nil]
  · exact fun hprod hinh => h.ne_nil_iff hprod hinh

end Run

/-- `root ::= "a" root | "b"`. -/
def abRules : RuleSet 1 where
  alts := fun _ => [[.term (.cls (.chars false (.one 97) [])), .ref 0], [.term (.cls (.chars false (.one 98) []))]]
  nonempty := fun _ => by simp
  small := RuleSet.one_small

lemma not_leftRecursive {n : Nat} {G : RuleSet n} (h : ∀ A, ∀ α ∈ G.alts A, ∃ t β, α = .term t :: β) :
    ¬ LeftRecursive G.alts := by
  rintro ⟨A, hA⟩
  obtain ⟨B, ⟨α, hα, hb⟩, -⟩ := Relation.TransGen.head'_iff.1 hA
  obtain ⟨t, β, rfl⟩ := h A α hα
  cases hb

lemma abRules_terms : ∀ A, ∀ α ∈ abRules.alts A, ∃ t β, α = .term t :: β := by
  intro _ α hα
  simp only [abRules, mem_cons, not_mem_nil, or_false] at hα
  obtain rfl | rfl := hα
  · exact ⟨_, _, rfl⟩
  · exact ⟨_, _, rfl⟩

theorem LlamaGrammar.recognizes_ab : ∃ N g₀ g, (∀ fuel, N ≤ fuel → LlamaGrammar.init fuel abRules.rules 0 = some (some g₀)) ∧
    (∀ fuel, N ≤ fuel → g₀.acceptAll fuel [97, 97, 98] = some g) ∧
    ([] ∈ g.grStacks ↔ abRules.Derives [.ref 0] [97, 97, 98]) ∧ (abRules.Productive → abRules.Inhabited →
      (g.grStacks ≠ [] ↔ ∃ v, abRules.Derives [.ref 0] ([97, 97, 98] ++ v))) :=
  LlamaGrammar.recognizes abRules (not_leftRecursive abRules_terms) 0 [97, 97, 98]

/-- `root ::= "a" [z-a] | "b"`. -/
def emptyClassRules : RuleSet 1 where
  alts := fun _ => [[.term (.cls (.chars false (.one 97) [])), .term (.cls (.chars false (.range 122 97) []))],
    [.term (.cls (.chars false (.one 98) []))]]
  nonempty := fun _ => by simp
  small := RuleSet.one_small

/-- Every rule derives a string and there is no left recursion, but the stack that is left after `"a"` waits for a
class without code points. -/
theorem LlamaGrammar.emptyClass_keeps_stack : ¬ LeftRecursive emptyClassRules.alts ∧ emptyClassRules.Productive ∧
    (∃ g₀ g, LlamaGrammar.init 9 emptyClassRules.rules 0 = some (some g₀) ∧ g₀.acceptAll 9 [97] = some g ∧
      g.grStacks ≠ []) ∧ ¬ ∃ v, emptyClassRules.Derives [.ref 0] ([97] ++ v) := by
  refine ⟨not_leftRecursive fun _ α hα => ?_, fun A => ⟨[98], ?_⟩, ?_, ?_⟩
  · simp only [emptyClassRules, mem_cons, not_mem_nil, or_false] at hα
    obtain rfl | rfl := hα
    · exact ⟨_, _, rfl⟩
    · exact ⟨_, _, rfl⟩
  · exact derives_ref.2 ⟨[.term (.cls (.chars false (.one 98) []))], by simp [emptyClassRules], .term (by decide) .nil⟩
  · exact ⟨{ rules := emptyClassRules.rules, grStacks := [[⟨0, 0⟩], [⟨0, 4⟩]] },
      { rules := emptyClassRules.rules, grStacks := [[⟨0, 1⟩]] }, by decide +kernel, by decide +kernel, by simp⟩
  · rintro ⟨v, hv⟩
    obtain ⟨α, hα, hd⟩ := derives_ref.1 hv
    simp only [emptyClassRules, mem_cons, not_mem_nil, or_false] at hα
    obtain rfl | rfl := hα
    · cases hd with
      | term _ hd =>
        cases hd with
        | @term _ c _ _ hc _ =>
          have h : (122 : UInt32) ≤ c ∧ c ≤ 97 := by simpa [GrTerm.has, CharClass.has, CharItem.has] using hc
          exact absurd (UInt32.le_trans h.1 h.2) (by decide)
    · cases hd with
      | term hc _ => exact absurd hc (by decide)

end Grammar

end Mallana
