import Mallana.Schema.Reading

/-!
# Texts that the parser rejects

An error in an item of a group is an error of the grammar, whatever was read before it.
-/

namespace Mallana.Schema

open Lib Tokenizer Grammar GrParser List

section
variable (tokenize : List UInt8 → Option UInt32)

/-- The loop of `parse_sequence` runs into an error. -/
def SeqFails (src : Str) : Prop :=
  ∀ ruleName isNested st f fuel, Fresh st.parser → st.parser.symbolIds.length ≤ 4294967296 → st.src = src →
    src.length < f → src.length < fuel → seqLoop tokenize (parseAlternates tokenize f) ruleName isNested fuel st = none

/-- The loop of `parse_alternates` runs into an error. -/
def AltsFail (src : Str) : Prop :=
  ∀ ruleName isNested f fuel rule p, Fresh p → p.symbolIds.length ≤ 4294967296 → src.length < f → src.length < fuel →
    altsFrom tokenize ruleName isNested f fuel src rule p = none

end

section
variable {tokenize : List UInt8 → Option UInt32} {t s u : Str} {K L : Language UInt32} {fuel : Nat}

lemma SeqFails.step (h : ∀ alternates fuel ruleName isNested rule l c p,
    seqStep tokenize alternates fuel ruleName isNested ⟨t, rule, l, c, p⟩ = none) : SeqFails tokenize t := by
  rintro ruleName isNested ⟨src, rule, l, c, p⟩ f fuel _ _ hsrc _ hfuel
  cases hsrc
  cases fuel with
  | zero => omega
  | succ fuel =>
    rw [seqLoop, h]
    rfl

lemma SeqFails.behind (hrun : RunsKind tokenize .item 0 t L) (hs : Blank s) (hu : Solid u)
    (h : SeqFails tokenize u) : SeqFails tokenize (t ++ s ++ u) := by
  rintro ruleName isNested ⟨src, rule, l, c, p⟩ f fuel hfresh hsmall hsrc hf hfuel
  obtain ⟨es, p', -, hgrow, -, hrun⟩ := hrun ruleName isNested p hfresh hsmall
  dsimp only at hsrc hsmall
  subst hsrc
  obtain ⟨n, -, hruns⟩ := hrun ⟨t ++ s ++ u, rule, l, c, p⟩ (s ++ u) rfl (append_assoc _ _ _)
  rw [parseSpace_blank hs, parseSpace_solid hu] at hruns
  obtain ⟨fuel', hfuel', heq⟩ := hruns.2 f fuel hf hfuel
  rw [heq]
  have hlen := hruns.1
  have hle := hgrow.le
  exact h _ _ _ _ _ hgrow.fresh (hle.2.trans hsmall) rfl (lt_of_le_of_lt hlen hf) hfuel'

lemma SeqFails.alts (h : SeqFails tokenize t) : AltsFail tokenize t := by
  intro ruleName isNested f fuel rule p hfresh hsmall hf hfuel
  rw [altsFrom, parseSequence, h ruleName isNested ⟨t, rule, rule.length, 1, p⟩ f fuel hfresh hsmall rfl hf hfuel]
  rfl

lemma AltsFail.behind (hrun : RunsKind tokenize .seq 0 t K) (hs : Blank s) (hu : Solid u) (h : AltsFail tokenize u) :
    AltsFail tokenize (t ++ 124 :: s ++ u) := by
  intro ruleName isNested f fuel rule p hfresh hsmall hf hfuel
  obtain ⟨es, p', hgrow, -, hrun⟩ := @RunsSeq.parse tokenize 0 t K ruleName isNested p hrun hfresh hsmall
  have hsrc : t ++ 124 :: s ++ u = t ++ 124 :: (s ++ u) := by simp
  rw [hsrc] at hf hfuel ⊢
  rw [altsFrom, hrun _ f fuel rule (follows_cons (by decide)) hf hfuel]
  rw [length_append, length_cons, length_append] at hf hfuel
  cases fuel with
  | zero => omega
  | succ fuel =>
    have hspace : parseSpace true false (s ++ u) = u := by
      rw [parseSpace_blank hs, parseSpace_solid hu]
    have hle := hgrow.le
    have hfrom := h ruleName isNested f fuel (rule ++ es ++ [⟨.alt, 0⟩]) p' hgrow.fresh (hle.2.trans hsmall) (by omega)
      (by omega)
    have hbar : (124 :: (s ++ u)).head? = some 124 := rfl
    change altLoop tokenize _ ruleName isNested (fuel + 1) (124 :: (s ++ u)) (rule ++ es) p' = _
    rw [altLoop, if_pos hbar, tail_cons, hspace]
    exact hfrom

lemma AltsFail.parse (h : AltsFail tokenize t) (ht : Solid t) (hfuel : (rootIs ++ 40 :: t).length ≤ fuel) :
    parse tokenize fuel (rootIs ++ 40 :: t) = none := by
  have hlen : (rootIs ++ 40 :: t).length = t.length + 10 := by
    rw [length_append, length_cons, add_comm]
    rfl
  have hgroup : ∀ f, t.length + 2 < f → parseAlternates tokenize f (40 :: t) root 0 false atRoot = none := by
    intro f hf
    obtain ⟨f, rfl⟩ : ∃ g, f = g + 3 := ⟨f - 3, by omega⟩
    have hinner : parseAlternates tokenize (f + 2) t root atRoot.nextId true (atRoot.generateSymbolId root).2 = none := by
      have hfrom := h root true (f + 1) (f + 1) [] (atRoot.generateSymbolId root).2
        (fresh_atRoot.generate root (by decide)) (by decide) (by omega) (by omega)
      have hbind : parseAlternates tokenize (f + 2) t root atRoot.nextId true (atRoot.generateSymbolId root).2 =
          (altsFrom tokenize root true (f + 1) (f + 1) t [] (atRoot.generateSymbolId root).2).bind fun s =>
            some (s.1, s.2.2.addRule atRoot.nextId (s.2.1 ++ [⟨.end, 0⟩])) := by
        unfold parseAlternates altsFrom
        cases parseSequence tokenize (parseAlternates tokenize (f + 1)) (f + 1) t root [] true
          (atRoot.generateSymbolId root).2 <;> rfl
      rw [hbind, hfrom]
      rfl
    have hstep : seqStep tokenize (parseAlternates tokenize (f + 2)) (f + 1) root false ⟨40 :: t, [], 0, 1, atRoot⟩ =
        none := by
      have hbind : ∀ k, seqStep tokenize (parseAlternates tokenize (f + 2)) (f + 1) root false
          ⟨40 :: t, [], 0, 1, atRoot⟩ = (parseAlternates tokenize (f + 2) (parseSpace true false t) root atRoot.nextId true
            (atRoot.generateSymbolId root).2).bind k → seqStep tokenize (parseAlternates tokenize (f + 2)) (f + 1) root
              false ⟨40 :: t, [], 0, 1, atRoot⟩ = none := by
        intro k hk
        rw [hk, parseSpace_solid ht, hinner]
        rfl
      exact hbind _ rfl
    have hseq : parseSequence tokenize (parseAlternates tokenize (f + 2)) (f + 2) (40 :: t) root [] false atRoot =
        none := by
      change (seqLoop tokenize (parseAlternates tokenize (f + 2)) root false (f + 1 + 1)
        ⟨40 :: t, [], 0, 1, atRoot⟩).bind _ = _
      rw [seqLoop, hstep]
      rfl
    change (parseSequence tokenize (parseAlternates tokenize (f + 2)) (f + 2) (40 :: t) root [] false atRoot).bind _ = _
    rw [hseq]
    rfl
  rw [parse_fuel hfuel, hlen, GrParser.parse]
  change (ruleLoop tokenize (t.length + 9 + 1) (rootIs ++ 40 :: t) {}).bind _ = _
  have hrule : parseRule tokenize (t.length + 9) (rootIs ++ 40 :: t) {} = none := by
    change (parseAlternates tokenize (t.length + 9) (40 :: t) root 0 false atRoot).bind _ = _
    rw [hgroup _ (by omega)]
    rfl
  have hloop : ruleLoop tokenize (t.length + 9 + 1) (rootIs ++ 40 :: t) {} = none := by
    change (parseRule tokenize (t.length + 9) (rootIs ++ 40 :: t) {}).bind _ = _
    rw [hrule]
    rfl
  rw [hloop]
  rfl

end

end Mallana.Schema
