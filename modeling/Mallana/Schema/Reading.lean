import Mallana.Grammar.WellFormed
import Mallana.Schema.Words

/-!
# The parser reads the notation

If a text without references denotes a language, and its operators are within the limits of the parser, then `parse`
reads it as a grammar that derives this language (`parse_reads`). What is read of a text is a run of the loop of
`parse_sequence`, with new rules that are not touched again (`Grows`).
-/

namespace Mallana.Schema

open Lib Tokenizer Grammar GrParser List

/-- The ids are those of the symbols so far, also in the generated names. -/
structure Fresh (p : GrParser) : Prop where
  ids : ∀ kv ∈ p.symbolIds, kv.2.toNat < p.symbolIds.length
  names : ∀ kv ∈ p.symbolIds, ∀ base id, kv.1 = generatedName base id → id.toNat < p.symbolIds.length
  length : p.rules.length ≤ p.symbolIds.length

/-- There are at most `k` symbols more, which have rules; what was there is not touched. -/
structure Grows (p p' : GrParser) (k : Nat) : Prop where
  fresh : Fresh p'
  grown : ∃ more, p'.symbolIds = p.symbolIds ++ more ∧ more.length ≤ k
  kept : ∀ i < p.symbolIds.length, p'.rules.getD i [] = p.rules.getD i []
  filled : ∀ i < p'.symbolIds.length, p.symbolIds.length ≤ i → p'.rules.getD i [] ≠ []

section Rules
variable {p p' p'' : GrParser} {j k : Nat} {rule : GrRule} (base : Str)

lemma Grows.le (h : Grows p p' k) :
    p.symbolIds.length ≤ p'.symbolIds.length ∧ p'.symbolIds.length ≤ p.symbolIds.length + k := by
  obtain ⟨more, heq, hlen⟩ := h.grown
  rw [heq, length_append]
  omega

lemma Grows.refl (h : Fresh p) : Grows p p 0 where
  fresh := h
  grown := ⟨[], (append_nil _).symm, le_refl _⟩
  kept := fun _ _ => rfl
  filled := fun i hi hle => by omega

lemma Grows.trans (h : Grows p p' j) (h' : Grows p' p'' k) : Grows p p'' (j + k) where
  fresh := h'.fresh
  grown := by
    obtain ⟨more, heq, hlen⟩ := h.grown
    obtain ⟨more', heq', hlen'⟩ := h'.grown
    refine ⟨more ++ more', by rw [heq', heq, append_assoc], ?_⟩
    rw [length_append]
    omega
  kept := fun i hi => (h'.kept i (lt_of_lt_of_le hi h.le.1)).trans (h.kept i hi)
  filled := fun i hi hle => by
    by_cases hlt : i < p'.symbolIds.length
    · rw [h'.kept i hlt]
      exact h.filled i hlt hle
    · exact h'.filled i hi (Nat.le_of_not_lt hlt)

section
variable (h : Fresh p) (hsmall : p.symbolIds.length < 4294967296)
include h hsmall

lemma generateSymbolId_fresh :
    p.generateSymbolId base = (p.nextId, { p with symbolIds := p.symbolIds ++ [(generatedName base p.nextId, p.nextId)] }) ∧
      p.nextId.toNat = p.symbolIds.length := by
  have hid : p.nextId.toNat = p.symbolIds.length := UInt32.toNat_ofNat_of_lt' hsmall
  refine ⟨congrArg (fun ids => (p.nextId, GrParser.mk ids p.rules)) (if_neg fun hany => ?_), hid⟩
  obtain ⟨kv, hkv, heq⟩ := any_eq_true.1 hany
  have := h.names kv hkv base p.nextId (of_decide_eq_true heq)
  omega

lemma Grows.addRule {base : Str} (hgrow : Grows (p.generateSymbolId base).2 p' k) (hrule : rule ≠ []) :
    Grows p (p'.addRule p.nextId rule) (k + 1) := by
  obtain ⟨hgen, hid⟩ := generateSymbolId_fresh base h hsmall
  rw [hgen] at hgrow
  have hle := hgrow.le
  dsimp only at hle
  rw [length_append, length_singleton] at hle
  refine ⟨⟨hgrow.fresh.ids, hgrow.fresh.names, ?_⟩, ?_, fun i hi => ?_, fun i hi hge => ?_⟩
  · have := hgrow.fresh.length
    change ((p'.rules ++ List.replicate (p.nextId.toNat + 1 - p'.rules.length) []).set p.nextId.toNat rule).length ≤
      p'.symbolIds.length
    rw [length_set, length_append, length_replicate]
    omega
  · obtain ⟨more, heq, hlen⟩ := hgrow.grown
    refine ⟨(generatedName base p.nextId, p.nextId) :: more, ?_, Nat.succ_le_succ hlen⟩
    exact heq.trans (append_assoc _ _ _)
  · rw [getD_addRule, if_neg (by omega)]
    refine hgrow.kept i ?_
    rw [length_append]
    omega
  · rw [getD_addRule]
    split
    · exact hrule
    · refine hgrow.filled i hi ?_
      dsimp only
      rw [length_append, length_singleton]
      omega

lemma Fresh.generate : Fresh (p.generateSymbolId base).2 := by
  obtain ⟨hgen, hid⟩ := generateSymbolId_fresh base h hsmall
  rw [hgen]
  refine ⟨fun kv hkv => ?_, fun kv hkv base' id heq => ?_, ?_⟩
  · dsimp only at hkv ⊢
    rw [length_append, length_singleton]
    obtain hkv | hkv := mem_append.1 hkv
    · exact Nat.lt_succ_of_lt (h.ids kv hkv)
    · rw [mem_singleton.1 hkv]
      change p.nextId.toNat < _
      omega
  · dsimp only at hkv ⊢
    rw [length_append, length_singleton]
    obtain hkv | hkv := mem_append.1 hkv
    · exact Nat.lt_succ_of_lt (h.names kv hkv base' id heq)
    · rw [mem_singleton.1 hkv] at heq
      rw [← generatedName_inj heq]
      omega
  · dsimp only
    rw [length_append]
    exact Nat.le_add_right_of_le h.length

end

lemma grows_recRules (rule : GrRule) (noMax : Bool) (n : Nat) (first : Bool) (last : UInt32) (h : Fresh p)
    (hsmall : p.symbolIds.length + n ≤ 4294967296) :
    Grows p (recRules base rule noMax n first last p).2 n ∧ ∀ e ∈ recAdded base rule noMax n first last p,
      p.symbolIds.length ≤ e.1.toNat ∧ e.1.toNat < (recRules base rule noMax n first last p).2.symbolIds.length ∧
        (recRules base rule noMax n first last p).2.rules.getD e.1.toNat [] = e.2 := by
  induction n generalizing first last p with
  | zero => exact ⟨.refl h, fun e he => (not_mem_nil he).elim⟩
  | succ n ih =>
    rw [recRules, recAdded]
    obtain ⟨r, hr⟩ : ∃ r : GrRule, r = rule ++ (if !first || noMax then
      [⟨.ruleRef, if noMax then (p.generateSymbolId base).1 else last⟩] else []) ++ [⟨.alt, 0⟩, ⟨.end, 0⟩] := ⟨_, rfl⟩
    have hid := (generateSymbolId_fresh base h (by omega)).2
    have hone : Grows p ((p.generateSymbolId base).2.addRule p.nextId r) 1 :=
      Grows.addRule h (by omega) (.refl (h.generate base (by omega))) (by simp [hr])
    have hlen := hone.le
    have hlen' : ((p.generateSymbolId base).2.addRule p.nextId r).symbolIds.length = p.symbolIds.length + 1 := by
      rw [(generateSymbolId_fresh base h (by omega)).1]
      exact length_append
    obtain ⟨hgrow, hadded⟩ := ih false (p.generateSymbolId base).1 hone.fresh (by omega)
    rw [← hr]
    refine ⟨add_comm 1 n ▸ hone.trans hgrow, forall_mem_cons.2 ⟨⟨?_, ?_, ?_⟩, fun e he => ?_⟩⟩
    · exact le_of_eq hid.symm
    · refine lt_of_lt_of_le ?_ hgrow.le.1
      change p.nextId.toNat < _
      omega
    · refine (hgrow.kept p.nextId.toNat (by omega)).trans ?_
      rw [getD_addRule, if_pos rfl]
    · obtain ⟨hle, hlt, hrule⟩ := hadded e he
      exact ⟨by omega, hlt, hrule⟩

end Rules

section Runs
variable (tokenize : List UInt8 → Option UInt32) (ruleName : Str) (isNested : Bool)

/-- The loop of `parse_sequence` gets from one state to another. -/
def Runs (st st' : SeqState) : Prop :=
  st'.src.length ≤ st.src.length ∧ ∀ f fuel, st.src.length < f → st.src.length < fuel → ∃ fuel', st'.src.length < fuel' ∧
    seqLoop tokenize (parseAlternates tokenize f) ruleName isNested fuel st =
      seqLoop tokenize (parseAlternates tokenize f) ruleName isNested fuel' st'

end Runs

section Runs
variable {tokenize : List UInt8 → Option UInt32} {ruleName : Str} {isNested : Bool} {st st' st'' : SeqState}

lemma Runs.refl : Runs tokenize ruleName isNested st st :=
  ⟨le_refl _, fun _ fuel _ hfuel => ⟨fuel, hfuel, rfl⟩⟩

lemma Runs.trans (h : Runs tokenize ruleName isNested st st') (h' : Runs tokenize ruleName isNested st' st'') :
    Runs tokenize ruleName isNested st st'' := by
  refine ⟨h'.1.trans h.1, fun f fuel hf hfuel => ?_⟩
  obtain ⟨fuel', hfuel', heq⟩ := h.2 f fuel hf hfuel
  obtain ⟨fuel'', hfuel'', heq'⟩ := h'.2 f fuel' (lt_of_le_of_lt h.1 hf) hfuel'
  exact ⟨fuel'', hfuel'', heq.trans heq'⟩

lemma Runs.step (h : ∀ f fuel, st.src.length < f → st.src.length ≤ fuel →
    seqStep tokenize (parseAlternates tokenize f) fuel ruleName isNested st = some (some st')) :
    Runs tokenize ruleName isNested st st' := by
  have hlen : st'.src.length < st.src.length :=
    length_seqStep (noLonger_parseAlternates tokenize _) (h _ _ (Nat.lt_succ_self _) (le_refl _))
  refine ⟨le_of_lt hlen, fun f fuel hf hfuel => ?_⟩
  cases fuel with
  | zero => omega
  | succ fuel =>
    refine ⟨fuel, by omega, ?_⟩
    rw [seqLoop, h f fuel hf (by omega)]
    rfl

lemma Runs.stop (h : Runs tokenize ruleName isNested st st') {f fuel : Nat} (hf : st.src.length < f)
    (hfuel : st.src.length < fuel) (hstop : ∀ alternates fuel,
      seqStep tokenize alternates fuel ruleName isNested st' = some none) :
    seqLoop tokenize (parseAlternates tokenize f) ruleName isNested fuel st = some st' := by
  obtain ⟨fuel', hfuel', heq⟩ := h.2 f fuel hf hfuel
  cases fuel' with
  | zero => omega
  | succ fuel' =>
    rw [heq, seqLoop, hstop]
    rfl

end Runs

/-- The rules that come with `p'` are in the grammar. -/
def Has {n : Nat} (G : RuleSet n) (p p' : GrParser) : Prop :=
  ∀ i < p'.symbolIds.length, p.symbolIds.length ≤ i → G.rules.getD i [] = p'.rules.getD i []

/-- In every grammar with these rules the elements are symbols that derive the language. -/
def Denotes (p p' : GrParser) (es : GrRule) (L : Language UInt32) : Prop :=
  ∀ n (G : RuleSet n), Has G p p' → ∃ β : List (GrSym n), es = RuleSet.seqElems β ∧ GrParser.words G β = L

/-- In every grammar with these rules the elements are alternatives that derive the language. -/
def DenotesAlts (p p' : GrParser) (es : GrRule) (L : Language UInt32) : Prop :=
  ∀ n (G : RuleSet n), Has G p p' → ∃ αs : List (List (GrSym n)), αs ≠ [] ∧ es = RuleSet.ruleElems αs ∧
    ∀ w, w ∈ L ↔ ∃ α ∈ αs, w ∈ GrParser.words G α

section Meaning
variable {p p' p'' : GrParser} {j k : Nat} {es es' : GrRule} {K L : Language UInt32} {n : Nat} {G : RuleSet n}

lemma Has.left (h : Has G p p'') (hgrow' : Grows p' p'' k) : Has G p p' := by
  intro i hi hle
  rw [h i (lt_of_lt_of_le hi hgrow'.le.1) hle, hgrow'.kept i hi]

lemma Has.right (h : Has G p p'') (hgrow : Grows p p' j) : Has G p' p'' :=
  fun i hi hle => h i hi (hgrow.le.1.trans hle)

lemma Denotes.nil : Denotes p p' [] 1 := fun _ _ _ => ⟨[], rfl, langOf_nil⟩

lemma Denotes.append (h : Denotes p p' es K) (hgrow : Grows p p' j) (h' : Denotes p' p'' es' L)
    (hgrow' : Grows p' p'' k) : Denotes p p'' (es ++ es') (K * L) := by
  intro n G hG
  obtain ⟨β, rfl, hβ⟩ := h n G (hG.left hgrow')
  obtain ⟨β', rfl, hβ'⟩ := h' n G (hG.right hgrow)
  refine ⟨β ++ β', flatMap_append.symm, ?_⟩
  rw [GrParser.words, langOf_append]
  exact congrArg₂ _ hβ hβ'

lemma words_term (t : GrTerm) : GrParser.words G [.term t] = letters fun c => t.has c := by
  ext w
  constructor
  · intro h
    cases h with
    | term hc h =>
      cases h
      exact ⟨_, rfl, hc⟩
  · rintro ⟨c, rfl, hc⟩
    exact .term hc .nil

lemma denotes_class (negated : Bool) (first : CharItem) (more : List CharItem) :
    Denotes p p' (CharClass.chars negated first more).elems (classWords negated first more) :=
  fun _ _ _ => ⟨[.term (.cls (.chars negated first more))], (append_nil _).symm, words_term _⟩

lemma denotes_chars (cs : List UInt32) : Denotes p p (chars cs) {cs} := by
  intro n G hG
  induction cs with
  | nil => exact ⟨[], rfl, langOf_nil⟩
  | cons c cs ih =>
    obtain ⟨β, hβ, hL⟩ := ih
    obtain ⟨t, ht⟩ : ∃ t : GrTerm, t = .cls (.chars false (.one c) []) := ⟨_, rfl⟩
    have hhas : ∀ d, t.has d = true ↔ c = d := by
      intro d
      simp [ht, GrTerm.has, CharClass.has, CharItem.has]
    refine ⟨.term t :: β, ?_, ?_⟩
    · rw [ht]
      exact congrArg (List.cons _) hβ
    · have hcons : GrParser.words G (.term t :: β) = GrParser.words G [.term t] * GrParser.words G β :=
        langOf_append (α := [.term t])
      rw [hcons, hL, words_term]
      ext w
      rw [Language.mem_mul]
      constructor
      · rintro ⟨u, ⟨d, rfl, hd⟩, v, hv, rfl⟩
        rw [show v = cs from hv, (hhas d).1 hd]
        rfl
      · intro hw
        exact ⟨[c], ⟨c, rfl, (hhas c).2 rfl⟩, cs, rfl, (show w = c :: cs from hw).symm⟩

lemma Denotes.one (h : Denotes p p' es L) : DenotesAlts p p' (es ++ [⟨.end, 0⟩]) L := by
  intro n G hG
  obtain ⟨β, rfl, rfl⟩ := h n G hG
  refine ⟨[β], cons_ne_nil _ _, rfl, fun w => ?_⟩
  simp

lemma Denotes.more (h : Denotes p p' es K) (hgrow : Grows p p' j) (h' : DenotesAlts p' p'' es' L)
    (hgrow' : Grows p' p'' k) : DenotesAlts p p'' (es ++ ⟨.alt, 0⟩ :: es') (K + L) := by
  intro n G hG
  obtain ⟨β, rfl, rfl⟩ := h n G (hG.left hgrow')
  obtain ⟨αs, hne, rfl, hL⟩ := h' n G (hG.right hgrow)
  refine ⟨β :: αs, cons_ne_nil _ _, (ruleElems_cons β hne).symm, fun w => ?_⟩
  rw [Language.mem_add, hL]
  simp

lemma denotes_ref {q q' : GrParser} {id : UInt32} (h : DenotesAlts q q' es L)
    (hrule : ∀ n (G : RuleSet n), Has G p p' → Has G q q' ∧ G.rules.getD id.toNat [] = es) :
    Denotes p p' [⟨.ruleRef, id⟩] L := by
  intro n G hG
  obtain ⟨hG', hid⟩ := hrule n G hG
  obtain ⟨αs, hne, rfl, hL⟩ := h n G hG'
  have hlt : id.toNat < n := lt_of_getD_ne (G := G) (by
    rw [hid]
    cases αs with
    | nil => exact absurd rfl hne
    | cons α αs => cases αs <;> simp [RuleSet.ruleElems])
  have halts : G.alts ⟨id.toNat, hlt⟩ = αs := by
    apply RuleSet.ruleElems_inj G.small (G.nonempty _) hne
    rw [← getD_rules]
    exact hid
  refine ⟨[.ref ⟨id.toNat, hlt⟩], (seqElems_ref G rfl).symm, ?_⟩
  ext w
  rw [hL, mem_langOf, derives_ref, halts]
  exact exists_congr fun α => and_congr_right fun _ => by rw [append_nil]; rfl

end Meaning

def Starts (c : UInt8) : Prop := c = 91 ∨ c = 34 ∨ c = 40 ∨ isWordChar c = true

def Follows (cs : List UInt8) (rest : Str) : Prop := ∀ c ∈ rest.head?, c ∈ cs

section Heads
variable {ok : Nat → Nat → Option Nat → Prop} {env : Str → Language UInt32 → Prop} {kind : Kind} {k : Nat}
  {s t rest : Str} {c : UInt8} {L : Language UInt32}

lemma Starts.solid (h : Starts c) : Solid (c :: s) := by
  intro d hd
  cases hd
  refine ⟨?_, ?_, ?_, ?_, ?_⟩ <;> (rintro rfl; exact absurd h (by unfold Starts; decide))

lemma Follows.solid {cs : List UInt8} (h : Follows cs rest) (hcs : ∀ c ∈ cs, c = 41 ∨ c = 124) : Solid rest := by
  intro c hc
  obtain rfl | rfl := hcs c (h c hc)
  · exact ⟨by decide, by decide, by decide, by decide, by decide⟩
  · exact ⟨by decide, by decide, by decide, by decide, by decide⟩

lemma Reads.starts (h : Reads ok env kind k t L) (hkind : kind = .atom ∨ kind = .item) :
    ∃ c s, t = c :: s ∧ Starts c := by
  induction h with
  | cls => exact ⟨_, _, rfl, .inl rfl⟩
  | @ref name _ _ hne hword =>
    cases name with
    | nil => exact absurd rfl hne
    | cons c name => exact ⟨c, name, rfl, .inr (.inr (.inr (hword c mem_cons_self)))⟩
  | group => exact ⟨_, _, rfl, .inr (.inr (.inl rfl))⟩
  | lit => exact ⟨_, _, rfl, .inr (.inl rfl)⟩
  | atom _ ih => exact ih (.inl rfl)
  | @rep k t L m n op _ _ _ ih =>
    obtain ⟨c, s, rfl, hc⟩ := ih (.inl rfl)
    exact ⟨c, s ++ op, rfl, hc⟩
  | _ => exact absurd hkind (by simp)

lemma Reads.solid_seq (h : Reads ok env .seq k t L) (hrest : Solid rest) : Solid (t ++ rest) := by
  cases h with
  | nil => exact hrest
  | cons h =>
    obtain ⟨c, s, rfl, hc⟩ := h.starts (.inr rfl)
    exact hc.solid

lemma Reads.solid_alts (h : Reads ok env .alts k t L) (hrest : Solid rest) : Solid (t ++ rest) := by
  cases h with
  | one h => exact h.solid_seq hrest
  | more h =>
    rw [append_assoc, append_assoc]
    refine h.solid_seq fun c hc => ?_
    cases hc
    exact ⟨by decide, by decide, by decide, by decide, by decide⟩

end Heads

def Within (k m : Nat) (n : Option Nat) : Prop := (∀ i ∈ n, m ≤ i) ∧ max 1 k * max 1 (n.getD m) < 2000

def noRules : Str → Language UInt32 → Prop := fun _ _ => False

section Run
variable (tokenize : List UInt8 → Option UInt32)

/-- The parser gets over an item, by elements that do not depend on what stands before and behind it. -/
def RunsOver (k : Nat) (t : Str) (L : Language UInt32) (nonempty : Prop) : Prop :=
  ∀ ruleName isNested p, Fresh p → p.symbolIds.length + k ≤ 4294967296 →
    ∃ es p', (nonempty → es ≠ []) ∧ Grows p p' k ∧ Denotes p p' es L ∧ ∀ st rest, st.parser = p → st.src = t ++ rest →
      ∃ c : Nat, (nonempty → 1 ≤ c ∧ c ≤ max 1 k) ∧ Runs tokenize ruleName isNested st {
        src := parseSpace isNested false rest, rule := st.rule ++ es, lastSymStart := st.rule.length
        nPrevRules := UInt64.ofNat c, parser := p' }

/-- The loop of `parse_sequence` stops behind a sequence. -/
def RunsSeq (k : Nat) (t : Str) (L : Language UInt32) : Prop :=
  ∀ ruleName isNested p, Fresh p → p.symbolIds.length + k ≤ 4294967296 →
    ∃ es p', Grows p p' k ∧ Denotes p p' es L ∧ ∀ st rest, st.parser = p → st.src = t ++ rest → Follows [41, 124] rest →
      ∃ l c, Runs tokenize ruleName isNested st
        { src := rest, rule := st.rule ++ es, lastSymStart := l, nPrevRules := c, parser := p' }

/-- The loop of `parse_alternates`, with the sequence before it. -/
def altsFrom (ruleName : Str) (isNested : Bool) (f fuel : Nat) (src : Str) (rule : GrRule) (p : GrParser) :
    Option (Str × GrRule × GrParser) := do
  let s ← parseSequence tokenize (parseAlternates tokenize f) fuel src ruleName rule isNested p
  altLoop tokenize (parseAlternates tokenize f) ruleName isNested fuel s.1 s.2.1 s.2.2

def RunsAlts (k : Nat) (t : Str) (L : Language UInt32) : Prop :=
  ∀ ruleName isNested p, Fresh p → p.symbolIds.length + k ≤ 4294967296 →
    ∃ es p', Grows p p' k ∧ DenotesAlts p p' (es ++ [⟨.end, 0⟩]) L ∧ ∀ rest f fuel rule, Follows [41] rest →
      (t ++ rest).length < f → (t ++ rest).length < fuel →
      altsFrom tokenize ruleName isNested f fuel (t ++ rest) rule p = some (rest, rule ++ es, p')

def RunsKind : Kind → Nat → Str → Language UInt32 → Prop
  | .atom, k, t, L => RunsOver tokenize k t L True
  | .item, k, t, L => RunsOver tokenize k t L False
  | .seq, k, t, L => RunsSeq tokenize k t L
  | .alts, k, t, L => RunsAlts tokenize k t L

end Run

section Run
variable {tokenize : List UInt8 → Option UInt32} {j k : Nat} {s t u : Str} {K L : Language UInt32}

variable {alternates : Alternates} {fuel : Nat} {ruleName rest : Str} {isNested : Bool} {p : GrParser}
  {es : GrRule} {m : Nat} {n : Option Nat} {op : Str}

lemma seqStep_class {src : Str} {negated : Bool}
    {rule : GrRule} {lastSymStart : Nat} {nPrevRules : UInt64} {first : CharItem} {more : List CharItem}
    (hfirst : PlainItem first) (hmore : ∀ i ∈ more, PlainItem i) (hsrc : src = classText negated (first :: more) ++ rest)
    (hfuel : src.length ≤ fuel) :
    seqStep tokenize alternates fuel ruleName isNested ⟨src, rule, lastSymStart, nPrevRules, p⟩ = some (some {
      src := parseSpace isNested false rest, rule := rule ++ (CharClass.chars negated first more).elems
      lastSymStart := rule.length, nPrevRules := 1, parser := p }) := by
  have hitems : ((first :: more).flatMap itemText).length < fuel := by
    rw [hsrc, classText, length_append, length_append, cons_append, length_cons, length_append] at hfuel
    omega
  have hcons : src = 91 :: ((if negated then [94] else []) ++ ((first :: more).flatMap itemText ++ 93 :: rest)) := by
    rw [hsrc, classText]
    simp only [append_assoc, cons_append, nil_append]
  have hhead : ((first :: more).flatMap itemText ++ 93 :: rest).head? ≠ some 94 := by
    cases first with
    | one c => exact fun heq => hfirst.toUInt8_ne.2.2 (Option.some.inj heq)
    | range a b => exact fun heq => hfirst.1.toUInt8_ne.2.2 (Option.some.inj heq)
  have hclass : charClass (if negated then .charNot else .char) rule.length fuel
      ((first :: more).flatMap itemText ++ 93 :: rest) rule = _ := charClass_text hfirst hmore hitems
  have hstep : ∀ s : Str, seqStep tokenize alternates fuel ruleName isNested ⟨91 :: s, rule, lastSymStart, nPrevRules, p⟩ =
      (charClass (if s.head? = some 94 then .charNot else .char) rule.length fuel
        (if s.head? = some 94 then s.tail else s) rule).bind fun r => some (some {
          src := parseSpace isNested false r.1, rule := r.2, lastSymStart := rule.length, nPrevRules := 1, parser := p }) :=
    fun s => rfl
  rw [hcons, hstep]
  cases negated with
  | true =>
    change (charClass .charNot rule.length fuel ((first :: more).flatMap itemText ++ 93 :: rest) rule).bind _ = _
    exact (congrArg (Option.bind · _) hclass)
  | false =>
    change (charClass (if ((first :: more).flatMap itemText ++ 93 :: rest).head? = some 94 then .charNot else .char)
      rule.length fuel (if ((first :: more).flatMap itemText ++ 93 :: rest).head? = some 94 then
        ((first :: more).flatMap itemText ++ 93 :: rest).tail else (first :: more).flatMap itemText ++ 93 :: rest)
      rule).bind _ = _
    rw [if_neg hhead, if_neg hhead]
    exact (congrArg (Option.bind · _) hclass)

lemma runs_class {negated : Bool} {first : CharItem} {more : List CharItem} (hfirst : PlainItem first)
    (hmore : ∀ i ∈ more, PlainItem i) :
    RunsKind tokenize .atom 0 (classText negated (first :: more)) (classWords negated first more) := by
  intro ruleName isNested p hfresh hsmall
  have hne : (CharClass.chars negated first more).elems ≠ [] := by
    obtain ⟨e, es, heq, -⟩ := exists_char (.chars negated first more)
    rw [heq]
    exact cons_ne_nil _ _
  refine ⟨_, p, fun _ => hne, .refl hfresh, denotes_class negated first more, ?_⟩
  rintro st rest rfl hsrc
  exact ⟨1, fun _ => ⟨le_refl 1, le_max_left 1 0⟩, .step fun f fuel hf hfuel => seqStep_class hfirst hmore hsrc hfuel⟩

lemma runs_lit {text : Str} {cs : List UInt32} (h : cptsToUtf8 cs = some text) :
    RunsKind tokenize .item 0 (formatLiteral text) {cs} := by
  intro ruleName isNested p hfresh hsmall
  refine ⟨chars cs, p, False.elim, .refl hfresh, denotes_chars cs, ?_⟩
  rintro st rest rfl hsrc
  exact ⟨1, False.elim, .step fun _ _ _ hfuel => seqStep_literal h hsrc hfuel⟩

lemma parseAlternates_eq {f : Nat} {src : Str} {p' : GrParser}
    (id : UInt32) (hf : src.length + 1 < f) (h : ∀ f fuel rule, src.length < f → src.length < fuel →
      altsFrom tokenize ruleName isNested f fuel src rule p = some (rest, rule ++ es, p')) :
    parseAlternates tokenize f src ruleName id isNested p = some (rest, p'.addRule id (es ++ [⟨.end, 0⟩])) := by
  cases f with
  | zero => omega
  | succ f =>
    have hfrom := h f f [] (by omega) (by omega)
    have hbind : parseAlternates tokenize (f + 1) src ruleName id isNested p =
        (altsFrom tokenize ruleName isNested f f src [] p).bind fun s =>
          some (s.1, s.2.2.addRule id (s.2.1 ++ [⟨.end, 0⟩])) := by
      unfold parseAlternates altsFrom
      cases parseSequence tokenize (parseAlternates tokenize f) f src ruleName [] isNested p <;> rfl
    rw [hbind, hfrom]
    rfl

lemma follows_cons {c : UInt8} {cs : List UInt8} (h : c ∈ cs) : Follows cs (c :: rest) := by
  intro d hd
  cases hd
  exact h

lemma runs_group (hs : Blank s) (hsolid : ∀ rest, Solid rest → Solid (t ++ rest)) (ih : RunsKind tokenize .alts k t L) :
    RunsKind tokenize .atom (k + 1) (40 :: s ++ t ++ [41]) L := by
  intro ruleName isNested p hfresh hsmall
  obtain ⟨hgen, hid⟩ := generateSymbolId_fresh ruleName hfresh (by omega)
  have hfresh' := hfresh.generate ruleName (by omega)
  have hlen : (p.generateSymbolId ruleName).2.symbolIds.length = p.symbolIds.length + 1 := by
    rw [hgen]
    exact length_append
  obtain ⟨es, p', hgrow, hden, hrun⟩ := ih ruleName true _ hfresh' (by omega)
  have hgrow' : Grows p (p'.addRule p.nextId (es ++ [⟨.end, 0⟩])) (k + 1) :=
    Grows.addRule hfresh (by omega) hgrow (by simp)
  have hle := hgrow'.le
  have hlt : p.symbolIds.length < (p'.addRule p.nextId (es ++ [⟨.end, 0⟩])).symbolIds.length := by
    have := hgrow.le.1
    change _ < p'.symbolIds.length
    omega
  refine ⟨[⟨.ruleRef, p.nextId⟩], p'.addRule p.nextId (es ++ [⟨.end, 0⟩]), fun _ => cons_ne_nil _ _, hgrow',
    denotes_ref hden fun n G hG => ⟨fun i hi hi' => ?_, ?_⟩, ?_⟩
  · rw [hG i hi (by omega), getD_addRule, if_neg (by omega)]
  · rw [hid, hG _ hlt (le_refl _), getD_addRule, if_pos hid.symm]
  rintro ⟨src, rule, lastSymStart, nPrevRules, parser⟩ rest rfl hsrc
  have hsrc' : src = 40 :: (s ++ (t ++ 41 :: rest)) := by
    rw [show src = _ from hsrc]
    simp
  have hspace : parseSpace true false (s ++ (t ++ 41 :: rest)) = t ++ 41 :: rest := by
    rw [parseSpace_blank hs, parseSpace_solid]
    exact hsolid _ ((follows_cons (mem_singleton.2 rfl)).solid fun c hc => .inl (mem_singleton.1 hc))
  obtain ⟨c, hc⟩ : ∃ c, c = max 1 (UInt32.ofNat (p'.addRule parser.nextId (es ++ [⟨.end, 0⟩])).symbolIds.length -
    UInt32.ofNat parser.symbolIds.length).toNat := ⟨_, rfl⟩
  refine ⟨c, fun _ => ⟨hc ▸ le_max_left _ _, ?_⟩, .step fun f fuel hf hfuel => ?_⟩
  · have hsub : ∀ a b : Nat, b ≤ a → a ≤ b + (k + 1) → b < 4294967296 → (UInt32.ofNat a - UInt32.ofNat b).toNat ≤ k + 1 := by
      intro a b _ _ _
      rw [UInt32.toNat_sub, UInt32.toNat_ofNat', UInt32.toNat_ofNat']
      omega
    rw [hc]
    exact max_le_max_left 1 (hsub _ _ hle.1 hle.2 (lt_of_lt_of_le hlt (hle.2.trans hsmall)))
  · have halts := parseAlternates_eq (f := f) parser.nextId (by
      change src.length < f at hf
      rw [hsrc', length_cons, length_append] at hf
      omega) fun f fuel rule => hrun (41 :: rest) f fuel rule (follows_cons (mem_singleton.2 rfl))
    have hstep : seqStep tokenize (parseAlternates tokenize f) fuel ruleName isNested
        ⟨src, rule, lastSymStart, nPrevRules, parser⟩ =
        (parseAlternates tokenize f (parseSpace true false (s ++ (t ++ 41 :: rest))) ruleName parser.nextId true
          (parser.generateSymbolId ruleName).2).bind fun a => if a.1.head? = some 41 then some (some {
            src := parseSpace isNested false a.1.tail, rule := rule ++ [⟨.ruleRef, parser.nextId⟩]
            lastSymStart := rule.length
            nPrevRules := UInt64.ofNat (max 1 (UInt32.ofNat a.2.symbolIds.length -
              UInt32.ofNat parser.symbolIds.length).toNat), parser := a.2 }) else none := by
      rw [hsrc']
      rfl
    rw [hstep, hspace, halts, hc]
    rfl

lemma solid_op (h : Operator m n op) (rest : Str) : Solid (op ++ rest) := by
  intro c hc
  cases h <;> cases hc <;> exact ⟨by decide, by decide, by decide, by decide, by decide⟩

lemma toNat_ofNat64 {a : Nat} (h : a ≤ 2000) : (UInt64.ofNat a).toNat = a :=
  UInt64.toNat_ofNat_of_lt' (lt_of_le_of_lt h (by decide))

lemma ofNat64_ne_max {a : Nat} (h : a ≤ 2000) : UInt64.ofNat a ≠ 18446744073709551615 := by
  intro heq
  have := congrArg UInt64.toNat heq
  rw [toNat_ofNat64 h] at this
  change a = 18446744073709551615 at this
  omega

lemma Within.bounds (h : Within k m n) : m ≤ 2000 ∧ (∀ i ∈ n, i ≤ 2000) ∧ UInt64.ofNat m ≤ bound64 n ∧
      (optTimes (UInt64.ofNat m) (bound64 n)).toNat = generated m n ∧
      (totalRules (bound64 n == 18446744073709551615) (UInt64.ofNat m) (bound64 n)).toNat = max 1 (n.getD m) := by
  obtain ⟨hle, hlt⟩ := h
  have hpos : max 1 (n.getD m) ≤ max 1 k * max 1 (n.getD m) :=
    Nat.le_mul_of_pos_left _ (lt_of_lt_of_le one_pos (le_max_left 1 k))
  have hone : ∀ {a : Nat}, a ≤ 2000 → (0 < UInt64.ofNat a ↔ 0 < a) := by
    intro a ha
    rw [UInt64.lt_iff_toNat_lt, toNat_ofNat64 ha]
    rfl
  cases n with
  | none =>
    change max 1 m ≤ _ at hpos
    have hm : m ≤ 2000 := by omega
    refine ⟨hm, fun _ hi => (nomatch hi), ?_, rfl, ?_⟩
    · rw [UInt64.le_iff_toNat_le, toNat_ofNat64 hm]
      change m ≤ 18446744073709551615
      omega
    · have htotal : totalRules (bound64 none == 18446744073709551615) (UInt64.ofNat m) (bound64 none) =
          if 0 < UInt64.ofNat m then UInt64.ofNat m else 1 := by
        rw [totalRules, if_neg fun h => absurd h.1 (by decide)]
      rw [htotal]
      by_cases hpos' : 0 < m
      · rw [if_pos ((hone hm).2 hpos'), toNat_ofNat64 hm]
        exact (max_eq_right hpos').symm
      · rw [if_neg fun h => hpos' ((hone hm).1 h)]
        exact (Nat.max_eq_left (Nat.le_succ_of_le (Nat.le_of_not_lt hpos'))).symm
  | some i =>
    change max 1 i ≤ _ at hpos
    have hi : i ≤ 2000 := by omega
    have hmi := hle i rfl
    have hm : m ≤ 2000 := by omega
    have hmi' : UInt64.ofNat m ≤ UInt64.ofNat i := by
      rw [UInt64.le_iff_toNat_le, toNat_ofNat64 hm, toNat_ofNat64 hi]
      exact hmi
    have hbeq : (bound64 (some i) == 18446744073709551615) = false := beq_eq_false_iff_ne.2 (ofNat64_ne_max hi)
    refine ⟨hm, fun _ h => Option.mem_some.1 h ▸ hi, hmi', ?_, ?_⟩
    · rw [optTimes, hbeq]
      change (UInt64.ofNat i - UInt64.ofNat m).toNat = i - m
      rw [UInt64.toNat_sub_of_le _ _ hmi', toNat_ofNat64 hm, toNat_ofNat64 hi]
    · rw [hbeq, totalRules]
      by_cases hpos' : 0 < i
      · rw [if_pos ⟨rfl, (hone hi).2 hpos'⟩]
        exact (toNat_ofNat64 hi).trans (max_eq_right hpos').symm
      · rw [if_neg fun h => hpos' ((hone hi).1 h.2), if_neg fun h => hpos' (lt_of_lt_of_le ((hone hm).1 h) hmi)]
        exact (Nat.max_eq_left (Nat.le_succ_of_le (Nat.le_of_not_lt hpos'))).symm

lemma seqStep_op {st : SeqState} (hsrc : st.src = op ++ rest) (hop : Operator m n op) (hok : Within k m n) :
    seqStep tokenize alternates fuel ruleName isNested st =
      (handleRepetitions ruleName (UInt64.ofNat m) (bound64 n)
        { st with src := parseSpace isNested false rest }).map some := by
  obtain ⟨src, rule, l, c, p⟩ := st
  change src = _ at hsrc
  obtain ⟨hm, hn, -⟩ := hok.bounds
  have htext : operator isNested (op ++ rest) = _ := operator_text hop hm hn
  -- the braces, with the check of their bounds
  have hbrace : ∀ s, src = 123 :: s → seqStep tokenize alternates fuel ruleName isNested ⟨src, rule, l, c, p⟩ =
      (handleRepetitions ruleName (UInt64.ofNat m) (bound64 n)
        ⟨parseSpace isNested false rest, rule, l, c, p⟩).map some := by
    rintro s rfl
    rw [← hsrc] at htext
    have hb : bounds isNested (parseSpace isNested false s) = _ := htext
    have hstep : seqStep tokenize alternates fuel ruleName isNested ⟨123 :: s, rule, l, c, p⟩ =
        (bounds isNested (parseSpace isNested false s)).bind fun b =>
          if 2000 < b.1 ∨ b.2.1 ≠ 18446744073709551615 ∧ 2000 < b.2.1 then none
          else (handleRepetitions ruleName b.1 b.2.1 ⟨b.2.2, rule, l, c, p⟩).map some := rfl
    rw [hstep, hb, Option.bind_some, if_neg]
    have hnot : ∀ {a : Nat}, a ≤ 2000 → ¬ 2000 < UInt64.ofNat a := by
      intro a ha h
      rw [UInt64.lt_iff_toNat_lt, toNat_ofNat64 ha] at h
      change 2000 < a at h
      omega
    rintro (h | ⟨hne, h⟩)
    · exact hnot hm h
    · cases n with
      | none => exact hne rfl
      | some i => exact hnot (hn i rfl) h
  subst hsrc
  cases hop with
  | star => rfl
  | plus => rfl
  | opt => rfl
  | exactly => exact hbrace _ rfl
  | atLeast => exact hbrace _ rfl
  | between => exact hbrace _ rfl

lemma parser_handleRepetitions {m n : UInt64} {st st' : SeqState}
    (h : handleRepetitions ruleName m n st = some st') : st'.parser =
      (recRules ruleName (st.rule.drop st.lastSymStart) (n == 18446744073709551615) (optTimes m n).toNat true 0
        st.parser).2 := by
  unfold handleRepetitions at h
  dsimp only at h
  split at h
  · cases h
  split at h
  · cases h
  split at h
  · cases h
  · cases h
    rfl

lemma mem_powers {L : Language UInt32} {w : List UInt32} :
    w ∈ powers L m n ↔ ∃ u ∈ L ^ m, ∃ v, (∃ i, (∀ j ∈ n, m + i ≤ j) ∧ v ∈ L ^ i) ∧ u ++ v = w := by
  constructor
  · rintro ⟨i, hi, hn, hw⟩
    obtain ⟨j, rfl⟩ := Nat.exists_eq_add_of_le hi
    rw [pow_add, Language.mem_mul] at hw
    obtain ⟨u, hu, v, hv, rfl⟩ := hw
    exact ⟨u, hu, v, ⟨j, hn, hv⟩, rfl⟩
  · rintro ⟨u, hu, v, ⟨i, hi, hv⟩, rfl⟩
    refine ⟨m + i, Nat.le_add_right m i, hi, ?_⟩
    rw [pow_add]
    exact Language.append_mem_mul hu hv

def repeated (ruleName : Str) (es : GrRule) (m : Nat) (n : Option Nat) (p : GrParser) : GrRule :=
  (List.replicate m es).flatten ++ (if 0 < optTimes (UInt64.ofNat m) (bound64 n) then [⟨.ruleRef,
    (recRules ruleName es (bound64 n == 18446744073709551615) (generated m n) true 0 p).1⟩] else [])

lemma denotes_repeated {j k : Nat} {p' : GrParser} {L : Language UInt32}
    (hok : Within k m n) (hgrow : Grows p p' j) (hsmall : p'.symbolIds.length + generated m n ≤ 4294967296)
    (h : Denotes p p' es L) :
    Denotes p (recRules ruleName es (bound64 n == 18446744073709551615) (generated m n) true 0 p').2
      (repeated ruleName es m n p') (powers L m n) := by
  obtain ⟨hm, hn, hle, hopt, -⟩ := hok.bounds
  obtain ⟨hgrow', hadded⟩ := grows_recRules ruleName es (bound64 n == 18446744073709551615) (generated m n) true 0
    hgrow.fresh hsmall
  intro N G hG
  obtain ⟨β, rfl, rfl⟩ := h N G (hG.left hgrow')
  obtain ⟨T, hT, hwords⟩ := @exists_rest ruleName N G β _ _ p' hle fun e he => by
    rw [hopt] at he
    obtain ⟨hge, hlt, heq⟩ := hadded e he
    rw [← heq]
    exact hG _ hlt (hgrow.le.1.trans hge)
  refine ⟨(List.replicate m β).flatten ++ T, ?_, ?_⟩
  · rw [repeated, ← hopt, ← hT, ← seqElems_replicate]
    exact flatMap_append.symm
  · ext w
    rw [GrParser.words, langOf_append, langOf_replicate, Language.mem_mul, mem_powers]
    refine exists_congr fun u => and_congr_right fun _ => exists_congr fun v => and_congr_left fun _ => ?_
    refine (hwords v).trans (exists_congr fun i => and_congr_left fun _ => ?_)
    rw [toNat_ofNat64 hm]
    cases n with
    | none => exact ⟨fun _ _ hj => absurd hj (Option.not_mem_none _), fun _ h => absurd rfl h⟩
    | some j =>
      have hj := hn j rfl
      have hbound : (bound64 (some j)).toNat = j := toNat_ofNat64 hj
      rw [hbound]
      exact ⟨fun h _ heq => Option.mem_some.1 heq ▸ h (ofNat64_ne_max hj), fun h _ => h j rfl⟩

lemma handleRepetitions_atom {c : Nat} (ruleName src : Str) (rule : GrRule) (p : GrParser)
    (hok : Within k m n) (hne : es ≠ []) (hc : 1 ≤ c) (hck : c ≤ max 1 k) :
    ∃ c', handleRepetitions ruleName (UInt64.ofNat m) (bound64 n) ⟨src, rule ++ es, rule.length, UInt64.ofNat c, p⟩ =
      some ⟨src, rule ++ repeated ruleName es m n p, rule.length, c',
        (recRules ruleName es (bound64 n == 18446744073709551615) (generated m n) true 0 p).2⟩ := by
  obtain ⟨hm, hn, hle, hopt, htotal⟩ := hok.bounds
  have hlt := hok.2
  have hmul : c * max 1 (n.getD m) ≤ max 1 k * max 1 (n.getD m) := Nat.mul_le_mul_right _ hck
  have hpos : 0 < max 1 (n.getD m) := lt_of_lt_of_le one_pos (le_max_left _ _)
  have hcle : c ≤ c * max 1 (n.getD m) := Nat.le_mul_of_pos_right _ hpos
  have hcount : (UInt64.ofNat c *
      totalRules (bound64 n == 18446744073709551615) (UInt64.ofNat m) (bound64 n)).toNat = c * max 1 (n.getD m) := by
    rw [UInt64.toNat_mul, htotal, toNat_ofNat64 (by omega), Nat.mod_eq_of_lt (by omega)]
  obtain ⟨st, hst⟩ : ∃ st, handleRepetitions ruleName (UInt64.ofNat m) (bound64 n)
      ⟨src, rule ++ es, rule.length, UInt64.ofNat c, p⟩ = some st := by
    refine Option.ne_none_iff_exists'.1 fun hnone => ?_
    obtain heq | hlarge | hzero := handleRepetitions_eq_none.1 hnone
    · change rule.length = (rule ++ es).length at heq
      rw [length_append] at heq
      exact hne (length_eq_zero_iff.1 (by omega))
    · rw [UInt64.le_iff_toNat_le, hcount] at hlarge
      change 2000 ≤ _ at hlarge
      omega
    · rw [UInt64.lt_iff_toNat_lt, hcount] at hzero
      change _ < 1 at hzero
      omega
  obtain ⟨hstart, hrule⟩ := handleRepetitions_rule hst
  have hsrc := src_handleRepetitions hst
  have hparser := parser_handleRepetitions hst
  have hdrop : (rule ++ es).drop rule.length = es := drop_left
  have htake : (rule ++ es).take rule.length = rule := take_left
  dsimp only at hrule hsrc hparser hstart
  rw [hdrop, hopt] at hparser
  rw [hdrop, htake, append_assoc, toNat_ofNat64 hm, hopt] at hrule
  obtain ⟨src', rule', l, c', p'⟩ := st
  dsimp only at hrule hsrc hparser hstart
  subst hsrc hparser hstart hrule
  exact ⟨c', hst⟩

lemma runs_rep (hop : Operator m n op) (hok : Within k m n)
    (ih : RunsKind tokenize .atom k t L) : RunsKind tokenize .item (k + generated m n) (t ++ op) (powers L m n) := by
  intro ruleName isNested p hfresh hsmall
  obtain ⟨es, p', hne, hgrow, hden, hrun⟩ := ih ruleName isNested p hfresh (by omega)
  have hle := hgrow.le
  have hgrow' := (grows_recRules ruleName es (bound64 n == 18446744073709551615) (generated m n) true 0 hgrow.fresh
    (by omega)).1
  refine ⟨repeated ruleName es m n p', _, False.elim, hgrow.trans hgrow', denotes_repeated hok hgrow (by omega) hden, ?_⟩
  intro st rest hst hsrc
  obtain ⟨c, hc, hrun⟩ := hrun st (op ++ rest) hst (hsrc.trans (append_assoc _ _ _))
  rw [parseSpace_solid (solid_op hop rest)] at hrun
  obtain ⟨c', hstep⟩ := handleRepetitions_atom ruleName (parseSpace isNested false rest) st.rule p' hok (hne trivial)
    (hc trivial).1 (hc trivial).2
  refine ⟨c'.toNat, False.elim, hrun.trans (.step fun f fuel _ _ => ?_)⟩
  rw [seqStep_op rfl hop hok, UInt64.ofNat_toNat]
  exact congrArg (Option.map some) hstep

lemma runs_atom (ih : RunsKind tokenize .atom k t L) : RunsKind tokenize .item k t L := by
  intro ruleName isNested p hfresh hsmall
  obtain ⟨es, p', -, hgrow, hden, hrun⟩ := ih ruleName isNested p hfresh hsmall
  refine ⟨es, p', False.elim, hgrow, hden, fun st rest hst hsrc => ?_⟩
  obtain ⟨c, -, hrun⟩ := hrun st rest hst hsrc
  exact ⟨c, False.elim, hrun⟩

lemma runs_nil : RunsKind tokenize .seq 0 [] 1 := by
  intro ruleName isNested p hfresh hsmall
  refine ⟨[], p, .refl hfresh, .nil, ?_⟩
  rintro st rest rfl rfl hrest
  refine ⟨st.lastSymStart, st.nPrevRules, ?_⟩
  rw [append_nil]
  exact .refl

lemma runs_cons (hs : Blank s) (hsolid : ∀ rest, Solid rest → Solid (t ++ rest)) (ih : RunsKind tokenize .item j u K)
    (ih' : RunsKind tokenize .seq k t L) : RunsKind tokenize .seq (j + k) (u ++ s ++ t) (K * L) := by
  intro ruleName isNested p hfresh hsmall
  obtain ⟨es, p', -, hgrow, hden, hrun⟩ := ih ruleName isNested p hfresh (by omega)
  have hle := hgrow.le
  obtain ⟨es', p'', hgrow', hden', hrun'⟩ := ih' ruleName isNested p' hgrow.fresh (by omega)
  refine ⟨es ++ es', p'', hgrow.trans hgrow', hden.append hgrow hden' hgrow', fun st rest hst hsrc hrest => ?_⟩
  rw [append_assoc, append_assoc] at hsrc
  obtain ⟨c, -, hrun⟩ := hrun st _ hst hsrc
  have hrest' : Solid rest := hrest.solid fun c hc => by simpa using hc
  rw [parseSpace_blank hs, parseSpace_solid (hsolid rest hrest')] at hrun
  obtain ⟨l, c', hrun'⟩ := hrun' ⟨t ++ rest, st.rule ++ es, st.rule.length, UInt64.ofNat c, p'⟩ rest rfl rfl hrest
  refine ⟨l, c', ?_⟩
  rw [← append_assoc]
  exact hrun.trans hrun'

lemma seqStep_stop {l : Nat} {rule : GrRule} {c : UInt64} (h : Follows [41, 124] rest) :
    seqStep tokenize alternates fuel ruleName isNested ⟨rest, rule, l, c, p⟩ = some none := by
  cases rest with
  | nil => rfl
  | cons d rest =>
    have hd := h d rfl
    simp only [mem_cons, not_mem_nil, or_false] at hd
    obtain rfl | rfl := hd
    · rfl
    · rfl

lemma RunsSeq.parse (h : RunsSeq tokenize k t L) (hfresh : Fresh p)
    (hsmall : p.symbolIds.length + k ≤ 4294967296) :
    ∃ es p', Grows p p' k ∧ Denotes p p' es L ∧ ∀ rest f fuel rule, Follows [41, 124] rest → (t ++ rest).length < f →
      (t ++ rest).length < fuel → parseSequence tokenize (parseAlternates tokenize f) fuel (t ++ rest) ruleName rule
        isNested p = some (rest, rule ++ es, p') := by
  obtain ⟨es, p', hgrow, hden, hrun⟩ := h ruleName isNested p hfresh hsmall
  refine ⟨es, p', hgrow, hden, fun rest f fuel rule hrest hf hfuel => ?_⟩
  obtain ⟨l, c, hrun⟩ := hrun ⟨t ++ rest, rule, rule.length, 1, p⟩ rest rfl rfl hrest
  rw [parseSequence, hrun.stop hf hfuel fun _ _ => seqStep_stop hrest]
  rfl

lemma runs_one (ih : RunsKind tokenize .seq k t L) : RunsKind tokenize .alts k t L := by
  intro ruleName isNested p hfresh hsmall
  obtain ⟨es, p', hgrow, hden, hrun⟩ := RunsSeq.parse ih hfresh hsmall
  refine ⟨es, p', hgrow, hden.one, fun rest f fuel rule hrest hf hfuel => ?_⟩
  have hbar : ¬ rest.head? = some 124 := fun heq => absurd (hrest 124 heq) (by decide)
  rw [altsFrom, hrun rest f fuel rule (fun c hc => mem_cons.2 (.inl (mem_singleton.1 (hrest c hc)))) hf hfuel]
  cases fuel with
  | zero => omega
  | succ fuel =>
    change altLoop tokenize _ ruleName isNested (fuel + 1) rest (rule ++ es) p' = _
    rw [altLoop, if_neg hbar]

lemma runs_more (hs : Blank s) (hsolid : ∀ rest, Solid rest → Solid (u ++ rest)) (ih : RunsKind tokenize .seq j t K)
    (ih' : RunsKind tokenize .alts k u L) : RunsKind tokenize .alts (j + k) (t ++ 124 :: s ++ u) (K + L) := by
  intro ruleName isNested p hfresh hsmall
  obtain ⟨es, p', hgrow, hden, hrun⟩ := RunsSeq.parse ih hfresh (by omega)
  have hle := hgrow.le
  obtain ⟨es', p'', hgrow', hden', hrun'⟩ := ih' ruleName isNested p' hgrow.fresh (by omega)
  refine ⟨es ++ ⟨.alt, 0⟩ :: es', p'', hgrow.trans hgrow', ?_, fun rest f fuel rule hrest hf hfuel => ?_⟩
  · rw [append_assoc]
    exact hden.more hgrow hden' hgrow'
  · have hsrc : t ++ 124 :: s ++ u ++ rest = t ++ 124 :: (s ++ (u ++ rest)) := by simp
    rw [hsrc] at hf hfuel ⊢
    rw [altsFrom, hrun _ f fuel rule (follows_cons (by decide)) hf hfuel]
    rw [length_append, length_cons, length_append] at hf hfuel
    cases fuel with
    | zero => omega
    | succ fuel =>
      have hspace : parseSpace true false (s ++ (u ++ rest)) = u ++ rest := by
        rw [parseSpace_blank hs, parseSpace_solid]
        exact hsolid _ (hrest.solid fun c hc => .inl (mem_singleton.1 hc))
      have hfrom := hrun' rest f fuel (rule ++ es ++ [⟨.alt, 0⟩]) hrest (by omega) (by omega)
      change altLoop tokenize _ ruleName isNested (fuel + 1) (124 :: (s ++ (u ++ rest))) (rule ++ es) p' = _
      have hbar : (124 :: (s ++ (u ++ rest))).head? = some 124 := rfl
      rw [altLoop, if_pos hbar, tail_cons, hspace]
      refine hfrom.trans ?_
      simp

/-- The parser goes over every text within its limits. -/
theorem Reads.runs {kind : Kind} (h : Reads Within noRules kind k t L) (tokenize : List UInt8 → Option UInt32) :
    RunsKind tokenize kind k t L := by
  induction h with
  | cls hfirst hmore => exact runs_class hfirst hmore
  | ref henv => exact henv.elim
  | group hs h ih => exact runs_group hs (fun _ hrest => h.solid_alts hrest) ih
  | lit h => exact runs_lit h
  | atom _ ih => exact runs_atom ih
  | rep _ hop hok ih => exact runs_rep hop hok ih
  | nil => exact runs_nil
  | cons _ hs _ h ih ih' => exact runs_cons hs (fun _ hrest => h.solid_seq hrest) ih ih'
  | one _ ih => exact runs_one ih
  | more _ hs h ih ih' => exact runs_more hs (fun _ hrest => h.solid_alts hrest) ih ih'

end Run

/-- `root` -/
def root : Str := [114, 111, 111, 116]

/-- `root ::= ` -/
def rootIs : Str := root ++ [32, 58, 58, 61, 32]

section Root
variable {k fuel : Nat} {t : Str} {L : Language UInt32}

def atRoot : GrParser := { symbolIds := [(root, 0)] }

lemma fresh_atRoot : Fresh atRoot where
  ids := fun kv hkv => by
    rw [mem_singleton.1 hkv]
    exact one_pos
  names := fun kv hkv b id heq => by
    rw [mem_singleton.1 hkv] at heq
    have hmem := mem_generatedName b id
    rw [← heq] at hmem
    exact absurd hmem (by decide)
  length := Nat.zero_le _

lemma parse_check {p : GrParser} (hfresh : Fresh p) (hfilled : ∀ i < p.symbolIds.length, p.rules.getD i [] ≠ []) :
    (p.rules.any fun rule => rule.isEmpty || rule.any p.undefinedRef) = false := by
  refine any_eq_false.2 fun rule hrule => ?_
  obtain ⟨i, hi, rfl⟩ := mem_iff_getElem.1 hrule
  have hne := hfilled i (lt_of_lt_of_le hi hfresh.length)
  rw [getD_eq_getElem _ _ hi] at hne
  have hrefs : p.rules[i].any p.undefinedRef = false := by
    refine any_eq_false.2 fun e _ hundef => ?_
    simp only [undefinedRef, Bool.and_eq_true, List.isEmpty_iff, any_eq_true, decide_eq_true_eq] at hundef
    obtain ⟨⟨-, hempty⟩, kv, hkv, heq⟩ := hundef
    exact hfilled _ (heq ▸ hfresh.ids kv hkv) hempty
  simp [hne, hrefs]

lemma parse_root {p : GrParser} (es : GrRule) (tokenize : List UInt8 → Option UInt32) (hsolid : Solid t) (hfresh : Fresh p)
    (hfilled : ∀ i < p.symbolIds.length, 1 ≤ i → p.rules.getD i [] ≠ [])
    (hpos : 1 ≤ p.symbolIds.length) (hfuel : (rootIs ++ t).length ≤ fuel)
    (hrun : ∀ f, t.length + 1 < f → parseAlternates tokenize f t root 0 false atRoot =
      some ([], p.addRule 0 (es ++ [⟨.end, 0⟩]))) :
    parse tokenize fuel (rootIs ++ t) = some (p.addRule 0 (es ++ [⟨.end, 0⟩])) := by
  obtain ⟨q, hq⟩ : ∃ q, q = p.addRule 0 (es ++ [⟨.end, 0⟩]) := ⟨_, rfl⟩
  have hlen : (rootIs ++ t).length = t.length + 9 := by
    rw [length_append, add_comm]
    rfl
  have hrule : parseRule tokenize (t.length + 8) (rootIs ++ t) {} = some ([], q) := by
    have hspace : parseSpace true false ((parseSpace false false (32 :: 58 :: 58 :: 61 :: 32 :: t)).drop 3) = t :=
      parseSpace_solid hsolid
    change (parseAlternates tokenize (t.length + 8) (parseSpace true false ((parseSpace false false
      (32 :: 58 :: 58 :: 61 :: 32 :: t)).drop 3)) root 0 false atRoot).bind _ = _
    rw [hspace, hrun _ (by omega), ← hq]
    rfl
  have hcheck := parse_check (p := q) (by
    rw [hq]
    refine ⟨hfresh.ids, hfresh.names, ?_⟩
    change ((p.rules ++ List.replicate (0 + 1 - p.rules.length) []).set 0 _).length ≤ p.symbolIds.length
    have := hfresh.length
    rw [length_set, length_append, length_replicate]
    omega) (by
    rw [hq]
    intro i hi
    rw [getD_addRule]
    split
    · simp
    · rename_i hne
      exact hfilled i hi (Nat.one_le_iff_ne_zero.2 hne))
  rw [parse_fuel hfuel, hlen, parse]
  change (ruleLoop tokenize (t.length + 8 + 1) (rootIs ++ t) {}).bind _ = _
  have hloop : ruleLoop tokenize (t.length + 8 + 1) (rootIs ++ t) {} = some q := by
    change (parseRule tokenize (t.length + 8) (rootIs ++ t) {}).bind _ = _
    rw [hrule]
    rfl
  rw [hloop, Option.bind_some, hcheck, ← hq]
  rfl

lemma parse_runs {tokenize : List UInt8 → Option UInt32} (h : RunsKind tokenize .alts k t L) (hsolid : Solid t)
    (hk : k < 4294967296) (hfuel : (rootIs ++ t).length ≤ fuel) :
    ∃ p n, ∃ (G : RuleSet n) (A : Fin n), parse tokenize fuel (rootIs ++ t) = some p ∧ G.rules = p.rules ∧
      p.symbolIds.lookup root = some (UInt32.ofNat A) ∧ ∀ w, G.Derives [.ref A] w ↔ w ∈ L := by
  have hnil : ∀ cs : List UInt8, Follows cs [] := fun cs c hc => (nomatch hc)
  obtain ⟨es, p, hgrow, hden, hrun⟩ := h root false atRoot fresh_atRoot (by
    change 1 + k ≤ _
    omega)
  have hparse := parse_root es tokenize hsolid hgrow.fresh hgrow.filled hgrow.le.1 hfuel fun f hf => by
    refine parseAlternates_eq 0 hf fun f fuel rule hf hfuel => ?_
    have := hrun [] f fuel rule (hnil _)
    rw [append_nil] at this
    exact this hf hfuel
  obtain ⟨G, hG⟩ := parse_denotes hparse
  have hrules : ∀ i, G.rules.getD i [] = if i = 0 then es ++ [⟨.end, 0⟩] else p.rules.getD i [] := by
    intro i
    rw [hG, getD_addRule]
    rfl
  obtain ⟨αs, hne, hes, hL⟩ := hden _ G fun i _ hle => by
    rw [hrules, if_neg (Nat.one_le_iff_ne_zero.1 hle)]
  have hlt := lt_of_getD_ne (G := G) (i := 0) (by rw [hrules, if_pos rfl]; simp)
  have halts : G.alts ⟨0, hlt⟩ = αs := by
    apply RuleSet.ruleElems_inj G.small (G.nonempty _) hne
    rw [← getD_rules, ← hes]
    exact hrules 0
  obtain ⟨more, hmore, -⟩ := hgrow.grown
  refine ⟨_, _, G, ⟨0, hlt⟩, hparse, hG, ?_, fun w => ?_⟩
  · change p.symbolIds.lookup root = some 0
    rw [hmore]
    rfl
  · rw [hL, RuleSet.Derives, derives_ref, halts]
    exact exists_congr fun α => and_congr_right fun _ => by rw [append_nil]; rfl

/-- What a text denotes is what the grammar derives that `parse` makes of it. -/
theorem parse_reads (h : Reads Within noRules .alts k t L) (hk : k < 4294967296)
    (tokenize : List UInt8 → Option UInt32) (hfuel : (rootIs ++ t).length ≤ fuel) :
    ∃ p n, ∃ (G : RuleSet n) (A : Fin n), parse tokenize fuel (rootIs ++ t) = some p ∧ G.rules = p.rules ∧
      p.symbolIds.lookup root = some (UInt32.ofNat A) ∧ ∀ w, G.Derives [.ref A] w ↔ w ∈ L := by
  have hsolid : Solid (t ++ []) := h.solid_alts fun c hc => (nomatch hc)
  rw [append_nil] at hsolid
  exact parse_runs (h.runs tokenize) hsolid hk hfuel

/-- What `parse` makes of a rule derives the words of a language. -/
def Accepts (text : Str) (L : Language UInt32) : Prop :=
  ∀ (tokenize : List UInt8 → Option UInt32) (fuel : Nat), (rootIs ++ text).length ≤ fuel →
    ∃ p n, ∃ (G : RuleSet n) (A : Fin n), parse tokenize fuel (rootIs ++ text) = some p ∧ G.rules = p.rules ∧
      p.symbolIds.lookup root = some (UInt32.ofNat A) ∧ ∀ w, G.Derives [.ref A] w ↔ w ∈ L

lemma Reads.accepts {k : Nat} {t : Str} {L : Language UInt32} (h : Reads Within noRules .alts k t L)
    (hk : k < 4294967296) : Accepts t L := fun tokenize _ hfuel => parse_reads h hk tokenize hfuel

lemma runs_accepts (h : ∀ tokenize, RunsKind tokenize .alts k t L) (hsolid : Solid t) (hk : k < 4294967296) :
    Accepts t L := fun tokenize _ hfuel => parse_runs (h tokenize) hsolid hk hfuel

lemma rules_inj {m n : Nat} {G : RuleSet m} {G' : RuleSet n} (h : G.rules = G'.rules) :
    ∃ hmn : m = n, hmn ▸ G = G' := by
  have hlen := congrArg List.length h
  rw [RuleSet.rules, RuleSet.rules, length_ofFn, length_ofFn] at hlen
  subst hlen
  obtain ⟨alts, nonempty, small⟩ := G
  obtain ⟨alts', nonempty', small'⟩ := G'
  obtain rfl : alts = alts' := by
    funext A
    apply RuleSet.ruleElems_inj small (nonempty A) (nonempty' A)
    exact congrFun (ofFn_injective h) A
  exact ⟨rfl, rfl⟩

lemma Accepts.unique {t : Str} {L L' : Language UInt32} (h : Accepts t L) (h' : Accepts t L') : L = L' := by
  obtain ⟨p, n, G, A, hparse, hG, hA, hL⟩ := h (fun _ => none) _ (le_refl _)
  obtain ⟨p', n', G', A', hparse', hG', hA', hL'⟩ := h' (fun _ => none) _ (le_refl _)
  obtain rfl := Option.some.inj (hparse.symm.trans hparse')
  obtain ⟨rfl, rfl⟩ := rules_inj (hG.trans hG'.symm)
  have hnat := congrArg UInt32.toNat (Option.some.inj (hA.symm.trans hA'))
  have hsmall := G.small
  rw [UInt32.toNat_ofNat', UInt32.toNat_ofNat', Nat.mod_eq_of_lt (A.isLt.trans_le hsmall),
    Nat.mod_eq_of_lt (A'.isLt.trans_le hsmall)] at hnat
  obtain rfl := Fin.ext hnat
  exact Language.ext fun w => (hL w).symm.trans (hL' w)

end Root

end Mallana.Schema
