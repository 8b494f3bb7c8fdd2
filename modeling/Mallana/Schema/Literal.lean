import Mallana.Grammar.Bounded
import Mallana.Tokenizer.Utf8

/-!
# Literals of the generated grammars

Model of `format_literal` in `src/common/json-schema-to-grammar.cpp`, which escapes four characters. The parser of
grammars reads what it writes back, character by character.
-/

namespace Mallana.Schema

open Tokenizer Grammar GrParser List

/-- The table `GRAMMAR_LITERAL_ESCAPES`. -/
def literalEscapes : List (UInt8 × Str) :=
  [(13, [92, 114]), (10, [92, 110]), (34, [92, 34]), (45, [92, 45]), (93, [92, 93]), (92, [92, 92])]

/-- The class `GRAMMAR_LITERAL_ESCAPE_RE`. -/
def isLiteralEscape (c : UInt8) : Bool := c == 13 || c == 10 || c == 34 || c == 92

/-- C++ `replacePattern` for a class of characters. -/
def replacePattern (input : Str) (regex : UInt8 → Bool) (replacement : UInt8 → Str) : Str :=
  input.flatMap fun c => if regex c then replacement c else [c]

/-- The characters of a literal; the class is part of the table, so `at` does not throw. -/
def escaped (literal : Str) : Str :=
  replacePattern literal isLiteralEscape fun c => (literalEscapes.lookup c).getD []

/-- C++ `format_literal`. -/
def formatLiteral (literal : Str) : Str := 34 :: escaped literal ++ [34]

/-- What a function sees of a text that is passed by `c_str()`. -/
def cString (text : Str) : Str := text.takeWhile fun c => c ≠ 0

lemma escaped_append (a b : Str) : escaped (a ++ b) = escaped a ++ escaped b := flatMap_append

lemma escaped_of_plain {text : Str} (h : ∀ c ∈ text, isLiteralEscape c = false) : escaped text = text := by
  induction text with
  | nil => rfl
  | cons c text ih =>
    obtain ⟨hc, htext⟩ := forall_mem_cons.1 h
    have hhead : escaped [c] = [c] := by
      simp [escaped, replacePattern, hc]
    calc escaped (c :: text) = escaped [c] ++ escaped text := escaped_append [c] text
      _ = c :: text := by rw [hhead, ih htext]; rfl

section Decode
variable {a b d e : Nat} {rest : Str}

lemma decodeTail_more {q y n : Nat} (hy : y < 64) (hq : q < 2 ^ 20) :
    decodeTail (n + 1) (UInt32.ofNat q) (UInt8.ofNat (0x80 + y) :: rest) =
      decodeTail n (UInt32.ofNat (64 * q + y)) rest := by
  have hlow : (UInt8.ofNat (0x80 + y) &&& 63).toUInt32 = UInt32.ofNat y := (tail_byte y hy).2
  rw [decodeTail, shiftLeft_six hq, hlow, UInt32.ofNat_add]

lemma lead_two : ∀ y < 32, ¬ UInt8.ofNat (0xc0 + y) >>> 4 < 12 ∧ UInt8.ofNat (0xc0 + y) >>> 4 < 14 ∧
    (UInt8.ofNat (0xc0 + y) &&& 63).toUInt32 = UInt32.ofNat y := by
  decide

lemma lead_three : ∀ y < 16, ¬ UInt8.ofNat (0xe0 + y) >>> 4 < 12 ∧ ¬ UInt8.ofNat (0xe0 + y) >>> 4 < 14 ∧
    UInt8.ofNat (0xe0 + y) >>> 4 < 15 ∧ (UInt8.ofNat (0xe0 + y) &&& 31).toUInt32 = UInt32.ofNat y := by
  decide

lemma lead_four : ∀ y < 8, ¬ UInt8.ofNat (0xf0 + y) >>> 4 < 12 ∧ ¬ UInt8.ofNat (0xf0 + y) >>> 4 < 14 ∧
    ¬ UInt8.ofNat (0xf0 + y) >>> 4 < 15 ∧ (UInt8.ofNat (0xf0 + y) &&& 15).toUInt32 = UInt32.ofNat y := by
  decide

lemma lead_one : ∀ y < 128, UInt8.ofNat y >>> 4 < 12 ∧ (UInt8.ofNat y &&& 127).toUInt32 = UInt32.ofNat y := by
  decide

end Decode

lemma decodeOne_encodes {c : UInt32} {b : UInt8} {bytes : Str} (h : Encodes c (b :: bytes)) (rest : Str) :
    decodeOne b (bytes ++ rest) = (c, rest) := by
  unfold decodeOne
  cases h with
  | one ha =>
    obtain ⟨h12, hval⟩ := lead_one _ ha
    rw [if_pos h12, hval]
    rfl
  | two ha hb =>
    obtain ⟨h12, h14, hval⟩ := lead_two _ ha
    rw [if_neg h12, if_pos h14, hval]
    exact decodeTail_more hb (by omega)
  | three ha hb hd =>
    obtain ⟨h12, h14, h15, hval⟩ := lead_three _ ha
    rw [if_neg h12, if_neg h14, if_pos h15, hval]
    exact (decodeTail_more hb (by omega)).trans (decodeTail_more hd (by omega))
  | four ha hb hd he =>
    obtain ⟨h12, h14, h15, hval⟩ := lead_four _ ha
    rw [if_neg h12, if_neg h14, if_neg h15, hval]
    exact ((decodeTail_more hb (by omega)).trans (decodeTail_more hd (by omega))).trans
      (decodeTail_more he (by omega))

lemma not_escape_lead : ∀ y < 64, isLiteralEscape (UInt8.ofNat (0xc0 + y)) = false ∧
    isLiteralEscape (UInt8.ofNat (0x80 + y)) = false := by
  decide

lemma encodes_escape {c : UInt32} {bytes : Str} (h : Encodes c bytes) :
    (∃ a, isLiteralEscape a = true ∧ bytes = [a] ∧ c = a.toUInt32) ∨ ∀ x ∈ bytes, isLiteralEscape x = false := by
  have htail : ∀ {y}, y < 64 → isLiteralEscape (UInt8.ofNat (0x80 + y)) = false := fun hy => (not_escape_lead _ hy).2
  cases h with
  | @one a ha =>
    cases hesc : isLiteralEscape (UInt8.ofNat a) with
    | true => exact .inl ⟨_, hesc, rfl, (one_byte a ha).2.symm⟩
    | false => exact .inr (forall_mem_singleton.2 hesc)
  | two ha hb =>
    refine .inr (forall_mem_cons.2 ⟨(not_escape_lead _ (by omega)).1, ?_⟩)
    exact forall_mem_singleton.2 (htail hb)
  | @three a b d ha hb hd =>
    refine .inr (forall_mem_cons.2 ⟨?_, forall_mem_cons.2 ⟨htail hb, ?_⟩⟩)
    · rw [show 0xe0 + a = 0xc0 + (32 + a) by omega]
      exact (not_escape_lead _ (by omega)).1
    · exact forall_mem_singleton.2 (htail hd)
  | @four a b d e ha hb hd he =>
    refine .inr (forall_mem_cons.2 ⟨?_, forall_mem_cons.2 ⟨htail hb, forall_mem_cons.2 ⟨htail hd, ?_⟩⟩⟩)
    · rw [show 0xf0 + a = 0xc0 + (48 + a) by omega]
      exact (not_escape_lead _ (by omega)).1
    · exact forall_mem_singleton.2 (htail he)

lemma parseChar_escaped {c : UInt32} {bytes : Str} (h : Encodes c bytes) (rest : Str) :
    (escaped bytes ++ rest).head? ≠ some 34 ∧ parseChar (escaped bytes ++ rest) = some (c, rest) := by
  rcases encodes_escape h with ⟨a, ha, rfl, rfl⟩ | hplain
  · simp only [isLiteralEscape, Bool.or_eq_true, beq_iff_eq] at ha
    rcases ha with ((rfl | rfl) | rfl) | rfl
    · exact ⟨fun heq => absurd (Option.some.inj heq) (by decide), rfl⟩
    · exact ⟨fun heq => absurd (Option.some.inj heq) (by decide), rfl⟩
    · exact ⟨fun heq => absurd (Option.some.inj heq) (by decide), rfl⟩
    · exact ⟨fun heq => absurd (Option.some.inj heq) (by decide), rfl⟩
  · rw [escaped_of_plain hplain]
    cases bytes with
    | nil => cases h
    | cons b bytes =>
      have hb := hplain b mem_cons_self
      simp only [isLiteralEscape, Bool.or_eq_false_iff, beq_eq_false_iff_ne] at hb
      refine ⟨fun heq => hb.1.2 (Option.some.inj heq), ?_⟩
      change (if b = 92 then _ else some (decodeOne b (bytes ++ rest))) = _
      rw [if_neg hb.2, decodeOne_encodes h]

def chars (cs : List UInt32) : GrRule := cs.map fun c => ⟨.char, c⟩

lemma literal_escaped {cs : List UInt32} {text rest : Str} (h : cptsToUtf8 cs = some text) {fuel : Nat}
    (hfuel : (escaped text).length < fuel) (rule : GrRule) :
    literal fuel (escaped text ++ 34 :: rest) rule = some (rest, rule ++ chars cs) := by
  induction cs generalizing text fuel rule with
  | nil =>
    cases h
    cases fuel with
    | zero => omega
    | succ fuel =>
      rw [chars, map_nil, append_nil]
      rfl
  | cons c cs ih =>
    obtain ⟨head, tail, hhead, htail, rfl⟩ := cptsToUtf8_cons h
    obtain ⟨hquote, hchar⟩ := parseChar_escaped (cptToUtf8_encodes hhead) (escaped tail ++ 34 :: rest)
    have hlen : (escaped tail ++ 34 :: rest).length < _ := length_parseChar hchar
    cases fuel with
    | zero => omega
    | succ fuel =>
      rw [escaped_append, append_assoc, literal, if_neg hquote, hchar, Option.bind_eq_bind, Option.bind_some]
      simp only [escaped_append, length_append] at hfuel hlen
      rw [ih htail (by omega), append_assoc]
      rfl

def afterLiteral (st : SeqState) (isNested : Bool) (cs : List UInt32) (rest : Str) : SeqState :=
  { st with
    src := parseSpace isNested false rest, rule := st.rule ++ chars cs, lastSymStart := st.rule.length
    nPrevRules := 1 }

section Step
variable {cs : List UInt32} {text rest : Str} {tokenize : List UInt8 → Option UInt32} {alternates : Alternates}
  {ruleName : Str} {isNested : Bool} {fuel : Nat} {st : SeqState}

lemma seqStep_literal (hvalid : cptsToUtf8 cs = some text) (hsrc : st.src = formatLiteral text ++ rest)
    (hfuel : st.src.length ≤ fuel) :
    seqStep tokenize alternates fuel ruleName isNested st = some (some (afterLiteral st isNested cs rest)) := by
  obtain ⟨src, rule, lastSymStart, nPrevRules, parser⟩ := st
  change src = _ at hsrc
  change src.length ≤ fuel at hfuel
  have hcons : formatLiteral text ++ rest = 34 :: (escaped text ++ 34 :: rest) := by
    rw [formatLiteral, append_assoc]
    rfl
  rw [hcons] at hsrc
  subst hsrc
  rw [length_cons, length_append] at hfuel
  have hlit : literal fuel (escaped text ++ 34 :: rest) rule = some (rest, rule ++ chars cs) :=
    literal_escaped hvalid (by omega) rule
  unfold seqStep
  dsimp only
  rw [if_pos rfl, hlit]
  rfl

lemma cString_append (h : 0 ∉ text) : cString (text ++ rest) = text ++ cString rest := by
  refine takeWhile_append_of_pos fun c hc => decide_eq_true ?_
  rintro rfl
  exact h hc

lemma zero_notMem_formatLiteral (h : 0 ∉ text) : 0 ∉ formatLiteral text := by
  intro hmem
  obtain hmem | hmem := mem_append.1 hmem
  · obtain heq | hmem := mem_cons.1 hmem
    · cases heq
    · obtain ⟨c, hc, hmem⟩ := mem_flatMap.1 hmem
      split at hmem
      · rename_i hesc
        simp only [isLiteralEscape, Bool.or_eq_true, beq_iff_eq] at hesc
        rcases hesc with ((rfl | rfl) | rfl) | rfl <;> exact absurd hmem (by decide)
      · exact h (mem_singleton.1 hmem ▸ hc)
  · exact absurd hmem (by decide)

end Step

/-- Wherever `parse_sequence` meets the literal of a text without zeros, one round turns it into the elements of the
text's code points. -/
theorem seqStep_formatLiteral {cs : List UInt32} {text rest : Str} (hvalid : cptsToUtf8 cs = some text)
    (hzero : 0 ∉ text) (tokenize : List UInt8 → Option UInt32) (alternates : Alternates) (ruleName : Str)
    (isNested : Bool) {fuel : Nat} {st : SeqState} (hsrc : st.src = cString (formatLiteral text ++ rest))
    (hfuel : st.src.length ≤ fuel) : seqStep tokenize alternates fuel ruleName isNested st =
      some (some (afterLiteral st isNested cs (cString rest))) := by
  rw [cString_append (zero_notMem_formatLiteral hzero)] at hsrc
  exact seqStep_literal hvalid hsrc hfuel

/-- Before the literal of `a"\é]`, with a space and `|` behind it. -/
def atLiteral : SeqState where
  src := cString (formatLiteral [97, 34, 92, 195, 169, 93] ++ [32, 124])
  rule := []
  lastSymStart := 0
  nPrevRules := 1
  parser := {}

theorem seqStep_formatLiteral_accent : seqStep (fun _ => none) (fun _ _ _ _ _ => none) 12 [114] false atLiteral =
    some (some (afterLiteral atLiteral false [97, 34, 92, 233, 93] (cString [32, 124]))) :=
  seqStep_formatLiteral (by decide) (by decide) (fun _ => none) (fun _ _ _ _ _ => none) [114] false rfl (by decide)

end Mallana.Schema
