import Mallana.Schema.Reading

/-!
# Characters in a class

`gbnf_escape_char_class` of `common/peg-parser.cpp` writes a character for a class of a grammar. The parser of grammars
reads it back, apart from the hyphen: `\-` is no escape sequence of the parser.
-/

namespace Mallana.Peg

open Lib Tokenizer Grammar GrParser Schema List

/-- The last `n` hexadecimal digits of a number. -/
def hexText : Nat → Nat → Str
  | 0, _ => []
  | n + 1, k => Tokenizer.hexDigit (UInt8.ofNat (k / 16 ^ n % 16)) :: hexText n k

/-- `gbnf_escape_char_class` -/
def gbnfEscapeCharClass (c : UInt32) : Str :=
  if c = 45 ∨ c = 93 ∨ c = 91 ∨ c = 92 then [92, c.toUInt8]
  else if c = 10 then [92, 110]
  else if c = 9 then [92, 116]
  else if c = 13 then [92, 114]
  else if 0x20 ≤ c ∧ c ≤ 0x7E then [c.toUInt8]
  else if c ≤ 0xFF then 92 :: 120 :: hexText 2 c.toNat
  else if c ≤ 0xFFFF then 92 :: 117 :: hexText 4 c.toNat
  else 92 :: 85 :: hexText 8 c.toNat

def excludedText (cs : List UInt32) : Str := 91 :: 94 :: cs.flatMap gbnfEscapeCharClass ++ [93]

section
variable {c : UInt32} {cs : List UInt32} {rest : Str} {rule : GrRule} {type : GreType} {lastSymStart fuel : Nat}
  {tokenize : List UInt8 → Option UInt32} {alternates : Alternates} {ruleName : Str} {isNested : Bool}

lemma hexDigit_hexDigit : ∀ d < 16, Grammar.hexDigit (Tokenizer.hexDigit (UInt8.ofNat d)) = some (UInt32.ofNat d) := by
  decide

lemma ofNat_digit (q d : Nat) : (UInt32.ofNat q <<< 4) + UInt32.ofNat d = UInt32.ofNat (16 * q + d) := by
  apply UInt32.toNat_inj.1
  rw [UInt32.toNat_add, UInt32.toNat_shiftLeft, UInt32.toNat_ofNat', UInt32.toNat_ofNat', UInt32.toNat_ofNat']
  have hshift : (4 : UInt32).toNat % 32 = 4 := rfl
  rw [hshift, Nat.shiftLeft_eq]
  omega

lemma parseHex_hexText (n k : Nat) :
    parseHex n (UInt32.ofNat (k / 16 ^ n)) (hexText n k ++ rest) = some (UInt32.ofNat k, rest) := by
  induction n with
  | zero =>
    rw [pow_zero, Nat.div_one]
    rfl
  | succ n ih =>
    have hstep : 16 * (k / 16 ^ (n + 1)) + k / 16 ^ n % 16 = k / 16 ^ n := by
      rw [pow_succ, ← Nat.div_div_eq_div_mul]
      exact Nat.div_add_mod _ _
    rw [hexText, cons_append, parseHex, hexDigit_hexDigit _ (Nat.mod_lt _ (by decide)), Option.bind_eq_bind,
      Option.bind_some, ofNat_digit, hstep, ih]

lemma parseHex_toNat {n : Nat} (h : c.toNat < 16 ^ n) :
    parseHex n 0 (hexText n c.toNat ++ rest) = some (c, rest) := by
  have hhex := @parseHex_hexText rest n c.toNat
  rw [Nat.div_eq_of_lt h, UInt32.ofNat_toNat] at hhex
  exact hhex

lemma parseChar_class (hc : c ≠ 45) (rest : Str) : parseChar (gbnfEscapeCharClass c ++ rest) = some (c, rest) := by
  unfold gbnfEscapeCharClass
  split
  · rename_i h
    obtain h | rfl | rfl | rfl := h
    · exact absurd h hc
    all_goals rfl
  rename_i hspecial
  simp only [not_or] at hspecial
  split
  · rename_i h
    rw [h]
    rfl
  split
  · rename_i h
    rw [h]
    rfl
  split
  · rename_i h
    rw [h]
    rfl
  split
  · rename_i h
    have hlow : c.toNat < 128 := lt_of_le_of_lt (UInt32.le_iff_toNat_le.1 h.2) (by decide)
    exact parseChar_ascii hlow hspecial.2.2.2 rest
  split
  · rename_i h
    exact parseHex_toNat (Nat.lt_succ_of_le (UInt32.le_iff_toNat_le.1 h))
  split
  · rename_i h
    exact parseHex_toNat (Nat.lt_succ_of_le (UInt32.le_iff_toNat_le.1 h))
  · exact parseHex_toNat c.toNat_lt

lemma head_class (c : UInt32) : ∃ b bs, gbnfEscapeCharClass c = b :: bs ∧ b ≠ 93 ∧ b ≠ 45 := by
  unfold gbnfEscapeCharClass
  split
  · exact ⟨_, _, rfl, by decide, by decide⟩
  rename_i hspecial
  simp only [not_or] at hspecial
  split
  · exact ⟨_, _, rfl, by decide, by decide⟩
  split
  · exact ⟨_, _, rfl, by decide, by decide⟩
  split
  · exact ⟨_, _, rfl, by decide, by decide⟩
  split
  · rename_i h
    have hlow : c.toNat < 128 := lt_of_le_of_lt (UInt32.le_iff_toNat_le.1 h.2) (by decide)
    exact ⟨_, _, rfl, toUInt8_ne_of_ne hlow hspecial.2.1, toUInt8_ne_of_ne hlow hspecial.1⟩
  split
  · exact ⟨_, _, rfl, by decide, by decide⟩
  split
  · exact ⟨_, _, rfl, by decide, by decide⟩
  · exact ⟨_, _, rfl, by decide, by decide⟩

lemma head_classes : (cs.flatMap gbnfEscapeCharClass ++ 93 :: rest).head? ≠ some 45 := by
  cases cs with
  | nil => exact fun heq => absurd (Option.some.inj heq) (by decide)
  | cons c cs =>
    obtain ⟨b, bs, hb, -, hne⟩ := head_class c
    rw [flatMap_cons, hb]
    exact fun heq => hne (Option.some.inj heq)

lemma charClass_char (hc : c ≠ 45) :
    charClass type lastSymStart (fuel + 1) (gbnfEscapeCharClass c ++ (cs.flatMap gbnfEscapeCharClass ++ 93 :: rest)) rule =
      charClass type lastSymStart fuel (cs.flatMap gbnfEscapeCharClass ++ 93 :: rest)
        (rule ++ [⟨if lastSymStart < rule.length then .charAlt else type, c⟩]) := by
  have hparse := parseChar_class hc (cs.flatMap gbnfEscapeCharClass ++ 93 :: rest)
  obtain ⟨b, bs, hb, hclose, -⟩ := head_class c
  have hhead : ¬ (gbnfEscapeCharClass c ++ (cs.flatMap gbnfEscapeCharClass ++ 93 :: rest)).head? = some 93 := by
    rw [hb]
    exact fun heq => hclose (Option.some.inj heq)
  rw [charClass, if_neg hhead, hparse, Option.bind_eq_bind, Option.bind_some]
  exact if_neg fun h => head_classes h.1

lemma charClass_chars (h : 45 ∉ cs) (hrule : lastSymStart < rule.length)
    (hfuel : (cs.flatMap gbnfEscapeCharClass).length < fuel) :
    charClass type lastSymStart fuel (cs.flatMap gbnfEscapeCharClass ++ 93 :: rest) rule =
      some (rest, rule ++ cs.map fun c => ⟨.charAlt, c⟩) := by
  induction cs generalizing fuel rule with
  | nil =>
    cases fuel with
    | zero => omega
    | succ fuel =>
      change some (rest, rule) = some (rest, rule ++ [])
      rw [append_nil]
  | cons c cs ih =>
    obtain ⟨hc, hcs⟩ := not_or.1 fun h' => h (mem_cons.2 h')
    obtain ⟨b, bs, hb, -, -⟩ := head_class c
    rw [flatMap_cons, length_append, hb, length_cons] at hfuel
    cases fuel with
    | zero => omega
    | succ fuel =>
      rw [flatMap_cons, append_assoc, charClass_char (Ne.symm hc), if_pos hrule, ih hcs]
      · rw [append_assoc]
        rfl
      · rw [length_append]
        omega
      · omega

lemma charClass_hyphen (h : 45 ∈ cs) :
    charClass type lastSymStart fuel (cs.flatMap gbnfEscapeCharClass ++ 93 :: rest) rule = none := by
  induction cs generalizing fuel rule with
  | nil => cases h
  | cons c cs ih =>
    cases fuel with
    | zero => rfl
    | succ fuel =>
      rw [flatMap_cons, append_assoc]
      by_cases hc : c = 45
      · rw [hc]
        rfl
      · rw [charClass_char hc]
        exact ih ((mem_cons.1 h).resolve_left fun heq => hc heq.symm)

def excludedWords (cs : List UInt32) : Language UInt32 := letters fun c => decide (c ∉ cs)

lemma seqStep_excluded {src : Str} {nPrevRules : UInt64} {p : GrParser} (hsrc : src = excludedText cs ++ rest) :
    seqStep tokenize alternates fuel ruleName isNested ⟨src, rule, lastSymStart, nPrevRules, p⟩ =
      (charClass .charNot rule.length fuel (cs.flatMap gbnfEscapeCharClass ++ 93 :: rest) rule).bind fun r =>
        some (some {
          src := parseSpace isNested false r.1, rule := r.2, lastSymStart := rule.length, nPrevRules := 1
          parser := p }) := by
  have hcons : src = 91 :: 94 :: (cs.flatMap gbnfEscapeCharClass ++ 93 :: rest) := by
    rw [hsrc, excludedText]
    simp only [append_assoc, cons_append, nil_append]
  rw [hcons]
  rfl

lemma runs_excluded (hne : cs ≠ []) (h : 45 ∉ cs) :
    RunsKind tokenize .atom 0 (excludedText cs) (excludedWords cs) := by
  cases cs with
  | nil => exact absurd rfl hne
  | cons c more =>
    obtain ⟨hc, hmore⟩ := not_or.1 fun h' => h (mem_cons.2 h')
    have hwords : excludedWords (c :: more) = classWords true (.one c) (more.map .one) := by
      rw [excludedWords, classWords]
      congr 1
      funext d
      have hany : (more.map CharItem.one).any (CharItem.has d) = decide (d ∈ more) := by
        rw [Bool.eq_iff_iff]
        simp [CharItem.has]
      rw [CharClass.has, hany, Bool.eq_iff_iff]
      obtain rfl | hd := eq_or_ne d c
      · simp [CharItem.has]
      · simp [CharItem.has, hd, Ne.symm hd]
    have helems : (CharClass.chars true (.one c) (more.map .one)).elems = ⟨.charNot, c⟩ :: more.map fun c => ⟨.charAlt, c⟩ := by
      rw [CharClass.elems, flatMap_map]
      exact congrArg (List.cons _) map_eq_flatMap.symm
    intro ruleName isNested p hfresh hsmall
    refine ⟨⟨.charNot, c⟩ :: more.map fun c => ⟨.charAlt, c⟩, p, fun _ => cons_ne_nil _ _, .refl hfresh, ?_, ?_⟩
    · rw [hwords, ← helems]
      exact denotes_class _ _ _
    · rintro ⟨src, rule, l, n, p⟩ rest rfl hsrc
      refine ⟨1, fun _ => ⟨le_refl 1, le_max_left 1 0⟩, .step fun f fuel hf hfuel => ?_⟩
      change src = _ at hsrc
      rw [seqStep_excluded hsrc]
      change src.length ≤ fuel at hfuel
      rw [hsrc, excludedText] at hfuel
      obtain ⟨b, bs, hb, -, -⟩ := head_class c
      simp only [flatMap_cons, hb, length_append, length_cons] at hfuel
      cases fuel with
      | zero => omega
      | succ fuel =>
        rw [flatMap_cons, append_assoc, charClass_char (Ne.symm hc), if_neg (lt_irrefl _),
          charClass_chars hmore]
        · rw [append_assoc]
          rfl
        · rw [length_append]
          exact Nat.lt_succ_self _
        · omega

end

end Mallana.Peg
