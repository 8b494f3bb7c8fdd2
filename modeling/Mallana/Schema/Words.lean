import Mallana.Schema.Notation

/-!
# The words of the notation

The functions of the parser of grammars that read the words of a text: spaces, numbers, operators and classes are read
as they are meant, and a generated name has the number of its symbol in it.
-/

namespace Mallana.Schema

open Lib Tokenizer Grammar GrParser List

/-- The text does not begin with what `parse_space` skips. -/
def Solid (s : Str) : Prop := ∀ c ∈ s.head?, c ≠ 13 ∧ c ≠ 10 ∧ c ≠ 32 ∧ c ≠ 9 ∧ c ≠ 35

section Words
variable {s t rest : Str} {newlineOk isNested : Bool} {n m : Nat} {ds : List Nat}

lemma parseSpace_solid (h : Solid s) : parseSpace newlineOk false s = s := by
  cases s with
  | nil => rfl
  | cons c s =>
    obtain ⟨h13, h10, h32, h9, h35⟩ := h c rfl
    rw [parseSpace, if_neg (not_or.2 ⟨h13, h10⟩), if_neg Bool.false_ne_true, if_neg (not_or.2 ⟨h32, h9⟩), if_neg h35]

lemma parseSpace_blank (h : Blank s) : parseSpace newlineOk false (s ++ t) = parseSpace newlineOk false t := by
  induction s with
  | nil => rfl
  | cons c s ih =>
    obtain ⟨rfl, hs⟩ := forall_mem_cons.1 h
    exact ih hs

lemma isDigitChar_dig : ∀ d < 10, isDigitChar (dig d) = true := by
  decide

lemma foldl_dig (h : Digits ds) (k : Nat) :
    (ds.map dig).foldl (fun n c => n * 10 + (c.toNat - 48)) k = k * 10 ^ ds.length + value ds := by
  induction ds generalizing k with
  | nil => simp
  | cons d ds ih =>
    obtain ⟨hd, hds⟩ := digits_cons.1 h
    rw [map_cons, foldl_cons, ih hds, toNat_dig hd, Nat.add_sub_cancel_left, value_cons, length_cons, pow_succ]
    ring

lemma takeWhile_decimal (hrest : ∀ c ∈ rest.head?, isDigitChar c = false) :
    (decimal n ++ rest).takeWhile isDigitChar = decimal n ∧ (decimal n ++ rest).dropWhile isDigitChar = rest := by
  have hall : ∀ c ∈ decimal n, isDigitChar c = true := by
    intro c hc
    rw [decimal_eq] at hc
    obtain ⟨d, hd, rfl⟩ := mem_map.1 hc
    exact isDigitChar_dig d (digits_digs n d hd)
  rw [takeWhile_append_of_pos hall, dropWhile_append_of_pos hall]
  cases rest with
  | nil => exact ⟨append_nil _, rfl⟩
  | cons c rest =>
    have hc := hrest c rfl
    rw [takeWhile_cons_of_neg (by simp [hc]), dropWhile_cons_of_neg (by simp [hc])]
    exact ⟨append_nil _, rfl⟩

lemma decimal_ne_nil : decimal n ≠ [] := by
  rw [decimal_eq]
  exact fun h => digs_ne_nil n (map_eq_nil_iff.1 h)

lemma parseInt_decimal (hn : n < 18446744073709551616) (hrest : ∀ c ∈ rest.head?, isDigitChar c = false) :
    parseInt (decimal n ++ rest) = some (UInt64.ofNat n, rest) := by
  obtain ⟨htake, hdrop⟩ := takeWhile_decimal (n := n) hrest
  have hvalue : (decimal n).foldl (fun n c => n * 10 + (c.toNat - 48)) 0 = n := by
    rw [decimal_eq, foldl_dig (digits_digs n), value_digs, zero_mul, zero_add]
  unfold parseInt
  dsimp only
  rw [htake, hdrop, hvalue, if_neg]
  rintro (h | h)
  · exact decimal_ne_nil h
  · omega

lemma exists_decimal (n : Nat) : ∃ c s, decimal n = c :: s ∧ isDigitChar c = true := by
  cases h : decimal n with
  | nil => exact absurd h decimal_ne_nil
  | cons c s =>
    refine ⟨c, s, rfl, ?_⟩
    have hc : c ∈ decimal n := h ▸ mem_cons_self
    rw [decimal_eq] at hc
    obtain ⟨d, hd, rfl⟩ := mem_map.1 hc
    exact isDigitChar_dig d (digits_digs n d hd)

lemma solid_of_digit {c : UInt8} (h : isDigitChar c = true) : Solid (c :: s) := by
  intro d hd
  cases hd
  refine ⟨?_, ?_, ?_, ?_, ?_⟩ <;> (rintro rfl; exact absurd h (by decide))

def bound64 (n : Option Nat) : UInt64 := n.elim 18446744073709551615 UInt64.ofNat

lemma operator_brace (s : Str) : operator isNested (123 :: s) = bounds isNested (parseSpace isNested false s) := rfl

lemma operator_text {n : Option Nat} {op : Str} (h : Operator m n op) (hm : m ≤ 2000) (hn : ∀ k ∈ n, k ≤ 2000) :
    operator isNested (op ++ rest) = some (UInt64.ofNat m, bound64 n, parseSpace isNested false rest) := by
  have hint : ∀ (k : Nat) (c : UInt8) (s : Str), k ≤ 2000 → isDigitChar c = false →
      parseInt (decimal k ++ c :: s) = some (UInt64.ofNat k, c :: s) := by
    intro k c s hk hc
    refine parseInt_decimal (by omega) fun d hd => ?_
    cases hd
    exact hc
  have hsolid : ∀ (k : Nat) (s : Str), parseSpace isNested false (decimal k ++ s) = decimal k ++ s := by
    intro k s
    obtain ⟨c, t, heq, hc⟩ := exists_decimal k
    rw [heq]
    exact parseSpace_solid (solid_of_digit hc)
  cases h with
  | star => rfl
  | plus => rfl
  | opt => rfl
  | exactly m =>
    rw [cons_append, cons_append, operator_brace, append_assoc, hsolid, singleton_append, bounds, hint m 125 rest hm rfl]
    rfl
  | atLeast m =>
    rw [cons_append, cons_append, operator_brace, append_assoc, hsolid, cons_append, bounds, hint m 44 _ hm rfl]
    rfl
  | between m k =>
    obtain ⟨c, s, heq, hc⟩ := exists_decimal k
    have hhead : (((decimal k ++ 125 :: rest).head?.map isDigitChar).getD false) = true := by
      rw [heq]
      exact hc
    rw [cons_append, cons_append, cons_append, operator_brace, append_assoc, append_assoc, hsolid, cons_append,
      singleton_append, bounds, hint m 44 _ hm rfl]
    change (if (((parseSpace isNested false (decimal k ++ 125 :: rest)).head?.map isDigitChar).getD false) = true then
      (parseInt (parseSpace isNested false (decimal k ++ 125 :: rest))).bind _ else _) = _
    rw [hsolid, if_pos hhead, hint k 125 rest (hn k rfl) rfl]
    rfl

end Words

section Classes
variable {rest rule : Str} {lastSymStart fuel : Nat} {type : GreType}

lemma toUInt8_ne_of_ne {c : UInt32} {d : UInt8} (hc : c.toNat < 128) (h : c ≠ d.toUInt32) : c.toUInt8 ≠ d := by
  rintro rfl
  refine h (UInt32.toNat_inj.1 ?_)
  rw [UInt8.toNat_toUInt32, UInt32.toNat_toUInt8, Nat.mod_eq_of_lt (by omega)]

lemma parseChar_ascii {c : UInt32} (hc : c.toNat < 128) (h92 : c ≠ 92) (rest : Str) :
    parseChar (c.toUInt8 :: rest) = some (c, rest) := by
  have henc : Encodes c [c.toUInt8] := by
    rw [toUInt8_eq]
    conv => arg 1; rw [← UInt32.ofNat_toNat (x := c)]
    exact .one hc
  change (if c.toUInt8 = 92 then _ else some (decodeOne c.toUInt8 rest)) = _
  rw [if_neg (toUInt8_ne_of_ne (d := 92) hc h92), ← decodeOne_encodes henc rest]
  rfl

lemma parseChar_plain {c : UInt32} (h : Plain c) (rest : Str) : parseChar (c.toUInt8 :: rest) = some (c, rest) :=
  parseChar_ascii h.1 h.2.2.1 rest

lemma Plain.toUInt8_ne {c : UInt32} (h : Plain c) : c.toUInt8 ≠ 45 ∧ c.toUInt8 ≠ 93 ∧ c.toUInt8 ≠ 94 := by
  obtain ⟨hc, h45, -, h93, h94⟩ := h
  exact ⟨toUInt8_ne_of_ne hc h45, toUInt8_ne_of_ne hc h93, toUInt8_ne_of_ne hc h94⟩

lemma charClass_item {i : CharItem} {rule : GrRule} (hi : PlainItem i) (hrest : rest.head? ≠ some 45) :
    charClass type lastSymStart (fuel + 1) (itemText i ++ rest) rule =
      charClass type lastSymStart fuel rest (rule ++ i.elems (if lastSymStart < rule.length then .charAlt else type)) := by
  cases i with
  | one c =>
    have hclose : ¬ (c.toUInt8 :: rest).head? = some 93 := fun heq => hi.toUInt8_ne.2.1 (Option.some.inj heq)
    change charClass _ _ (fuel + 1) (c.toUInt8 :: rest) rule = _
    rw [charClass, if_neg hclose, parseChar_plain hi]
    change (if rest.head? = some 45 ∧ _ then _ else _) = _
    rw [if_neg fun h => hrest h.1]
    rfl
  | range a b =>
    obtain ⟨ha, hb⟩ := hi
    have hclose : ¬ (a.toUInt8 :: 45 :: b.toUInt8 :: rest).head? = some 93 :=
      fun heq => ha.toUInt8_ne.2.1 (Option.some.inj heq)
    change charClass _ _ (fuel + 1) (a.toUInt8 :: 45 :: b.toUInt8 :: rest) rule = _
    rw [charClass, if_neg hclose, parseChar_plain ha]
    have hrange : (45 :: b.toUInt8 :: rest).head? = some 45 ∧ (45 :: b.toUInt8 :: rest).tail.head? ≠ some 93 :=
      ⟨rfl, fun heq => hb.toUInt8_ne.2.1 (Option.some.inj heq)⟩
    simp only [Option.bind_eq_bind, Option.bind_some]
    rw [if_pos hrange, tail_cons, parseChar_plain hb]
    change charClass _ _ _ _ (rule ++ _ ++ _) = _
    rw [append_assoc]
    rfl

lemma head_items {items : List CharItem} (h : ∀ i ∈ items, PlainItem i) :
    (items.flatMap itemText ++ 93 :: rest).head? ≠ some 45 := by
  cases items with
  | nil => exact fun heq => absurd (Option.some.inj heq) (by decide)
  | cons i items =>
    cases i with
    | one c => exact fun heq => (h _ mem_cons_self).toUInt8_ne.1 (Option.some.inj heq)
    | range a b => exact fun heq => (h _ mem_cons_self).1.toUInt8_ne.1 (Option.some.inj heq)

lemma length_itemText (i : CharItem) : 0 < (itemText i).length := by
  cases i <;> exact Nat.succ_pos _

lemma charClass_more {items : List CharItem} {rule : GrRule} (h : ∀ i ∈ items, PlainItem i)
    (hrule : lastSymStart < rule.length) (hfuel : (items.flatMap itemText).length < fuel) :
    charClass type lastSymStart fuel (items.flatMap itemText ++ 93 :: rest) rule =
      some (rest, rule ++ items.flatMap (CharItem.elems .charAlt)) := by
  induction items generalizing fuel rule with
  | nil =>
    cases fuel with
    | zero => omega
    | succ fuel =>
      change some (rest, rule) = some (rest, rule ++ [])
      rw [append_nil]
  | cons i items ih =>
    obtain ⟨hi, hitems⟩ := forall_mem_cons.1 h
    rw [flatMap_cons, length_append] at hfuel
    have hpos := length_itemText i
    cases fuel with
    | zero => omega
    | succ fuel =>
      rw [flatMap_cons, append_assoc, charClass_item hi (head_items hitems), if_pos hrule, ih hitems]
      · rw [append_assoc, flatMap_cons]
      · rw [length_append]
        omega
      · omega

lemma charClass_text {negated : Bool} {first : CharItem} {more : List CharItem} {rule : GrRule} (hfirst : PlainItem first)
    (hmore : ∀ i ∈ more, PlainItem i) (hfuel : ((first :: more).flatMap itemText).length < fuel) :
    charClass (if negated then .charNot else .char) rule.length fuel ((first :: more).flatMap itemText ++ 93 :: rest) rule =
      some (rest, rule ++ (CharClass.chars negated first more).elems) := by
  rw [flatMap_cons, length_append] at hfuel
  have hpos := length_itemText first
  have helems : 0 < (first.elems (if negated then .charNot else .char)).length := by
    cases first <;> exact Nat.succ_pos _
  cases fuel with
  | zero => omega
  | succ fuel =>
    rw [flatMap_cons, append_assoc, charClass_item hfirst (head_items hmore), if_neg (lt_irrefl _),
      charClass_more hmore]
    · rw [append_assoc]
      rfl
    · rw [length_append]
      omega
    · omega

end Classes

lemma toList_loop (bs : ByteArray) (i : Nat) (r : List UInt8) :
    ByteArray.toList.loop bs i r = r.reverse ++ bs.data.toList.drop i := by
  fun_induction ByteArray.toList.loop bs i r with
  | case1 i r h ih =>
    have hlt : i < bs.data.toList.length := h
    have hget : bs.get! i = bs.data.toList[i] := getElem!_pos bs.data i h
    rw [ih, reverse_cons, append_assoc, drop_eq_getElem_cons hlt, hget, singleton_append]
  | case2 i r h =>
    have hle : bs.data.toList.length ≤ i := Nat.le_of_not_lt h
    rw [drop_eq_nil_of_le hle, append_nil]

lemma utf8_digit {c : Char} (h : c.isDigit = true) : String.utf8EncodeChar c = [UInt8.ofNat c.toNat] := by
  have hle := (Char.isDigit_iff_toNat.1 h).2
  have hval : c.val ≤ 0x7f := by
    rw [UInt32.le_iff_toNat_le]
    exact le_trans hle (by decide)
  rw [String.utf8EncodeChar_eq_singleton (by simp [Char.utf8Size, hval]), toUInt8_eq]
  rfl

lemma bytes_repr (n : Nat) : (Nat.repr n).toUTF8.toList = decimal n := by
  rw [Nat.repr_eq_ofList_toDigits, String.toUTF8_eq_toByteArray, String.toByteArray_ofList, ByteArray.toList,
    toList_loop, List.utf8Encode, reverse_nil, nil_append, drop_zero, toList_data_toByteArray,
    decimal, map_eq_flatMap]
  exact flatMap_congr fun c hc => utf8_digit (Nat.isDigit_of_mem_toDigits (by decide) (by decide) hc)

lemma decimal_inj {m n : Nat} (h : decimal m = decimal n) : m = n := by
  rw [decimal_eq, decimal_eq] at h
  have hmap : digs m = digs n := by
    have hof : ∀ k, ((digs k).map dig).map (fun c => c.toNat - 48) = digs k := by
      intro k
      rw [map_map]
      refine (map_congr_left fun d hd => ?_).trans (map_id _)
      change (dig d).toNat - 48 = d
      rw [toNat_dig (digits_digs k d hd), Nat.add_sub_cancel_left]
    rw [← hof m, ← hof n, h]
  rw [← value_digs m, ← value_digs n, hmap]

lemma underscore_notMem_decimal (n : Nat) : 95 ∉ decimal n := by
  intro h
  rw [decimal_eq] at h
  obtain ⟨d, hd, heq⟩ := mem_map.1 h
  have hdig := isDigitChar_dig d (digits_digs n d hd)
  rw [heq] at hdig
  exact absurd hdig (by decide)

lemma generatedName_inj {a b : Str} {i j : UInt32} (h : generatedName a i = generatedName b j) : i = j := by
  rw [generatedName, generatedName, bytes_repr, bytes_repr] at h
  have htail : ∀ (a : Str) (n : Nat), (a ++ 95 :: decimal n).reverse.takeWhile (· ≠ 95) = (decimal n).reverse := by
    intro a n
    rw [reverse_append, reverse_cons, append_assoc, takeWhile_append_of_pos]
    · exact append_nil _
    · intro c hc
      refine decide_eq_true fun heq => ?_
      exact underscore_notMem_decimal n (heq ▸ mem_reverse.1 hc)
  have hrev := congrArg (fun l : Str => l.reverse.takeWhile (· ≠ 95)) h
  rw [htail, htail] at hrev
  exact UInt32.toNat_inj.1 (decimal_inj (reverse_injective hrev))

end Mallana.Schema
