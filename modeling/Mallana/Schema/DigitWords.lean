import Mallana.Schema.Reading

/-!
# Languages of digits

Sets of lists of digits: one digit of a range (`digit`), any digits of some length (`sized`), the lists between two of
the same length (`between`), and the numerals of a range of numbers (`numerals`). The lists between two that differ at
the head are those that begin with one head or the other, or with a digit that is strictly between them
(`between_cons`). `spell` writes digits as characters, and the texts of classes of digits denote such languages.
-/

namespace Mallana.Schema

open Lib Tokenizer Grammar List

def digit (a b : Nat) : Language Nat := {w | ∃ d, w = [d] ∧ a ≤ d ∧ d ≤ b}

/-- Any digits, at least `m` and at most `n` of them. -/
def sized (m : Nat) (n : Option Nat) : Language Nat := {w | Digits w ∧ m ≤ w.length ∧ ∀ k ∈ n, w.length ≤ k}

def between (as bs : List Nat) : Language Nat :=
  {w | Digits w ∧ w.length = as.length ∧ value as ≤ value w ∧ value w ≤ value bs}

def numerals (lo hi : Nat) : Language Nat := {w | ∃ n, lo ≤ n ∧ n ≤ hi ∧ w = digs n}

def zeros (n : Nat) : List Nat := List.replicate n 0

def nines (n : Nat) : List Nat := List.replicate n 9

section Languages
variable {a b c d lo mid hi m n : Nat} {as bs ds w : List Nat} {k : Option Nat} {L : Language Nat}

lemma nil_mem_digit_mul : [] ∉ digit a b * L := by
  rintro ⟨_, ⟨d, rfl, -⟩, w, -, h⟩
  cases h

lemma cons_mem_digit_mul : d :: w ∈ digit a b * L ↔ a ≤ d ∧ d ≤ b ∧ w ∈ L := by
  constructor
  · rintro ⟨_, ⟨d', rfl, ha, hb⟩, w', hw, h⟩
    cases h
    exact ⟨ha, hb, hw⟩
  · rintro ⟨ha, hb, hw⟩
    exact ⟨[d], ⟨d, rfl, ha, hb⟩, w, hw, rfl⟩

@[simp] lemma length_zeros : (zeros n).length = n := length_replicate

@[simp] lemma length_nines : (nines n).length = n := length_replicate

lemma digits_zeros : Digits (zeros n) := digits_replicate (by decide)

lemma digits_nines : Digits (nines n) := digits_replicate (by decide)

@[simp] lemma value_zeros : value (zeros n) = 0 := by
  induction n with
  | zero => rfl
  | succ n ih =>
    rw [zeros, replicate_succ, value_cons, zero_mul, zero_add]
    exact ih

@[simp] lemma value_nines : value (nines n) = 10 ^ n - 1 := by
  induction n with
  | zero => rfl
  | succ n ih =>
    rw [nines, replicate_succ, value_cons, length_replicate]
    change 9 * 10 ^ n + value (nines n) = _
    have := Nat.pow_pos (n := n) (show 0 < 10 by decide)
    rw [ih, pow_succ]
    omega

lemma value_le_nines (h : Digits w) : value w ≤ 10 ^ w.length - 1 := Nat.le_pred_of_lt (value_lt h)

lemma value_cons_le (hw : Digits w) (hds : Digits ds) (hlen : w.length = ds.length) :
    value (c :: w) ≤ value (d :: ds) ↔ c < d ∨ c = d ∧ value w ≤ value ds := by
  have hw' := value_lt hw
  have hds' := value_lt hds
  rw [value_cons, value_cons, hlen]
  rw [hlen] at hw'
  rcases lt_trichotomy c d with h | rfl | h
  · have := Nat.mul_le_mul_right (10 ^ ds.length) (Nat.succ_le_of_lt h)
    rw [Nat.succ_mul] at this
    omega
  · omega
  · have := Nat.mul_le_mul_right (10 ^ ds.length) (Nat.succ_le_of_lt h)
    rw [Nat.succ_mul] at this
    omega

lemma nil_mem_between : [] ∉ between (a :: as) bs := fun h => by cases h.2.1

lemma cons_mem_between (has : Digits as) (hbs : Digits bs) (hlen : as.length = bs.length) :
    d :: w ∈ between (a :: as) (b :: bs) ↔ (d < 10 ∧ Digits w ∧ w.length = as.length) ∧
      (a < d ∨ a = d ∧ value as ≤ value w) ∧ (d < b ∨ d = b ∧ value w ≤ value bs) := by
  constructor
  · rintro ⟨hdigits, hlen', hle, hle'⟩
    obtain ⟨hd, hw⟩ := digits_cons.1 hdigits
    have hlen' : w.length = as.length := Nat.succ.inj hlen'
    exact ⟨⟨hd, hw, hlen'⟩, (value_cons_le has hw hlen'.symm).1 hle,
      (value_cons_le hw hbs (hlen'.trans hlen)).1 hle'⟩
  · rintro ⟨⟨hd, hw, hlen'⟩, hle, hle'⟩
    exact ⟨digits_cons.2 ⟨hd, hw⟩, congrArg Nat.succ hlen', (value_cons_le has hw hlen'.symm).2 hle,
      (value_cons_le hw hbs (hlen'.trans hlen)).2 hle'⟩

lemma mem_sized : w ∈ sized n (some n) ↔ Digits w ∧ w.length = n :=
  ⟨fun h => ⟨h.1, le_antisymm (h.2.2 n rfl) h.2.1⟩, fun h => ⟨h.1, h.2.ge, fun _ hk => Option.some.inj hk ▸ h.2.le⟩⟩

lemma between_zeros : between (zeros n) (nines n) = sized n (some n) := by
  ext w
  rw [mem_sized]
  constructor
  · rintro ⟨hw, hlen, -⟩
    exact ⟨hw, hlen.trans length_zeros⟩
  · rintro ⟨hw, rfl⟩
    refine ⟨hw, length_zeros.symm, ?_, ?_⟩
    · rw [value_zeros]
      exact Nat.zero_le _
    · rw [value_nines]
      exact value_le_nines hw

lemma between_cons (hab : a < b) (hb : b < 10) (has : Digits as) (hbs : Digits bs) (hlen : as.length = bs.length) :
    between (a :: as) (b :: bs) = digit a a * between as (nines as.length) +
      (digit (a + 1) (b - 1) * sized as.length (some as.length) + digit b b * between (zeros bs.length) bs) := by
  ext w
  cases w with
  | nil =>
    refine ⟨fun h => absurd h nil_mem_between, ?_⟩
    rintro (h | h | h) <;> exact absurd h nil_mem_digit_mul
  | cons d w =>
    rw [cons_mem_between has hbs hlen, Language.mem_add, Language.mem_add, cons_mem_digit_mul, cons_mem_digit_mul,
      cons_mem_digit_mul, mem_sized]
    constructor
    · rintro ⟨⟨hd, hw, hlen'⟩, h | ⟨rfl, h⟩, h' | ⟨rfl, h'⟩⟩
      · exact .inr (.inl ⟨h, Nat.le_sub_one_of_lt h', hw, hlen'⟩)
      · refine .inr (.inr ⟨le_refl _, le_refl _, hw, ?_, ?_, h'⟩)
        · rw [length_zeros, hlen', hlen]
        · rw [value_zeros]
          exact Nat.zero_le _
      · refine .inl ⟨le_refl _, le_refl _, hw, hlen', h, ?_⟩
        rw [value_nines, ← hlen']
        exact value_le_nines hw
      · exact absurd hab (lt_irrefl _)
    · rintro (⟨h, h', hw, hlen', hle, -⟩ | ⟨h, h', hw, hlen'⟩ | ⟨h, h', hw, hlen', -, hle⟩)
      · obtain rfl := le_antisymm h h'
        exact ⟨⟨lt_trans hab hb, hw, hlen'⟩, .inr ⟨rfl, hle⟩, .inl hab⟩
      · exact ⟨⟨by omega, hw, hlen'⟩, .inl h, .inl (by omega)⟩
      · obtain rfl := le_antisymm h h'
        exact ⟨⟨hb, hw, hlen'.trans (length_zeros.trans hlen.symm)⟩, .inl hab, .inr ⟨rfl, hle⟩⟩

lemma between_cons_same (ha : a < 10) (has : Digits as) (hbs : Digits bs) (hlen : as.length = bs.length) :
    between (a :: as) (a :: bs) = digit a a * between as bs := by
  ext w
  cases w with
  | nil => exact ⟨fun h => absurd h nil_mem_between, fun h => absurd h nil_mem_digit_mul⟩
  | cons d w =>
    rw [cons_mem_between has hbs hlen, cons_mem_digit_mul]
    constructor
    · rintro ⟨⟨-, hw, hlen'⟩, h | ⟨rfl, h⟩, h' | ⟨heq, h'⟩⟩
      · exact absurd h (lt_asymm h')
      · exact absurd h (heq ▸ lt_irrefl _)
      · exact absurd h' (lt_irrefl _)
      · exact ⟨le_refl _, le_refl _, hw, hlen', h, h'⟩
    · rintro ⟨h, h', hw, hlen', hle, hle'⟩
      obtain rfl := le_antisymm h h'
      exact ⟨⟨ha, hw, hlen'⟩, .inr ⟨rfl, hle⟩, .inr ⟨rfl, hle'⟩⟩

lemma digit_add (h : a ≤ c + 1) (h' : c ≤ b) : digit a c + digit (c + 1) b = digit a b := by
  ext w
  constructor
  · rintro (⟨d, rfl, ha, hc⟩ | ⟨d, rfl, hc, hb⟩)
    · exact ⟨d, rfl, ha, hc.trans h'⟩
    · exact ⟨d, rfl, h.trans hc, hb⟩
  · rintro ⟨d, rfl, ha, hb⟩
    exact (lt_or_ge c d).elim (fun hlt => .inr ⟨d, rfl, hlt, hb⟩) (fun hle => .inl ⟨d, rfl, ha, hle⟩)

lemma between_cons_zeros (hab : a < b) (hb : b < 10) (hbs : Digits bs) :
    between (a :: zeros bs.length) (b :: bs) = digit a (b - 1) * sized bs.length (some bs.length) +
      digit b b * between (zeros bs.length) bs := by
  have hlen : (zeros bs.length).length = bs.length := length_zeros
  rw [between_cons hab hb digits_zeros hbs hlen, hlen, between_zeros, ← add_assoc, ← add_mul,
    digit_add (by omega) (by omega)]

lemma between_cons_nines (hab : a < b) (hb : b < 10) (has : Digits as) :
    between (a :: as) (b :: nines as.length) = digit a a * between as (nines as.length) +
      digit (a + 1) b * sized as.length (some as.length) := by
  have hlen : as.length = (nines as.length).length := length_nines.symm
  have hdigit : digit b b = digit (b - 1 + 1) b := by rw [Nat.sub_add_cancel (by omega)]
  rw [between_cons hab hb has digits_nines hlen, ← hlen, between_zeros, hdigit, ← add_mul,
    digit_add (by omega) (by omega)]

lemma between_cons_next (hb : a + 1 < 10) (has : Digits as) (hbs : Digits bs) (hlen : as.length = bs.length) :
    between (a :: as) ((a + 1) :: bs) = digit a a * between as (nines as.length) +
      digit (a + 1) (a + 1) * between (zeros bs.length) bs := by
  have hempty : digit (a + 1) a = 0 := by
    ext w
    exact ⟨fun ⟨d, _, hd, hd'⟩ => absurd hd (Nat.not_le_of_lt (Nat.lt_succ_of_le hd')), fun h => absurd h id⟩
  rw [between_cons (show a < a + 1 from Nat.lt_succ_self a) hb has hbs hlen, Nat.add_sub_cancel, hempty,
    zero_mul, zero_add]

lemma singleton_mul_singleton (u v : List Nat) : ({u} : Language Nat) * {v} = {u ++ v} := Set.image2_singleton

lemma singleton_digit : ({[a]} : Language Nat) = digit a a := by
  ext w
  constructor
  · rintro rfl
    exact ⟨a, rfl, le_refl _, le_refl _⟩
  · rintro ⟨d, rfl, h, h'⟩
    exact congrArg (fun e => [e]) (le_antisymm h' h)

lemma between_append {p : List Nat} (hp : Digits p) (has : Digits as) (hbs : Digits bs)
    (hlen : as.length = bs.length) : between (p ++ as) (p ++ bs) = {p} * between as bs := by
  induction p with
  | nil => exact (one_mul _).symm
  | cons a p ih =>
    obtain ⟨ha, hp⟩ := digits_cons.1 hp
    rw [cons_append, cons_append, between_cons_same ha (digits_append.2 ⟨hp, has⟩)
      (digits_append.2 ⟨hp, hbs⟩) (by rw [length_append, length_append, hlen]), ih hp, ← singleton_digit,
      ← mul_assoc, singleton_mul_singleton]
    rfl

lemma between_self (has : Digits as) : between as as = {as} := by
  induction as with
  | nil =>
    ext w
    exact ⟨fun h => length_eq_zero_iff.1 h.2.1, fun h => by
      obtain rfl : w = [] := h
      exact ⟨digits_nil, rfl, le_refl _, le_refl _⟩⟩
  | cons a as ih =>
    obtain ⟨ha, has⟩ := digits_cons.1 has
    rw [between_cons_same ha has has rfl, ih has, ← singleton_digit, singleton_mul_singleton]
    rfl

lemma between_one (hb : b < 10) : between [a] [b] = digit a b := by
  ext w
  constructor
  · rintro ⟨-, hlen, hle, hle'⟩
    obtain ⟨d, rfl⟩ := length_eq_one_iff.1 hlen
    exact ⟨d, rfl, by simpa using hle, by simpa using hle'⟩
  · rintro ⟨d, rfl, hle, hle'⟩
    refine ⟨digits_cons.2 ⟨hle'.trans_lt hb, digits_nil⟩, rfl, ?_, ?_⟩
    · rwa [value_singleton, value_singleton]
    · rwa [value_singleton, value_singleton]

lemma digs_cons (hn : n ≠ 0) : ∃ d ds, digs n = d :: ds ∧ 1 ≤ d := by
  induction n using Nat.strongRecOn with
  | ind n ih =>
    rcases lt_or_ge n 10 with h | h
    · exact ⟨n, [], digs_of_lt h, Nat.one_le_iff_ne_zero.2 hn⟩
    · have hdiv : n / 10 ≠ 0 := ne_of_gt (Nat.div_pos h (by decide))
      obtain ⟨d, ds, hds, hd⟩ := ih _ (Nat.div_lt_self (pos_of_ne_zero hn) (by decide)) hdiv
      exact ⟨d, ds ++ [n % 10], by rw [digs_of_le h, hds]; rfl, hd⟩

lemma lt_pow_length (n : Nat) : n < 10 ^ (digs n).length := by
  have := value_lt (digits_digs n)
  rwa [value_digs] at this

lemma pow_length_le (hn : n ≠ 0) : 10 ^ ((digs n).length - 1) ≤ n := by
  obtain ⟨d, ds, hds, hd⟩ := digs_cons hn
  have hval := value_digs n
  rw [hds, value_cons] at hval
  rw [hds, length_cons, Nat.add_sub_cancel, ← hval]
  exact Nat.le_add_right_of_le (Nat.le_mul_of_pos_left _ hd)

lemma one_le_length_digs (n : Nat) : 1 ≤ (digs n).length := length_pos_of_ne_nil (digs_ne_nil n)

lemma length_digs_le {l : Nat} (h : n < 10 ^ l) (hl : 1 ≤ l) : (digs n).length ≤ l := by
  rcases eq_zero_or_pos n with rfl | hn
  · exact hl
  · have := (Nat.pow_lt_pow_iff_right (by decide)).1 ((pow_length_le (ne_of_gt hn)).trans_lt h)
    omega

lemma length_digs_mono (h : m ≤ n) : (digs m).length ≤ (digs n).length :=
  length_digs_le (h.trans_lt (lt_pow_length n)) (one_le_length_digs n)

lemma two_le_length_digs (h : 10 ≤ n) : 2 ≤ (digs n).length := by
  rw [digs_of_le h, length_append]
  exact Nat.add_le_add_right (one_le_length_digs _) 1

lemma digs_of_value (hw : Digits w) (hval : value w = n) (hlen : w.length = (digs n).length) : w = digs n := by
  cases w with
  | nil => exact absurd hlen.symm (ne_of_gt (one_le_length_digs n))
  | cons d w =>
    by_cases hd : d = 0
    · subst hd
      have hlt := value_lt (digits_cons.1 hw).2
      rw [value_cons, zero_mul, zero_add] at hval
      rcases lt_or_ge n 10 with h | h
      · have hw1 : w = [] := by
          rw [digs_of_lt h] at hlen
          exact length_eq_zero_iff.1 (Nat.succ.inj hlen)
        subst hw1
        exact hval ▸ rfl
      · have hle := pow_length_le (n := n) (by omega)
        rw [← hlen, length_cons, Nat.add_sub_cancel] at hle
        omega
    · rw [← hval, digs_value hw hd]

lemma numerals_eq (hlen : (digs lo).length = (digs hi).length) : numerals lo hi = between (digs lo) (digs hi) := by
  ext w
  constructor
  · rintro ⟨n, hlo, hhi, rfl⟩
    refine ⟨digits_digs n, le_antisymm ((length_digs_mono hhi).trans hlen.ge) (length_digs_mono hlo), ?_, ?_⟩
    · rwa [value_digs, value_digs]
    · rwa [value_digs, value_digs]
  · rintro ⟨hw, hlen', hlo, hhi⟩
    rw [value_digs] at hlo hhi
    refine ⟨_, hlo, hhi, digs_of_value hw rfl (le_antisymm ?_ ?_)⟩
    · exact hlen'.le.trans (length_digs_mono hlo)
    · exact (length_digs_mono hhi).trans (hlen.ge.trans hlen'.ge)

lemma numerals_add (h : lo ≤ mid) (h' : mid ≤ hi) : numerals lo (mid - 1) + numerals mid hi = numerals lo hi := by
  ext w
  constructor
  · rintro (⟨n, hlo, hhi, rfl⟩ | ⟨n, hlo, hhi, rfl⟩)
    · exact ⟨n, hlo, by omega, rfl⟩
    · exact ⟨n, h.trans hlo, hhi, rfl⟩
  · rintro ⟨n, hlo, hhi, rfl⟩
    exact (lt_or_ge n mid).elim (fun hlt => .inl ⟨n, hlo, Nat.le_sub_one_of_lt hlt, rfl⟩)
      (fun hle => .inr ⟨n, hle, hhi, rfl⟩)

lemma digs_pow : digs (10 ^ n) = 1 :: zeros n := by
  have hval : value (1 :: zeros n) = 10 ^ n := by
    rw [value_cons, value_zeros, length_zeros, one_mul, add_zero]
  rw [← hval]
  exact digs_value (digits_cons.2 ⟨by decide, digits_zeros⟩) Nat.one_ne_zero

lemma digs_pow_sub_one (hn : 1 ≤ n) : digs (10 ^ n - 1) = nines n := by
  obtain ⟨n, rfl⟩ := Nat.exists_eq_add_of_le' hn
  rw [← value_nines]
  have hdigits : Digits (9 :: List.replicate n 9) := digits_nines (n := n + 1)
  exact digs_value hdigits (by decide)

end Languages

def cpt (d : Nat) : UInt32 := (dig d).toUInt32

/-- The words of a language of digits, written as characters. -/
def spell : Language Nat →+* Language UInt32 := Language.map cpt

section Spell
variable {a b d m n : Nat} {w ds : List Nat} {k : Option Nat} {L : Language Nat}

lemma toNat_cpt (h : d < 10) : (cpt d).toNat = 48 + d := by
  rw [cpt, UInt8.toNat_toUInt32, toNat_dig h]

lemma mem_spell {u : List UInt32} : u ∈ spell L ↔ ∃ w ∈ L, w.map cpt = u := Iff.rfl

lemma spell_singleton : spell {w} = {w.map cpt} := Set.image_singleton

lemma plain_cpt : ∀ d < 10, Plain (cpt d) := by
  decide

lemma cpt_inj : ∀ d < 10, ∀ e < 10, cpt d = cpt e → d = e := by
  decide

lemma map_cpt_inj (hw : Digits w) (hds : Digits ds) (h : w.map cpt = ds.map cpt) : w = ds := by
  induction w generalizing ds with
  | nil => exact (map_eq_nil_iff.1 h.symm).symm
  | cons d w ih =>
    cases ds with
    | nil => cases h
    | cons e ds =>
      obtain ⟨hd, hw⟩ := digits_cons.1 hw
      obtain ⟨he, hds⟩ := digits_cons.1 hds
      obtain ⟨hde, h⟩ := cons_eq_cons.1 h
      rw [cpt_inj d hd e he hde, ih hw hds h]

lemma toUInt8_cpt : (cpt d).toUInt8 = dig d := UInt8.toUInt8_toUInt32 _

lemma cpt_le (ha : a < 10) {c : UInt32} : cpt a ≤ c ↔ 48 + a ≤ c.toNat := by
  rw [UInt32.le_iff_toNat_le, toNat_cpt ha]

lemma le_cpt (ha : a < 10) {c : UInt32} : c ≤ cpt a ↔ c.toNat ≤ 48 + a := by
  rw [UInt32.le_iff_toNat_le, toNat_cpt ha]

lemma classWords_range (ha : a < 10) (hb : b < 10) :
    classWords false (.range (cpt a) (cpt b)) [] = spell (digit a b) := by
  ext u
  have hhas : ∀ c, (CharClass.chars false (.range (cpt a) (cpt b)) []).has c = true ↔ cpt a ≤ c ∧ c ≤ cpt b := by
    intro c
    simp [CharClass.has, CharItem.has]
  constructor
  · rintro ⟨c, rfl, hc⟩
    obtain ⟨hac, hcb⟩ := (hhas c).1 hc
    rw [cpt_le ha] at hac
    rw [le_cpt hb] at hcb
    refine ⟨[c.toNat - 48], ⟨_, rfl, by omega, by omega⟩, congrArg (fun c => [c]) (UInt32.toNat_inj.1 ?_)⟩
    rw [toNat_cpt (by omega)]
    omega
  · rintro ⟨_, ⟨d, rfl, had, hdb⟩, rfl⟩
    refine ⟨cpt d, rfl, (hhas _).2 ⟨(cpt_le ha).2 ?_, (le_cpt hb).2 ?_⟩⟩ <;> rw [toNat_cpt (by omega)] <;> omega

lemma classWords_one (ha : a < 10) : classWords false (.one (cpt a)) [] = spell (digit a a) := by
  rw [← classWords_range ha ha]
  refine congrArg letters (funext fun c => ?_)
  have heq : (cpt a == c) = (decide (cpt a ≤ c) && decide (c ≤ cpt a)) := by
    rw [Bool.eq_iff_iff, beq_iff_eq, Bool.and_eq_true, decide_eq_true_iff, decide_eq_true_iff]
    exact ⟨fun h => h ▸ ⟨UInt32.le_refl _, UInt32.le_refl _⟩, fun h => UInt32.le_antisymm h.1 h.2⟩
  simp [CharClass.has, CharItem.has, heq]

lemma digit_pow : digit 0 9 ^ n = sized n (some n) := by
  induction n with
  | zero =>
    ext w
    rw [mem_sized, length_eq_zero_iff]
    exact ⟨fun h => ⟨(show w = [] from h) ▸ digits_nil, h⟩, fun h => h.2⟩
  | succ n ih =>
    rw [pow_succ', ih]
    ext w
    cases w with
    | nil => exact ⟨fun h => absurd h nil_mem_digit_mul, fun h => by cases (mem_sized.1 h).2⟩
    | cons d w =>
      rw [cons_mem_digit_mul, mem_sized, mem_sized, digits_cons, length_cons, Nat.add_right_cancel_iff, and_assoc]
      exact ⟨fun h => ⟨Nat.lt_succ_of_le h.2.1, h.2.2⟩, fun h => ⟨Nat.zero_le d, Nat.le_of_lt_succ h.1, h.2⟩⟩

lemma powers_digits : powers (spell (digit 0 9)) m k = spell (sized m k) := by
  ext u
  rw [mem_spell]
  constructor
  · rintro ⟨i, hm, hk, hu⟩
    rw [← map_pow, digit_pow] at hu
    obtain ⟨w, hw, rfl⟩ := hu
    obtain ⟨hdigits, rfl⟩ := mem_sized.1 hw
    exact ⟨w, ⟨hdigits, hm, hk⟩, rfl⟩
  · rintro ⟨w, ⟨hdigits, hm, hk⟩, rfl⟩
    refine ⟨w.length, hm, hk, ?_⟩
    rw [← map_pow, digit_pow]
    exact ⟨w, mem_sized.2 ⟨hdigits, rfl⟩, rfl⟩

end Spell

end Mallana.Schema
