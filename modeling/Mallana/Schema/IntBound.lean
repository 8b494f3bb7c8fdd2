import Mallana.Schema.IntRange

/-!
# Rules of one bound

The words of the rule for a lower bound are written without superfluous zeros, and none is less than the bound, unless
the bound has a zero among its inner digits: the digits behind the first are read as a number again, so that such a zero
is lost and shorter words are accepted (`AtLeast.tight`). The rule for a negative upper bound is that of the mirrored
lower bound, and it may begin with zeros as if other digits were before it.
-/

namespace Mallana.Schema

open Tokenizer Grammar List

def Tight (n : Nat) : Prop := 0 ∉ (digs n).tail.dropLast

instance (n : Nat) : Decidable (Tight n) := inferInstanceAs (Decidable (¬ _))

section Tight
variable {n decimals c d : Nat} {top : Bool} {w cs ds : List Nat}

lemma tight_of_lt (hn : n < 10) : Tight n := by
  rw [Tight, digs_of_lt hn]
  exact not_mem_nil

lemma tight_cons (hdigs : digs n = c :: cs) (hcs : cs ≠ []) :
    Tight n ↔ digs (value cs) = cs ∧ Tight (value cs) := by
  have hdigits : Digits cs := (digits_cons.1 (hdigs ▸ digits_digs n)).2
  rw [Tight, hdigs, tail_cons]
  match cs, hcs with
  | [d], _ =>
    have hd : d < 10 := (digits_cons.1 hdigits).1
    rw [value_singleton]
    exact ⟨fun _ => ⟨digs_of_lt hd, tight_of_lt hd⟩, fun _ => not_mem_nil⟩
  | d :: e :: ds, _ =>
    rw [dropLast_cons_cons, mem_cons, not_or]
    by_cases hd : d = 0
    · subst hd
      refine ⟨fun h => absurd rfl h.1, fun h => ?_⟩
      by_cases hzero : value (0 :: e :: ds) = 0
      · have hdigs' := h.1
        rw [hzero, digs_of_lt (by decide)] at hdigs'
        cases hdigs'
      · obtain ⟨d, ds', hdigs', hd⟩ := digs_cons hzero
        obtain ⟨rfl, -⟩ := cons_eq_cons.1 (h.1.symm.trans hdigs')
        exact absurd hd (by decide)
    · have hval := digs_value hdigits hd
      rw [Tight, hval, tail_cons]
      exact ⟨fun h => ⟨rfl, h.2⟩, fun h => ⟨Ne.symm hd, h.2⟩⟩

lemma tail_digs (hn : 10 ≤ n) : ∃ c cs, digs n = c :: cs ∧ 1 ≤ c ∧ cs ≠ [] ∧ Digits cs ∧ value cs < n := by
  obtain ⟨c, cs, hdigs, hc⟩ := digs_cons (show n ≠ 0 by omega)
  have hlen := two_le_length_digs hn
  have hcs : Digits cs := (digits_cons.1 (hdigs ▸ digits_digs n)).2
  have hval := value_digs n
  rw [hdigs, value_cons] at hval
  rw [hdigs, length_cons] at hlen
  have hpos := mul_pos hc (Nat.pow_pos (n := cs.length) (show 0 < 10 by decide))
  refine ⟨c, cs, hdigs, hc, ?_, hcs, by omega⟩
  rintro rfl
  exact absurd hlen (by decide)

lemma AtLeast.short (n decimals : Nat) (top : Bool) (h : 1 ≤ decimals) :
    ∃ w, AtLeast n decimals top w ∧ w.length ≤ (digs n).length := by
  induction n using Nat.strongRecOn generalizing decimals top with
  | ind n ih =>
    rcases lt_or_ge n 10 with hn | hn
    · refine ⟨[n], ?_, one_le_length_digs n⟩
      rcases eq_zero_or_pos n with rfl | hpos
      · cases top with
        | true => exact .zero
        | false => exact .any ⟨digits_cons.2 ⟨by decide, digits_nil⟩, le_refl 1, fun k hk => Option.some.inj hk ▸ h⟩
      · exact .digit hpos (by omega) (Nat.le_refl n) (by omega) ⟨digits_nil, Nat.le_refl 0, fun _ _ => Nat.zero_le _⟩
    · obtain ⟨c, cs, hdigs, -, hne, hcs, hlt⟩ := tail_digs hn
      obtain ⟨w, hw, hlen⟩ := ih _ hlt (less decimals) false less_pos
      have hle := length_digs_le (value_lt hcs) (length_pos_of_ne_nil hne)
      refine ⟨c :: w, .same hn hdigs hw, ?_⟩
      rw [hdigs, length_cons, length_cons]
      omega

lemma AtLeast.shorter (decimals : Nat) (top : Bool) (h : 1 ≤ decimals) (hn : ¬ Tight n) :
    ∃ w, AtLeast n decimals top w ∧ w.length < (digs n).length := by
  induction n using Nat.strongRecOn generalizing decimals top with
  | ind n ih =>
    rcases lt_or_ge n 10 with hlt | hge
    · exact absurd (tight_of_lt hlt) hn
    · obtain ⟨c, cs, hdigs, -, hne, hcs, hlt⟩ := tail_digs hge
      have hle := length_digs_le (value_lt hcs) (length_pos_of_ne_nil hne)
      obtain ⟨w, hw, hlen⟩ : ∃ w, AtLeast (value cs) (less decimals) false w ∧ w.length < cs.length := by
        by_cases heq : digs (value cs) = cs
        · obtain ⟨w, hw, hlen⟩ := ih _ hlt (less decimals) false less_pos
            fun htight => hn ((tight_cons hdigs hne).2 ⟨heq, htight⟩)
          exact ⟨w, hw, heq ▸ hlen⟩
        · obtain ⟨w, hw, hlen⟩ := AtLeast.short (value cs) (less decimals) false less_pos
          have hshort : (digs (value cs)).length ≠ cs.length := fun h => heq (digs_of_value hcs rfl h.symm).symm
          exact ⟨w, hw, by omega⟩
      refine ⟨c :: w, .same hge hdigs hw, ?_⟩
      rw [hdigs, length_cons, length_cons]
      omega

lemma AtLeast.tight (h : AtLeast n decimals top w) (hn : Tight n) :
    (digs n).length < w.length ∨ (digs n).length = w.length ∧ n ≤ value w := by
  induction h with
  | zero => exact .inr ⟨rfl, Nat.zero_le _⟩
  | @positive _ d ds =>
    rw [digs_of_lt (by decide), length_cons, length_cons]
    rcases eq_zero_or_pos ds.length with h | h
    · exact .inr ⟨by rw [h]; rfl, Nat.zero_le _⟩
    · exact .inl (Nat.succ_lt_succ h)
  | @any _ ds hds =>
    have hlen : 1 ≤ ds.length := hds.2.1
    rw [digs_of_lt (by decide), length_singleton]
    exact (Nat.lt_or_eq_of_le hlen).imp_right fun h => ⟨h, Nat.zero_le _⟩
  | @longer n _ _ _ ds _ hn _ _ hds =>
    have hlen : 1 ≤ ds.length := hds.2.1
    rw [digs_of_lt (show n < 10 by omega)]
    exact .inl (Nat.succ_lt_succ hlen)
  | @digit n _ _ d ds _ hn hd _ _ =>
    rw [digs_of_lt (show n < 10 by omega)]
    cases ds with
    | nil => exact .inr ⟨rfl, by rwa [value_singleton]⟩
    | cons => exact .inl (Nat.succ_lt_succ (Nat.succ_pos _))
  | lower _ hdigs _ _ _ hds =>
    rw [hdigs, length_cons, length_cons]
    exact .inl (Nat.succ_lt_succ hds.2.1)
  | @same n _ _ c cs ds hge hdigs _ ih =>
    have hne : cs ≠ [] := by
      rintro rfl
      have := two_le_length_digs hge
      rw [hdigs, length_singleton] at this
      exact absurd this (by decide)
    obtain ⟨hval, htight⟩ := (tight_cons hdigs hne).1 hn
    have hn' := value_digs n
    rw [hdigs, value_cons] at hn'
    rw [hdigs, length_cons, length_cons, value_cons]
    rw [hval] at ih
    refine (ih htight).imp Nat.succ_lt_succ fun h => ⟨congrArg Nat.succ h.1, ?_⟩
    rw [← hn', h.1]
    exact Nat.add_le_add_left h.2 _
  | @higher n _ _ c cs d ds _ hdigs hd hd' hds =>
    rw [hdigs, length_cons, length_cons]
    rcases lt_or_eq_of_le (show cs.length ≤ ds.length from hds.2.1) with h | h
    · exact .inl (Nat.succ_lt_succ h)
    · refine .inr ⟨congrArg Nat.succ h, ?_⟩
      rw [← value_digs n, hdigs]
      exact (value_cons_le (digits_cons.1 (hdigs ▸ digits_digs n)).2 hds.1 h).2 (.inl hd)

lemma atLeast_iff (h : 1 ≤ decimals) : (∀ w, AtLeast n decimals top w → ∃ m, n ≤ m ∧ w = digs m) ↔
    Tight n ∧ ∀ w, AtLeast n decimals top w → w = digs (value w) := by
  constructor
  · intro hall
    refine ⟨?_, fun w hw => ?_⟩
    · by_contra hn
      obtain ⟨w, hw, hlen⟩ := AtLeast.shorter decimals top h hn
      obtain ⟨m, hm, rfl⟩ := hall w hw
      exact absurd (length_digs_mono hm) (Nat.not_le_of_lt hlen)
    · obtain ⟨m, -, rfl⟩ := hall w hw
      rw [value_digs]
  · rintro ⟨hn, hcanonical⟩ w hw
    refine ⟨value w, ?_, hcanonical w hw⟩
    rcases hw.tight hn with hlen | ⟨-, hle⟩
    · by_contra hlt
      have hmono := length_digs_mono (Nat.le_of_not_le hlt)
      rw [← hcanonical w hw] at hmono
      exact absurd hmono (Nat.not_le_of_lt hlen)
    · exact hle

lemma digs_value_cons (hds : Digits (d :: ds)) (hd : 1 ≤ d) : d :: ds = digs (value (d :: ds)) :=
  (digs_value hds (Nat.one_le_iff_ne_zero.1 hd)).symm

lemma AtLeast.canonical (h : AtLeast n decimals true w) : w = digs (value w) := by
  have hdigits := h.digits
  cases h with
  | zero => rfl
  | positive hd => exact digs_value_cons hdigits hd
  | longer _ _ hd => exact digs_value_cons hdigits hd
  | digit hn _ hd => exact digs_value_cons hdigits (hn.trans hd)
  | lower _ _ _ hd => exact digs_value_cons hdigits hd
  | same hn hdigs =>
    obtain ⟨c, cs, hdigs', hc, -⟩ := tail_digs hn
    obtain ⟨rfl, -⟩ := cons_eq_cons.1 (hdigs.symm.trans hdigs')
    exact digs_value_cons hdigits hc
  | higher _ _ hd => exact digs_value_cons hdigits (Nat.one_le_of_lt hd)

lemma atLeast_canonical_iff (hn : 1 ≤ n) : (∀ w, AtLeast n decimals false w → w = digs (value w)) ↔
    10 ≤ n ∧ ((digs n).head? = some 1 ∨ less decimals < (digs n).length) := by
  have hzero : ∀ l, 1 ≤ l → 0 :: zeros l ≠ digs (value (0 :: zeros l)) := by
    intro l hl heq
    rw [value_cons, value_zeros, zero_mul, digs_of_lt (by decide)] at heq
    have := congrArg List.length heq
    rw [length_cons, length_zeros, length_singleton] at this
    omega
  have hmem : ∀ l, l ≤ less decimals → zeros l ∈ sized l (some (less decimals)) := fun l hl =>
    ⟨digits_zeros, length_zeros.ge, fun k hk => Option.some.inj hk ▸ length_zeros.le.trans hl⟩
  constructor
  · intro hall
    have hge : 10 ≤ n := by
      by_contra hlt
      exact hzero 1 (Nat.le_refl 1) (hall _ (.longer hn (by omega) (Nat.zero_le 0) hn (hmem 1 less_pos)))
    refine ⟨hge, ?_⟩
    by_contra hcon
    obtain ⟨hhead, hlen⟩ := not_or.1 hcon
    obtain ⟨c, cs, hdigs, hc, -⟩ := tail_digs hge
    rw [hdigs, length_cons] at hlen
    rw [hdigs, head?_cons, Option.some.injEq] at hhead
    exact hzero (cs.length + 1) (Nat.le_add_left 1 _) (hall _ (.lower hge hdigs (by omega) (Nat.zero_le 0) hc
      (hmem _ (Nat.le_of_not_lt hlen))))
  · rintro ⟨hge, hor⟩ w hw
    have hdigits := hw.digits
    cases hw with
    | any => exact absurd hn (by decide)
    | longer _ hlt => omega
    | digit _ hlt => omega
    | lower _ hdigs hc _ _ hds =>
      rw [hdigs, length_cons, head?_cons, Option.some.injEq] at hor
      have hmin := hds.2.1
      have hmax := hds.2.2 _ rfl
      omega
    | same _ hdigs =>
      obtain ⟨c, cs, hdigs', hc, -⟩ := tail_digs hge
      obtain ⟨rfl, -⟩ := cons_eq_cons.1 (hdigs.symm.trans hdigs')
      exact digs_value_cons hdigits hc
    | higher _ _ hd => exact digs_value_cons hdigits (Nat.one_le_of_lt hd)

end Tight

/-- The words are numerals of integers that satisfy a condition; zero may have a minus. -/
def Sound (L : Language UInt32) (P : Int → Prop) : Prop :=
  ∀ w ∈ L, ∃ z, (w = numeral z ∨ z = 0 ∧ w = [45, 48]) ∧ P z

section Bound
variable {env : Str → Language UInt32 → Prop} {x : Int64} {n fuel : Nat} {w : List Nat} {L : Language Nat}

lemma map_cpt_ne_minus {v : List UInt32} (hw : Digits w) : w.map cpt ≠ 45 :: v := by
  cases w with
  | nil => exact fun h => by cases h
  | cons d w =>
    intro h
    exact (by decide : ∀ d < 10, cpt d ≠ 45) d (digits_cons.1 hw).1 (cons_eq_cons.1 h).1

lemma sound_lower (hL : ∀ w ∈ L, Digits w) :
    Sound (spell L) (fun z => (n : Int) ≤ z) ↔ ∀ w ∈ L, ∃ m, n ≤ m ∧ w = digs m := by
  constructor
  · intro h w hw
    obtain ⟨z, hz | ⟨-, hz⟩, hle⟩ := h _ ⟨w, hw, rfl⟩
    · obtain ⟨m, rfl⟩ := Int.eq_ofNat_of_zero_le (show 0 ≤ z by omega)
      rw [numeral_natCast] at hz
      exact ⟨m, by omega, map_cpt_inj (hL w hw) (digits_digs m) hz⟩
    · exact absurd hz (map_cpt_ne_minus (hL w hw))
  · rintro h _ ⟨w, hw, rfl⟩
    obtain ⟨m, hm, rfl⟩ := h w hw
    exact ⟨m, .inl numeral_natCast.symm, by omega⟩

lemma sound_upper (hn : 1 ≤ n) (hL : ∀ w ∈ L, Digits w) :
    Sound ({[45]} * spell L) (fun z => z ≤ -(n : Int)) ↔ ∀ w ∈ L, ∃ m, n ≤ m ∧ w = digs m := by
  constructor
  · intro h w hw
    obtain ⟨z, hz | ⟨hzero, -⟩, hle⟩ := h _ (mem_minus.2 ⟨_, ⟨w, hw, rfl⟩, rfl⟩)
    · obtain ⟨m, hm⟩ := Int.eq_ofNat_of_zero_le (show 0 ≤ -z by omega)
      obtain rfl : z = -m := by omega
      rw [numeral_neg (by omega)] at hz
      exact ⟨m, by omega, map_cpt_inj (hL w hw) (digits_digs m) (cons_eq_cons.1 hz).2⟩
    · omega
  · intro h v hv
    obtain ⟨_, ⟨w, hw, rfl⟩, rfl⟩ := mem_minus.1 hv
    obtain ⟨m, hm, rfl⟩ := h w hw
    exact ⟨-m, .inl (numeral_neg (by omega)).symm, by omega⟩

lemma digits_atLeast {decimals : Nat} {top : Bool} : ∀ w ∈ atLeast n decimals top, Digits w := fun _ hw =>
  AtLeast.digits hw

lemma buildMinMaxInt_none {decimals : Nat} {top : Bool} :
    buildMinMaxInt fuel Int64.minValue Int64.maxValue decimals top = none := by
  cases fuel with
  | zero => rfl
  | succ fuel => rw [buildMinMaxInt, if_neg fun h => h.1 rfl, if_neg fun h => h rfl, if_neg fun h => h rfl]

lemma reads_positive (env : Str → Language UInt32 → Prop) : ∃ k ≤ 4000, Reads Within env .alts k
    ([91, 48, 93, 32, 124, 32, 91, 49, 45, 57, 93, 32] ++ moreDigits 0 15) (spell (atLeast 0 16 true)) := by
  obtain ⟨t, k, hk, -, hbuild, hreads⟩ := @reads_atLeast 0 16 true env True 1 0 rfl (by decide) (by decide) (by decide)
    fun _ => by decide
  rw [buildMinMaxInt_zero, if_pos rfl] at hbuild
  obtain rfl := Option.some.inj hbuild
  exact ⟨k, hk, hreads.mono fun _ _ _ h => h trivial⟩

lemma reads_upper {top : Bool} (hmax : x ≠ Int64.maxValue) (hx : x.toInt = n) : ∃ t k, k ≤ 33558432 ∧
    buildMinMaxInt (fuel + 2) Int64.minValue x 16 top = some t ∧ Reads Within env .alts k t
      ((if top = true then {[45]} * spell (digit 1 9 * sized 0 (some 15)) else 0) + spell (numerals 0 n)) := by
  have hpos : (0 : Int64) ≤ x := by
    rw [Int64.le_iff_toInt_le, hx]
    exact Int.natCast_nonneg n
  obtain ⟨k, hk, hreads⟩ := reads_digitRanges env (show (0 : Int64).toInt = (0 : Nat) from rfl) hx (Nat.zero_le n)
  have hminus : Reads Within env .item 0 (formatLiteral [45]) {[45]} := .lit rfl
  have hmore : Reads Within env .seq 15 (digitRange (dig 1) (dig 9) ++ 32 :: moreDigits 0 15)
      (spell (digit 1 9 * sized 0 (some 15))) :=
    @reads_heads Within env 1 9 0 15 (by decide) (by decide) (by decide) ⟨fun _ _ => Nat.zero_le _, by decide⟩
  obtain ⟨j, hj, hall⟩ := Reads.orIf (fun _ : top = true => hminus.before hmore) (fun h => by cases h) hreads
  refine ⟨_, j, by omega, ?_, hall⟩
  rw [buildMinMaxInt, if_neg fun h => h.1 rfl, if_neg fun h => h rfl, if_pos hmax, if_pos hpos,
    buildMinMaxInt_nonneg (show 0 ≤ (0 : Int64).toInt from Int.le_refl 0) hmax]
  rfl

lemma reads_lower_neg (hmin : x ≠ Int64.minValue) (hmax : x ≠ -Int64.maxValue) (hneg : x.toInt < 0) :
    ∃ t k, k < 4294967296 ∧ buildMinMaxInt (fuel + 3) x Int64.maxValue 16 true = some t ∧ Reads Within env .alts k t
      ({[45]} * spell (numerals 0 (-x.toInt).toNat) + spell (atLeast 0 16 true)) := by
  have hx := toInt_neg_of_ne hmin
  have hne : -x ≠ Int64.maxValue := by
    intro h
    have hval := congrArg Int64.toInt h
    rw [hx, Int64.toInt_maxValue] at hval
    exact bounded_iff.1 hmax (by omega)
  obtain ⟨t, k, hk, hbuild, hreads⟩ := @reads_upper env (-x) (-x.toInt).toNat fuel false hne (by omega)
  rw [if_neg Bool.false_ne_true, zero_add] at hreads
  obtain ⟨j, hj, hpositive⟩ := reads_positive env
  refine ⟨_, _, ?_, ?_, (hreads.negated.or hpositive (cons_ne_nil _ _)).congr rfl rfl⟩
  · omega
  · rw [buildMinMaxInt, if_neg fun h => h.2 rfl, if_pos hmin, if_pos (Int64.lt_iff_toInt_lt.2 hneg), hbuild, Option.map_some,
      append_assoc (_ ++ _)]
    rfl

lemma lower_rule (env : Str → Language UInt32 → Prop) (hmin : x ≠ Int64.minValue) (hmax : x ≠ -Int64.maxValue) :
    ∃ t k L, k < 4294967296 ∧ buildMinMaxInt (fuel + 20) x Int64.maxValue 16 true = some t ∧
      Reads (Limited (x.toInt < 1000000000000000)) env .alts k t L ∧
      (Sound L (fun z => x.toInt ≤ z) ↔ Tight x.toInt.toNat) := by
  rcases lt_or_ge x.toInt 0 with hneg | hpos
  · obtain ⟨t, k, hk, hbuild, hreads⟩ := @reads_lower_neg env x (fuel + 17) hmin hmax hneg
    refine ⟨t, k, _, hk, hbuild, hreads.mono fun _ _ _ h _ => h, fun _ => ?_, fun _ => ?_⟩
    · exact tight_of_lt (by omega)
    · rintro w (hw | ⟨v, hv, rfl⟩)
      · obtain ⟨_, hv, rfl⟩ := mem_minus.1 hw
        obtain ⟨m, -, hm, rfl⟩ := mem_numerals.1 hv
        refine ⟨-m, ?_, by omega⟩
        rcases eq_zero_or_pos m with rfl | hpos
        · exact .inr ⟨rfl, rfl⟩
        · exact .inl (numeral_neg hpos).symm
      · refine ⟨(value v : Nat), .inl ?_, by omega⟩
        rw [numeral_natCast, ← AtLeast.canonical hv]
  · obtain ⟨n, hn⟩ := Int.eq_ofNat_of_zero_le hpos
    have hlen : (digs n).length ≤ 19 := length_digs_le (by have := x.toInt_lt; omega) (by decide)
    obtain ⟨t, k, hk, -, hbuild, hreads⟩ := @reads_atLeast n 16 true env (x.toInt < 1000000000000000) (fuel + 20) x hn
      (by omega) (by decide) (by decide) fun h => Nat.lt_succ_of_le (length_digs_le (by omega) (by decide))
    refine ⟨t, k, _, by omega, hbuild, hreads, ?_⟩
    rw [hn, Int.toNat_natCast, sound_lower digits_atLeast]
    exact (atLeast_iff (by decide)).trans (and_iff_left fun w hw => hw.canonical)

lemma reads_upper_neg (hmax : x ≠ Int64.maxValue) (hmin : x ≠ Int64.minValue) (hx : x.toInt = -n) (hn : 1 ≤ n) :
    ∃ t k, k < 4294967296 ∧ buildMinMaxInt (fuel + 20) Int64.minValue x 16 true = some t ∧
      Reads (Limited (-1000000000000000 < x.toInt)) env .alts k t ({[45]} * spell (atLeast n 16 false)) := by
  have hneg : (-x).toInt = n := by
    rw [toInt_neg_of_ne hmin, hx, Int.neg_neg]
  have hlen : (digs n).length ≤ 19 := length_digs_le (by have := x.le_toInt; omega) (by decide)
  obtain ⟨t, k, hk, -, hbuild, hreads⟩ := @reads_atLeast n 16 false env (-1000000000000000 < x.toInt) (fuel + 19) (-x)
    hneg (by omega) (by decide) (by decide) fun h => Nat.lt_succ_of_le (length_digs_le (by omega) (by decide))
  refine ⟨_, _, ?_, ?_, hreads.negated.one⟩
  · omega
  · have hnot : ¬ (0 : Int64) ≤ x := by
      rw [Int64.le_iff_toInt_le, hx]
      intro h
      have : (0 : Int) ≤ -n := h
      omega
    rw [buildMinMaxInt, if_neg fun h => h.1 rfl, if_neg fun h => h rfl, if_pos hmax, if_neg hnot, hbuild]
    rfl

lemma upper_rule (env : Str → Language UInt32 → Prop) (hmax : x ≠ Int64.maxValue) (hmin : x ≠ Int64.minValue) :
    ∃ t k L, k < 4294967296 ∧ buildMinMaxInt (fuel + 20) Int64.minValue x 16 true = some t ∧
      Reads (Limited (-1000000000000000 < x.toInt)) env .alts k t L ∧
      (Sound L (fun z => z ≤ x.toInt) ↔ 0 ≤ x.toInt ∨ 10 ≤ (-x.toInt).toNat ∧ Tight (-x.toInt).toNat ∧
        ((digs (-x.toInt).toNat).head? = some 1 ∨ 16 ≤ (digs (-x.toInt).toNat).length)) := by
  rcases lt_or_ge x.toInt 0 with hneg | hpos
  · obtain ⟨n, hn⟩ := Int.eq_ofNat_of_zero_le (show 0 ≤ -x.toInt by omega)
    have hx' : x.toInt = -n := by omega
    have hn1 : 1 ≤ n := by omega
    obtain ⟨t, k, hk, hbuild, hreads⟩ := @reads_upper_neg env x n fuel hmax hmin hx' hn1
    refine ⟨t, k, _, by omega, hbuild, hreads, ?_⟩
    rw [hn, Int.toNat_natCast, hx', sound_upper hn1 digits_atLeast]
    refine (atLeast_iff (by decide)).trans ?_
    rw [atLeast_canonical_iff hn1]
    constructor
    · rintro ⟨htight, hge, hor⟩
      exact .inr ⟨hge, htight, hor⟩
    · rintro (h | ⟨hge, htight, hor⟩)
      · omega
      · exact ⟨htight, hge, hor⟩
  · obtain ⟨n, hn⟩ := Int.eq_ofNat_of_zero_le hpos
    obtain ⟨t, k, hk, hbuild, hreads⟩ := @reads_upper env x n (fuel + 18) true hmax hn
    refine ⟨t, k, _, by omega, hbuild, hreads.mono fun _ _ _ h _ => h, fun _ => .inl hpos, fun _ => ?_⟩
    rw [if_pos rfl]
    rintro w (hw | hw)
    · obtain ⟨_, ⟨v, hv, rfl⟩, rfl⟩ := mem_minus.1 hw
      cases v with
      | nil => exact absurd hv nil_mem_digit_mul
      | cons d ds =>
        obtain ⟨hd, hd', hds⟩ := cons_mem_digit_mul.1 hv
        have hdigs := digs_value_cons (digits_cons.2 ⟨by omega, hds.1⟩) hd
        have hvalue : 1 ≤ value (d :: ds) := by
          rw [value_cons]
          exact Nat.le_add_right_of_le (mul_pos hd (Nat.pow_pos (by decide)))
        refine ⟨-(value (d :: ds) : Nat), .inl ?_, by omega⟩
        rw [numeral_neg hvalue, ← hdigs]
    · obtain ⟨m, -, hm, rfl⟩ := mem_numerals.1 hw
      exact ⟨m, .inl numeral_natCast.symm, by omega⟩

lemma lower_none (h : x = Int64.minValue ∨ x = -Int64.maxValue) :
    buildMinMaxInt (fuel + 20) x Int64.maxValue 16 true = none := by
  rcases h with rfl | rfl
  · exact buildMinMaxInt_none
  · have hneg : -(-Int64.maxValue) = Int64.maxValue := by decide
    rw [buildMinMaxInt, if_neg fun h => h.2 rfl, if_pos (by decide), if_pos (by decide), hneg, buildMinMaxInt_none]
    rfl

lemma upper_none (h : x = Int64.maxValue ∨ x = Int64.minValue) :
    buildMinMaxInt (fuel + 20) Int64.minValue x 16 true = none := by
  rcases h with rfl | rfl
  · exact buildMinMaxInt_none
  · have hneg : -Int64.minValue = Int64.minValue := by decide
    rw [buildMinMaxInt, if_neg fun h => h.1 rfl, if_neg fun h => h rfl, if_pos (by decide), if_neg (by decide), hneg,
      buildMinMaxInt_none]
    rfl

/-- A rule of one bound only accepts numerals of numbers that satisfy the bound exactly if no inner digit of the bound
is zero and, for a negative upper bound, if it has more than one digit and begins with 1 or has at least 16 digits. The
numbers that stand for no bound have no rule, and the least but one has none as a lower bound. -/
theorem buildMinMaxInt_sound (x : Int64) (fuel : Nat) :
    ((buildMinMaxInt (fuel + 20) x Int64.maxValue 16 true = none ↔ x = Int64.minValue ∨ x = -Int64.maxValue) ∧
      ∀ text, buildMinMaxInt (fuel + 20) x Int64.maxValue 16 true = some text →
        ∃ L, (∃ k, Reads (fun _ _ _ => True) noRules .alts k text L) ∧
          (x.toInt < 1000000000000000 → Accepts text L) ∧ (Sound L (fun z => x.toInt ≤ z) ↔ Tight x.toInt.toNat)) ∧
    ((buildMinMaxInt (fuel + 20) Int64.minValue x 16 true = none ↔ x = Int64.maxValue ∨ x = Int64.minValue) ∧
      ∀ text, buildMinMaxInt (fuel + 20) Int64.minValue x 16 true = some text →
        ∃ L, (∃ k, Reads (fun _ _ _ => True) noRules .alts k text L) ∧
          (-1000000000000000 < x.toInt → Accepts text L) ∧
          (Sound L (fun z => z ≤ x.toInt) ↔ 0 ≤ x.toInt ∨ 10 ≤ (-x.toInt).toNat ∧ Tight (-x.toInt).toNat ∧
            ((digs (-x.toInt).toNat).head? = some 1 ∨ 16 ≤ (digs (-x.toInt).toNat).length))) := by
  refine ⟨⟨⟨fun h => ?_, lower_none⟩, fun text h => ?_⟩, ⟨⟨fun h => ?_, upper_none⟩, fun text h => ?_⟩⟩
  · by_contra hne
    obtain ⟨hmin, hmax⟩ := not_or.1 hne
    obtain ⟨t, k, L, -, hbuild, -⟩ := @lower_rule x fuel noRules hmin hmax
    exact absurd (h.symm.trans hbuild) (by simp)
  · have hne : ¬ (x = Int64.minValue ∨ x = -Int64.maxValue) := fun hx => by
      rw [lower_none hx] at h
      cases h
    obtain ⟨hmin, hmax⟩ := not_or.1 hne
    obtain ⟨t, k, L, hk, hbuild, hreads, hiff⟩ := @lower_rule x fuel noRules hmin hmax
    obtain rfl := Option.some.inj (h.symm.trans hbuild)
    exact ⟨L, ⟨k, hreads.mono fun _ _ _ _ => trivial⟩,
      fun hlt => (hreads.mono fun _ _ _ hlimited => hlimited hlt).accepts hk, hiff⟩
  · by_contra hne
    obtain ⟨hmax, hmin⟩ := not_or.1 hne
    obtain ⟨t, k, L, -, hbuild, -⟩ := @upper_rule x fuel noRules hmax hmin
    exact absurd (h.symm.trans hbuild) (by simp)
  · have hne : ¬ (x = Int64.maxValue ∨ x = Int64.minValue) := fun hx => by
      rw [upper_none hx] at h
      cases h
    obtain ⟨hmax, hmin⟩ := not_or.1 hne
    obtain ⟨t, k, L, hk, hbuild, hreads, hiff⟩ := @upper_rule x fuel noRules hmax hmin
    obtain rfl := Option.some.inj (h.symm.trans hbuild)
    exact ⟨L, ⟨k, hreads.mono fun _ _ _ _ => trivial⟩,
      fun hlt => (hreads.mono fun _ _ _ hlimited => hlimited hlt).accepts hk, hiff⟩

/-- From 100 on, the rule accepts 10; up to -5, it accepts -01. -/
theorem buildMinMaxInt_below :
    (∃ text L, buildMinMaxInt 20 100 Int64.maxValue 16 true = some text ∧ Accepts text L ∧ numeral 10 ∈ L) ∧
    ∃ text L, buildMinMaxInt 20 Int64.minValue (-5) 16 true = some text ∧ Accepts text L ∧ [45, 48, 49] ∈ L := by
  constructor
  · obtain ⟨t, k, hk, -, hbuild, hreads⟩ := @reads_atLeast 100 16 true noRules True 20 100 rfl (by decide) (by decide)
      (by decide) fun _ => by decide
    have hlen : (digs 100).length = 3 := by decide
    have hten : AtLeast 100 16 true [1, 0] := .same (by decide) (show digs 100 = [1, 0, 0] by decide)
      (.any ⟨by decide, by decide, fun k hk => Option.some.inj hk ▸ by decide⟩)
    exact ⟨t, _, hbuild, (hreads.mono fun _ _ _ h => h trivial).accepts (by omega), [1, 0], hten, rfl⟩
  · obtain ⟨t, k, hk, hbuild, hreads⟩ := @reads_upper_neg noRules (-5) 5 0 (by decide) (by decide) rfl (by decide)
    have hone : AtLeast 5 16 false [0, 1] := .longer (by decide) (by decide) (Nat.zero_le 0) (by decide)
      ⟨by decide, by decide, fun k hk => Option.some.inj hk ▸ by decide⟩
    exact ⟨t, _, hbuild, (hreads.mono fun _ _ _ h => h (by decide)).accepts hk, mem_minus.2 ⟨_, ⟨[0, 1], hone, rfl⟩, rfl⟩⟩

end Bound

end Mallana.Schema
