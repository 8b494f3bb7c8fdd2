import Mallana.Tokenizer.Lossless

/-!
# Groups of digits

What `unicode_regex_split_custom_afmoe` makes of the runs of digits. The first group of a run is counted from the end of
the last piece, so it takes the code points in front of the run with it.
-/

namespace Mallana.Tokenizer

open List

section
variable {u : Unicode} {w pre run post : List UInt32} {pos fuel : Nat}

def isDigit (u : Unicode) (c : UInt32) : Bool := (u.cptFlags c).isNumber

/-- The groups of a run of `n` digits: `n % 3` digits if that is not 0, then groups of three. -/
def digitGroups (n : Nat) : List Nat := (if 0 < n % 3 then [n % 3] else []) ++ List.replicate (n / 3) 3

/-- A maximal run of digits in a part. -/
structure DigitRun (u : Unicode) (w pre run post : List UInt32) : Prop where
  split : w = pre ++ run ++ post
  ne : run ≠ []
  digits : ∀ c ∈ run, isDigit u c = true
  before : ∀ c ∈ pre.getLast?, isDigit u c = false
  after : ∀ c ∈ post.head?, isDigit u c = false

/-- The lengths cut a part into pieces of digits and pieces of other code points, and the runs of digits into groups. -/
structure Isolates (u : Unicode) (w : List UInt32) (ns : List Nat) : Prop where
  sum : ns.sum = w.length
  pos : ∀ n ∈ ns, 0 < n
  pure : ∀ piece ∈ parts w ns, (∀ c ∈ piece, isDigit u c = true) ∨ ∀ c ∈ piece, isDigit u c = false
  groups : ∀ pre run post, DigitRun u w pre run post →
    ∃ front back, ns = front ++ digitGroups run.length ++ back ∧ front.sum = pre.length

def IsolatesAll (u : Unicode) (ws : List (List UInt32)) (lengths : List Nat) : Prop :=
  ∃ ls : List (List Nat), lengths = ls.flatten ∧ List.Forall₂ (Isolates u) ws ls

def DigitsFirst (u : Unicode) (w : List UInt32) : Prop :=
  ∃ digits rest, w = digits ++ rest ∧ (∀ c ∈ digits, isDigit u c = true) ∧ ∀ c ∈ rest, isDigit u c = false

lemma isNumberAt_eq (h : pos < w.length) : isNumberAt u w pos = isDigit u w[pos] := by
  rw [isNumberAt, getFlags, if_pos h, getCpt, getD_eq_getElem?_getD, getElem?_eq_getElem h]
  rfl

lemma exists_piece : ∀ {ends : List Nat} {a b i : Nat}, Climb a ends b → a ≤ i → i < b →
    ∃ s e, s ≤ i ∧ i < e ∧ e ∈ ends ∧ (w.drop s).take (e - s) ∈ parts (w.drop a) (lengths a ends) := by
  intro ends
  induction ends with
  | nil =>
    intro a b i hclimb hle hlt
    cases hclimb
    exact absurd hlt (Nat.not_lt.2 hle)
  | cons e ends ih =>
    intro a b i hclimb hle hlt
    obtain hi | hi := lt_or_ge i e
    · refine ⟨a, e, hle, hi, mem_cons_self, ?_⟩
      rw [lengths, if_pos (Nat.sub_pos_of_lt (hle.trans_lt hi)), parts]
      exact mem_cons_self
    · obtain ⟨s, e', hs, he', hmem, hpiece⟩ := ih hclimb.2 hi hlt
      refine ⟨s, e', hs, he', mem_cons_of_mem _ hmem, ?_⟩
      rw [lengths]
      split
      · rw [parts, drop_drop, Nat.add_sub_cancel' hclimb.1]
        exact mem_cons_of_mem _ hpiece
      · rename_i hzero
        obtain rfl : a = e := le_antisymm hclimb.1 (Nat.le_of_sub_eq_zero (Nat.eq_zero_of_not_pos hzero))
        exact hpiece

lemma mem_of_mem_parts : ∀ {ns : List Nat} {w piece : List UInt32}, piece ∈ parts w ns → ∀ c ∈ piece, c ∈ w := by
  intro ns
  induction ns with
  | nil =>
    intro w piece h
    cases h
  | cons n ns ih =>
    intro w piece h c hc
    rw [parts] at h
    obtain rfl | h := mem_cons.1 h
    · exact mem_of_mem_take hc
    · exact mem_of_mem_drop (ih h c hc)

lemma parts_append : ∀ {ns ms : List Nat} {w v : List UInt32}, ns.sum = w.length →
    parts (w ++ v) (ns ++ ms) = parts w ns ++ parts v ms := by
  intro ns
  induction ns with
  | nil =>
    intro ms w v h
    rw [length_eq_zero_iff.1 h.symm]
    rfl
  | cons n ns ih =>
    intro ms w v h
    rw [sum_cons] at h
    have hn : n ≤ w.length := by omega
    rw [cons_append, parts, parts, cons_append, take_append_of_le_length hn,
      drop_append_of_le_length hn, ih (by rw [length_drop]; omega)]

lemma mem_groupEnds : ∀ {fuel current last e : Nat}, (last - current) % 3 = 0 → e ∈ groupEnds fuel current last →
    current < e ∧ e ≤ last := by
  intro fuel
  induction fuel with
  | zero =>
    intro current last e _ h
    cases h
  | succ fuel ih =>
    intro current last e hmod h
    rw [groupEnds] at h
    split at h
    · obtain rfl | h := mem_cons.1 h
      · omega
      · have := ih (by omega) h
        omega
    · cases h

lemma digit_of_mem_afmoeEnds : ∀ {fuel pos e : Nat}, e ∈ afmoeEnds u w fuel pos →
    0 < e ∧ isNumberAt u w (e - 1) = true := by
  intro fuel
  induction fuel with
  | zero =>
    intro pos e h
    cases h
  | succ fuel ih =>
    intro pos e h
    rw [afmoeEnds] at h
    split at h
    · split at h
      · rename_i hlt hnum
        have hgt := lt_skipWhile hnum hlt
        have within : ∀ k, pos < k → k ≤ skipWhile w (isNumberAt u w) pos → 0 < k ∧ isNumberAt u w (k - 1) = true := by
          intro k hk hle
          exact ⟨Nat.zero_lt_of_lt hk, advance_meets (by omega) (by omega : k - 1 < skipWhile w (isNumberAt u w) pos)⟩
        generalize skipWhile w (isNumberAt u w) pos = last at h hgt within
        obtain h | h := mem_append.1 h
        · obtain h | h := mem_append.1 h
          · split at h
            · obtain rfl := mem_singleton.1 h
              exact within _ (by omega) (by omega)
            · cases h
          · have hbounds := mem_groupEnds (by omega) h
            exact within e (by omega) hbounds.2
        · exact ih h
      · exact ih h
    · cases h

lemma digitsFirst_of : ∀ {w : List UInt32},
    (∀ i (h : i + 1 < w.length), isDigit u w[i + 1] = true → isDigit u w[i] = true) → DigitsFirst u w := by
  intro w
  induction w with
  | nil =>
    intro _
    exact ⟨[], [], rfl, by simp, by simp⟩
  | cons c w ih =>
    intro h
    obtain ⟨digits, rest, rfl, hdigits, hrest⟩ := ih fun i hi => h (i + 1) (Nat.succ_lt_succ hi)
    cases hc : isDigit u c with
    | true => exact ⟨c :: digits, rest, rfl, forall_mem_cons.2 ⟨hc, hdigits⟩, hrest⟩
    | false =>
      cases digits with
      | nil => exact ⟨[], c :: rest, rfl, hdigits, forall_mem_cons.2 ⟨hc, hrest⟩⟩
      | cons d digits =>
        have hfirst := h 0 (Nat.succ_lt_succ (Nat.succ_pos _)) (hdigits d mem_cons_self)
        exact absurd (hc.symm.trans hfirst) Bool.false_ne_true

lemma Isolates.digitsFirst (h : Isolates u w (splitDigits u w)) : DigitsFirst u w := by
  apply digitsFirst_of
  intro i hi hdigit
  by_contra hno
  obtain ⟨s, e, hs, he, hmem, hpiece⟩ :=
    @exists_piece w _ 0 _ i (@climb_afmoeEnds u w w.length 0 0 (Nat.zero_le _) (Nat.le_refl _)) (Nat.zero_le _) (by omega)
  have hbeyond : i + 1 < e := by
    obtain hlt | heq := Nat.lt_or_eq_of_le he
    · exact hlt
    obtain hmem | hmem := mem_append.1 hmem
    · have hnum := (digit_of_mem_afmoeEnds hmem).2
      rw [← heq, Nat.succ_sub_one, isNumberAt_eq (Nat.lt_of_succ_lt hi)] at hnum
      exact absurd hnum hno
    · rw [mem_singleton.1 hmem] at heq
      omega
  have mem : ∀ k (hk : k < w.length), s ≤ k → k < e → w[k] ∈ (w.drop s).take (e - s) := by
    intro k hk hsk hke
    rw [mem_take_iff_getElem]
    refine ⟨k - s, ?_, ?_⟩
    · rw [length_drop]
      omega
    · simp only [getElem_drop, Nat.add_sub_cancel' hsk]
  obtain hall | hall := h.pure _ hpiece
  · exact hno (hall _ (mem i (Nat.lt_of_succ_lt hi) hs he))
  · rw [hall _ (mem (i + 1) hi (by omega) hbeyond)] at hdigit
    cases hdigit

lemma afmoeEnds_none : ∀ {fuel pos : Nat}, (∀ k, pos ≤ k → isNumberAt u w k = false) → afmoeEnds u w fuel pos = [] := by
  intro fuel
  induction fuel with
  | zero =>
    intro pos _
    rfl
  | succ fuel ih =>
    intro pos h
    rw [afmoeEnds, h pos (le_refl _)]
    simp only [Bool.false_eq_true, if_false, ih fun k hk => h k (Nat.le_of_succ_le hk), ite_self]

lemma lengths_groupEnds {tail : List Nat} : ∀ {n fuel current : Nat}, n ≤ fuel →
    lengths current (groupEnds fuel current (current + 3 * n) ++ tail) =
      List.replicate n 3 ++ lengths (current + 3 * n) tail := by
  intro n
  induction n with
  | zero =>
    intro fuel current _
    cases fuel with
    | zero => rfl
    | succ fuel => rw [groupEnds, if_neg (by omega)]; rfl
  | succ n ih =>
    intro fuel current hfuel
    obtain ⟨fuel, rfl⟩ := Nat.exists_eq_add_of_le' (Nat.le_of_add_left_le hfuel)
    have hlast : current + 3 * (n + 1) = current + 3 + 3 * n := by omega
    rw [groupEnds, if_pos (by omega), cons_append, lengths, if_pos (by omega), Nat.add_sub_cancel_left, hlast,
      ih (Nat.le_of_succ_le_succ hfuel), replicate_succ, cons_append]

lemma splitDigits_eq {digits rest : List UInt32} (hdigits : ∀ c ∈ digits, isDigit u c = true)
    (hrest : ∀ c ∈ rest, isDigit u c = false) :
    splitDigits u (digits ++ rest) = digitGroups digits.length ++ lengths digits.length [(digits ++ rest).length] := by
  have hnone : ∀ k, digits.length ≤ k → isNumberAt u (digits ++ rest) k = false := by
    intro k hk
    obtain hlt | hge := lt_or_ge k (digits ++ rest).length
    · rw [isNumberAt_eq hlt, getElem_append_right hk]
      exact hrest _ (getElem_mem _)
    · exact number_out k hge
  cases digits with
  | nil =>
    rw [splitDigits, afmoeEnds_none fun k _ => hnone k (Nat.zero_le k)]
    rfl
  | cons d digits =>
    have hlast : skipWhile (d :: digits ++ rest) (isNumberAt u (d :: digits ++ rest)) 0 = (d :: digits).length := by
      refine advance_eq (hnone _ (Nat.le_refl _)) (Nat.zero_le _) (by simp) fun k _ hk => ?_
      rw [isNumberAt_eq (by simp at hk ⊢; omega), getElem_append_left hk]
      exact hdigits _ (getElem_mem _)
    have hfirst : isNumberAt u (d :: digits ++ rest) 0 = true := by
      rw [isNumberAt_eq (by simp)]
      exact hdigits d mem_cons_self
    have hlen : (d :: digits ++ rest).length = (digits ++ rest).length + 1 := rfl
    have hrem : (d :: digits).length = (d :: digits).length % 3 + 3 * ((d :: digits).length / 3) :=
      (Nat.mod_add_div _ _).symm
    have hgroups := @lengths_groupEnds [(d :: digits ++ rest).length] ((d :: digits).length / 3)
      (d :: digits ++ rest).length ((d :: digits).length % 3) (by rw [length_append]; omega)
    rw [← hrem] at hgroups
    rw [splitDigits]
    conv in afmoeEnds u _ _ 0 => rw [hlen, afmoeEnds]
    rw [if_pos (by simp), if_pos hfirst, hlast]
    simp only [afmoeEnds_none hnone, Nat.zero_add, Nat.sub_zero, append_nil, digitGroups]
    split
    · rename_i hpos
      rw [append_assoc, singleton_append, lengths, Nat.sub_zero, if_pos hpos, hgroups]
      simp
    · rename_i hzero
      rw [Nat.eq_zero_of_not_pos hzero] at hgroups ⊢
      rw [nil_append, nil_append, hgroups]

lemma sum_digitGroups (n : Nat) : (digitGroups n).sum = n := by
  rw [digitGroups, sum_append, sum_replicate_nat]
  split
  · rw [sum_singleton]
    omega
  · rw [sum_nil]
    omega

lemma DigitRun.eq_of_first {digits rest : List UInt32} (h : DigitRun u (digits ++ rest) pre run post)
    (hdigits : ∀ c ∈ digits, isDigit u c = true) (hrest : ∀ c ∈ rest, isDigit u c = false) :
    pre = [] ∧ run = digits := by
  have clash : ∀ {c : UInt32}, isDigit u c = true → isDigit u c = false → False := fun h1 h2 => by
    rw [h1] at h2
    cases h2
  have hsplit := h.split
  rw [append_assoc] at hsplit
  obtain ⟨x, rfl, hx⟩ | ⟨x, rfl, hx⟩ := append_eq_append_iff.1 hsplit
  · -- the run begins in the rest
    obtain ⟨c, run', hrun⟩ := exists_cons_of_ne_nil h.ne
    have hc : c ∈ rest := by
      rw [hx, hrun]
      simp
    exact (clash (h.digits c (by rw [hrun]; exact mem_cons_self)) (hrest c hc)).elim
  · have hpre : pre = [] := by
      by_contra hne
      refine clash (hdigits _ ?_) (h.before _ (getLast?_eq_some_getLast hne))
      exact mem_append_left _ (getLast_mem hne)
    subst hpre
    refine ⟨rfl, ?_⟩
    rw [nil_append] at hdigits ⊢
    obtain ⟨y, rfl, hy⟩ | ⟨y, rfl, hy⟩ := append_eq_append_iff.1 hx
    · cases y with
      | nil => exact (append_nil _).symm
      | cons c y =>
        refine (clash (hdigits c (mem_append_right _ mem_cons_self)) (h.after c ?_)).elim
        rw [hy]
        rfl
    · cases y with
      | nil => exact append_nil _
      | cons c y =>
        have hc : c ∈ rest := by
          rw [hy]
          exact mem_cons_self
        exact (clash (h.digits c (mem_append_right _ mem_cons_self)) (hrest c hc)).elim

lemma DigitsFirst.isolates (h : DigitsFirst u w) : Isolates u w (splitDigits u w) := by
  obtain ⟨digits, rest, rfl, hdigits, hrest⟩ := h
  have heq := splitDigits_eq hdigits hrest
  refine ⟨sum_splitDigits u _, pos_lengths, ?_, ?_⟩
  · intro piece hpiece
    rw [heq, parts_append (sum_digitGroups _)] at hpiece
    obtain hpiece | hpiece := mem_append.1 hpiece
    · exact .inl fun c hc => hdigits c (mem_of_mem_parts hpiece c hc)
    · exact .inr fun c hc => hrest c (mem_of_mem_parts hpiece c hc)
  · intro pre run post hrun
    obtain ⟨rfl, rfl⟩ := hrun.eq_of_first hdigits hrest
    exact ⟨[], _, heq, rfl⟩

lemma eq_of_flatten {f : List UInt32 → List Nat} {ws : List (List UInt32)} {ls : List (List Nat)}
    (h : List.Forall₂ (Isolates u) ws ls) (hsum : ∀ w, (f w).sum = w.length) (hpos : ∀ w, ∀ n ∈ f w, 0 < n)
    (heq : ls.flatten = ws.flatMap f) : ls = ws.map f := by
  refine flatten_inj ?_ (by rw [heq, flatMap_def])
  rw [forall₂_map_right_iff]
  refine h.flip.imp fun l w hl => ⟨?_, hl.pos, hpos w⟩
  rw [hl.sum, hsum]

/-- The digits are isolated and grouped exactly if in none of the parts a digit stands behind another code point. -/
theorem splitDigits_isolates_iff (u : Unicode) (cpts : List UInt32) (offsets : List Nat) :
    IsolatesAll u (parts cpts offsets) (splitCustom u .afmoe (parts cpts offsets)) ↔
      ∀ w ∈ parts cpts offsets, DigitsFirst u w := by
  constructor
  · intro ⟨ls, heq, hall⟩ w hw
    have hls := eq_of_flatten hall (sum_splitDigits u) (fun w => pos_lengths) heq.symm
    rw [hls, forall₂_map_right_iff, forall₂_same] at hall
    exact (hall w hw).digitsFirst
  · intro hfirst
    refine ⟨(parts cpts offsets).map (splitDigits u), ?_, ?_⟩
    · rw [← flatMap_def]
      rfl
    · rw [forall₂_map_right_iff, forall₂_same]
      exact fun w hw => (hfirst w hw).isolates

end

/-- In `a1234` the letter and the first digit are one piece. -/
theorem splitDigits_letter : splitCustom asciiTables .afmoe (parts [97, 49, 50, 51, 52] [5]) = [2, 3] ∧
    ¬ IsolatesAll asciiTables (parts [97, 49, 50, 51, 52] [5])
      (splitCustom asciiTables .afmoe (parts [97, 49, 50, 51, 52] [5])) := by
  refine ⟨by decide, ?_⟩
  intro ⟨ls, heq, hall⟩
  have hls := eq_of_flatten hall (sum_splitDigits asciiTables) (fun w => pos_lengths) heq.symm
  rw [hls, forall₂_map_right_iff, forall₂_same] at hall
  rcases (hall [97, 49, 50, 51, 52] (by decide)).pure [97, 49] (by decide) with hpure | hpure
  · exact absurd (hpure 97 mem_cons_self) (by decide)
  · exact absurd (hpure 49 (mem_cons_of_mem _ mem_cons_self)) (by decide)

end Mallana.Tokenizer
