import Mallana.Lib.Regex
import Mallana.Tokenizer.Reencode

/-!
# The expressions of the splitters

The regular expressions quoted above `unicode_regex_split_custom_gpt2` and `unicode_regex_split_custom_llama3`, with the
categories of code points taken from the flags. The loops of the two functions cut a part as the expressions do, as long as
the flags tell the categories apart.

A loop is at a position of a part, and the expression at what is left of the part from there on: `Tests` relates the tests of
the loop to the classes of the expression, and each branch of a loop has a lemma that gives the match of its alternative.
-/

namespace Mallana.Tokenizer

open List Option

open Mallana.Lib Mallana.Lib.Regex

/-- `\p{L}`. -/
def isLetter (u : Unicode) (c : UInt32) : Bool := (u.cptFlags c).isLetter

/-- `\p{N}`. -/
def isNumber (u : Unicode) (c : UInt32) : Bool := (u.cptFlags c).isNumber

/-- `\s`. -/
def isSpace (u : Unicode) (c : UInt32) : Bool := (u.cptFlags c).isWhitespace

/-- `[^\s\p{L}\p{N}]`. -/
def isSign (u : Unicode) (c : UInt32) : Bool := !(isSpace u c || isLetter u c || isNumber u c)

/-- `[^\r\n\p{L}\p{N}]`. -/
def isLeading (u : Unicode) (c : UInt32) : Bool := !(isNewline c || isLetter u c || isNumber u c)

def quoted (lower : UInt32 → UInt32) (letters : List UInt32) : Regex UInt32 :=
  seq (one (· == 39)) (letters.foldr (fun l r => seq (one fun c => lower c == l) r) done)

/-- `'s|'t|'re|'ve|'m|'ll|'d`. -/
def contractions (lower : UInt32 → UInt32) : Regex UInt32 :=
  alt (quoted lower [115]) <| alt (quoted lower [116]) <| alt (quoted lower [114, 101]) <|
  alt (quoted lower [118, 101]) <| alt (quoted lower [109]) <| alt (quoted lower [108, 108]) (quoted lower [100])

/-- ` ?`. -/
def blank : Regex UInt32 := opt (one (· == 32))

/-- `\s+(?!\S)|\s+`. -/
def spaces (u : Unicode) : Regex UInt32 :=
  alt (seq (one (isSpace u)) (seq (many (one (isSpace u))) (notAhead (one fun c => !isSpace u c))))
    (plus (one (isSpace u)))

/-- `'s|'t|'re|'ve|'m|'ll|'d| ?\p{L}+| ?\p{N}+| ?[^\s\p{L}\p{N}]+|\s+(?!\S)|\s+`. -/
def gpt2Expr (u : Unicode) : Regex UInt32 :=
  alt (contractions id) <| alt (seq blank (plus (one (isLetter u)))) <| alt (seq blank (plus (one (isNumber u)))) <|
  alt (seq blank (plus (one (isSign u)))) (spaces u)

/-- `\p{N}{1,3}| ?[^\s\p{L}\p{N}]+[\r\n]*|\s*[\r\n]+|\s+(?!\S)|\s+`. -/
def restExpr (u : Unicode) : Regex UInt32 :=
  alt (upToThree (one (isNumber u))) <| alt (seq blank (seq (plus (one (isSign u))) (many (one isNewline)))) <|
  alt (seq (many (one (isSpace u))) (plus (one isNewline))) (spaces u)

/-- `(?i:'s|'t|'re|'ve|'m|'ll|'d)|[^\r\n\p{L}\p{N}]?\p{L}+|` and the alternatives of `restExpr`. -/
def llama3Expr (u : Unicode) : Regex UInt32 :=
  alt (contractions u.tolower) <| alt (seq (opt (one (isLeading u))) (plus (one (isLetter u)))) (restExpr u)

/-- What the GPT2 loop takes for granted: each code point has some flag, and the blank is no letter and no number. -/
structure BlankApart (u : Unicode) : Prop where
  defined : ∀ c, (u.cptFlags c).nonzero = true
  letter : isLetter u 32 = false
  number : isNumber u 32 = false

/-- What the LLAMA3 loop takes for granted: each code point has some flag, the blank is no sign, the newlines are white space
and no letters, no number is a letter, and the apostrophe is no number. -/
structure Classified (u : Unicode) : Prop where
  defined : ∀ c, (u.cptFlags c).nonzero = true
  blank : isSign u 32 = false
  newline : ∀ c, isNewline c = true → isSpace u c = true ∧ isLetter u c = false
  number : ∀ c, isNumber u c = true → isLetter u c = false
  quote : isNumber u 39 = false

variable {u : Unicode} {w : List UInt32} {pos : Nat} {p q : UInt32 → Bool} {test : Nat → Bool}

def Tests (w : List UInt32) (p : UInt32 → Bool) (test : Nat → Bool) : Prop := ∀ k, test k = (w.drop k).head?.any p

lemma tests_flags {f : CptFlags → Bool} (hf : f {} = false) :
    Tests w (fun c => f (u.cptFlags c)) fun k => f (getFlags u w k) := by
  intro k
  rw [head?_drop]
  rcases lt_or_ge k w.length with hlt | hge
  · simp [getFlags, getCpt, hlt]
  · beta_reduce
    rw [getFlags_out hge, getElem?_eq_none hge, hf]
    rfl

lemma tests_letter : Tests w (isLetter u) (isLetterAt u w) := tests_flags rfl

lemma tests_number : Tests w (isNumber u) (isNumberAt u w) := tests_flags rfl

lemma tests_space : Tests w (isSpace u) (isSpaceAt u w) := tests_flags rfl

lemma tests_sign (hu : ∀ c, (u.cptFlags c).nonzero = true) : Tests w (isSign u) (isOtherAt u w) := by
  have hclass : (fun c => isOther (u.cptFlags c)) = isSign u := by
    funext c
    simp [isOther, isSign, isSpace, isLetter, isNumber, hu c]
  rw [← hclass]
  exact tests_flags rfl

lemma tests_cpt (hp : p outOfRange = false) : Tests w p fun k => p (getCpt w k) := by
  intro k
  beta_reduce
  rw [head?_drop, getCpt, getD_eq_getElem?_getD]
  cases w[k]? with
  | none => exact hp
  | some c => rfl

lemma tests_newline : Tests w isNewline (isNewlineAt w) := tests_cpt (by decide)

variable {k : Nat} {r : Regex UInt32} {lower : UInt32 → UInt32} {b : UInt32} {t : List UInt32} {c : UInt32}
  {last : Nat}

lemma Tests.out (h : Tests w p test) (hk : w.length ≤ k) : test k = false := by
  rw [h k, drop_eq_nil_of_le hk]
  rfl

lemma Tests.lt (h : Tests w p test) (hk : test k = true) : k < w.length := by
  refine Nat.lt_of_not_le fun hge => ?_
  rw [h.out hge] at hk
  cases hk

lemma drop_cons (hpos : pos < w.length) : w.drop pos = getCpt w pos :: w.drop (pos + 1) := by
  rw [drop_eq_getElem_cons hpos, getCpt, getD_eq_getElem?_getD, getElem?_eq_getElem hpos, getD_some]

section
variable (h : Tests w p test)
include h

lemma Tests.eq (hpos : pos < w.length) : test pos = p (getCpt w pos) := by
  rw [h pos, drop_cons hpos]
  rfl

lemma drop_skipWhile (pos : Nat) : w.drop (skipWhile w test pos) = (w.drop pos).dropWhile p := by
  suffices hgen : ∀ {fuel pos : Nat}, w.length ≤ pos + fuel → w.drop (advance test fuel pos) = (w.drop pos).dropWhile p from
    hgen (Nat.le_add_left _ _)
  intro fuel
  induction fuel with
  | zero =>
    intro pos hfuel
    rw [advance, drop_eq_nil_of_le (by omega)]
    rfl
  | succ fuel ih =>
    intro pos hfuel
    rw [advance]
    rcases lt_or_ge pos w.length with hlt | hge
    · rw [h.eq hlt, drop_cons hlt, dropWhile_cons]
      split
      · exact ih (by omega)
      · exact drop_cons hlt
    · rw [h.out hge, drop_eq_nil_of_le hge]
      exact drop_eq_nil_of_le hge

lemma skipWhile_bound (hpos : pos ≤ w.length) : skipWhile w test pos ≤ w.length :=
  skipWhile_le (fun _ => h.out) hpos

lemma skipWhile_stops (pos : Nat) : test (skipWhile w test pos) = false := by
  rw [h, drop_skipWhile h]
  cases hd : (w.drop pos).dropWhile p with
  | nil => rfl
  | cons c t =>
    have hhead := head?_dropWhile_not p (w.drop pos)
    rw [hd] at hhead
    simpa using hhead

lemma length_takeWhile (hpos : pos ≤ w.length) :
    ((w.drop pos).takeWhile p).length = skipWhile w test pos - pos := by
  have hle : pos ≤ skipWhile w test pos := le_skipWhile
  have hbound := skipWhile_bound h hpos
  have hlen : ((w.drop pos).takeWhile p).length + ((w.drop pos).dropWhile p).length = (w.drop pos).length := by
    rw [← length_append, takeWhile_append_dropWhile]
  rw [← drop_skipWhile h, length_drop, length_drop] at hlen
  omega

lemma first_plus_at (pos : Nat) :
    first (plus (one p)) (w.drop pos) = if test pos then some (w.drop (skipWhile w test pos)) else none := by
  rw [first_plus, h pos, drop_skipWhile h]

end

def Begins (p : UInt32 → Bool) (r : Regex UInt32) : Prop := ∀ s : List UInt32, s.head?.any p = false → first r s = none

lemma begins_plus : Begins p (plus (one p)) := by
  intro s hs
  rw [first_plus, hs]
  rfl

lemma first_blank_seq (hpos : pos < w.length) : first (seq blank r) (w.drop pos) =
    (if getCpt w pos = 32 then first r (w.drop (pos + 1)) else none).or (first r (w.drop pos)) := by
  rw [blank, first_seq_opt, drop_cons hpos, first_seq_one_cons]
  simp only [beq_iff_eq]

lemma first_blank (h : Tests w p test) (hr : Begins p r) (hp : p 32 = false) (hpos : pos < w.length) :
    first (seq blank r) (w.drop pos) = if test (behindSpace w pos) then first r (w.drop (behindSpace w pos)) else none := by
  have hnone : ∀ {k : Nat}, ¬test k = true → first r (w.drop k) = none := by
    intro k hk
    apply hr
    rw [← h k]
    exact Bool.eq_false_iff.2 hk
  have hself : first r (w.drop (behindSpace w pos)) =
      if test (behindSpace w pos) then first r (w.drop (behindSpace w pos)) else none := by
    split
    · rfl
    · rename_i hk
      exact hnone hk
  rw [first_blank_seq hpos, ← hself, behindSpace]
  by_cases hc : getCpt w pos = 32
  · have hback : first r (w.drop pos) = none := by
      apply hnone
      rw [h.eq hpos, hc, hp]
      exact Bool.false_ne_true
    rw [if_pos hc, if_pos hc, hback, or_none]
  · rw [if_neg hc, if_neg hc, none_or]

lemma first_blank_plus (h : Tests w p test) (hp : p 32 = false) (hpos : pos < w.length) :
    first (seq blank (plus (one p))) (w.drop pos) =
      if test (behindSpace w pos) then some (w.drop (skipWhile w test (behindSpace w pos))) else none := by
  rw [first_blank h begins_plus hp hpos, first_plus_at h]
  split <;> rfl

lemma first_quoted_one {l : UInt32} :
    first (quoted lower [l]) (39 :: b :: t) = if lower b = l then some t else none := by
  simp [quoted]

lemma first_quoted_two {l m : UInt32} :
    first (quoted lower [l, m]) (39 :: b :: c :: t) = if lower b = l ∧ lower c = m then some t else none := by
  simp [quoted, ite_and]

lemma first_quoted_other {letters : List UInt32} {a : UInt32} (ha : a ≠ 39) :
    first (quoted lower letters) (a :: t) = none := by
  simp [quoted, ha]

lemma first_contractions_two : first (contractions lower) (39 :: b :: c :: t) =
      if lower b = 115 ∨ lower b = 116 ∨ lower b = 109 ∨ lower b = 100 then some (c :: t)
      else if (lower b = 114 ∧ lower c = 101) ∨ (lower b = 118 ∧ lower c = 101) ∨ (lower b = 108 ∧ lower c = 108) then some t
      else none := by
  simp only [contractions, first_alt, first_quoted_one, first_quoted_two]
  generalize lower b = b
  generalize lower c = c
  by_cases hs : b = 115
  · simp [hs]
  by_cases ht : b = 116
  · simp [ht]
  by_cases hm : b = 109
  · simp [hm]
  by_cases hd : b = 100
  · simp [hd]
  simp only [hs, ht, hm, hd, false_or, if_false, none_or, or_none]
  by_cases hr : b = 114
  · simp [hr]
  by_cases hv : b = 118
  · simp [hv]
  simp [hr, hv]

lemma first_contractions_one : first (contractions lower) [39, b] =
      if lower b = 115 ∨ lower b = 116 ∨ lower b = 109 ∨ lower b = 100 then some [] else none := by
  have two : ∀ l m, first (quoted lower [l, m]) [39, b] = none := by
    intro l m
    simp [quoted]
  simp only [contractions, first_alt, first_quoted_one, two, none_or]
  generalize lower b = b
  by_cases hs : b = 115
  · simp [hs]
  by_cases ht : b = 116
  · simp [ht]
  by_cases hm : b = 109
  · simp [hm]
  simp [hs, ht, hm]

lemma first_contractions (lower : UInt32 → UInt32) (hpos : pos < w.length) :
    first (contractions lower) (w.drop pos) =
      if 0 < contraction lower w pos then some (w.drop (pos + contraction lower w pos)) else none := by
  rw [drop_cons hpos]
  by_cases ha : getCpt w pos = 39
  · rcases lt_or_ge (pos + 1) w.length with h1 | h1
    · rw [drop_cons h1, ha]
      rcases lt_or_ge (pos + 2) w.length with h2 | h2
      · rw [@drop_cons w (pos + 1 + 1) h2, first_contractions_two]
        simp only [contraction, ha, h1, h2, and_self, if_true]
        by_cases hshort : lower (getCpt w (pos + 1)) = 115 ∨ lower (getCpt w (pos + 1)) = 116 ∨
            lower (getCpt w (pos + 1)) = 109 ∨ lower (getCpt w (pos + 1)) = 100
        · rw [if_pos hshort, if_pos hshort, if_pos Nat.two_pos, @drop_cons w (pos + 2) h2]
        · rw [if_neg hshort, if_neg hshort]
          split <;> rfl
      · rw [(drop_eq_nil_of_le h2 : w.drop (pos + 1 + 1) = []), first_contractions_one]
        simp only [contraction, ha, h1, Nat.not_lt.2 h2, and_self, if_true, if_false]
        split
        · rw [if_pos Nat.two_pos, drop_eq_nil_of_le h2]
        · rfl
    · have hzero : contraction lower w pos = 0 := if_neg fun h => Nat.not_lt.2 h1 h.2
      rw [drop_eq_nil_of_le h1, ha, hzero]
      rfl
  · have hzero : contraction lower w pos = 0 := if_neg fun h => ha h.1
    rw [hzero]
    simp only [contractions, first_alt, first_quoted_other ha]
    rfl

lemma getCpt_eq_out (hw : outOfRange ∉ w) (pos : Nat) : getCpt w pos = outOfRange ↔ w.length ≤ pos := by
  refine ⟨fun h => Nat.le_of_not_lt fun hlt => hw ?_, getCpt_out⟩
  have hmem : getCpt w pos ∈ w.drop pos := by
    rw [drop_cons hlt]
    exact mem_cons_self
  rw [h] at hmem
  exact mem_of_mem_drop hmem

lemma skipWhile_self (h : test pos = false) : skipWhile w test pos = pos := by
  unfold skipWhile
  cases w.length with
  | zero => rfl
  | succ n => rw [advance, h, if_neg Bool.false_ne_true]

lemma skipWhile_step (h : Tests w p test) (hp : test pos = true) : skipWhile w test (pos + 1) = skipWhile w test pos := by
  have hlt := h.lt hp
  have hsame : w.drop (skipWhile w test (pos + 1)) = w.drop (skipWhile w test pos) := by
    rw [drop_skipWhile h, drop_skipWhile h, drop_cons hlt, dropWhile_cons_of_pos (by rw [← h.eq hlt, hp])]
  have hlen := congrArg List.length hsame
  have h1 : skipWhile w test (pos + 1) ≤ w.length := skipWhile_bound h hlt
  have h2 := skipWhile_bound h (le_of_lt hlt)
  rw [length_drop, length_drop] at hlen
  omega

lemma first_spaces_at (hw : outOfRange ∉ w) (hspace : isSpaceAt u w pos = true) :
    first (spaces u) (w.drop pos) = some (w.drop (spaceEnd u w pos)) := by
  have hlt : pos < w.length := tests_space.lt hspace
  have hgt := lt_skipWhile hspace hlt
  have hclass : isSpace u (getCpt w pos) = true := by rw [← tests_space.eq hlt, hspace]
  have hstep := skipWhile_step tests_space hspace
  have hrest := drop_skipWhile (@tests_space u w) (pos + 1)
  have hrun := length_takeWhile (@tests_space u w) hlt
  have hplus := first_plus_at (@tests_space u w) pos
  rw [hstep] at hrest hrun
  rw [if_pos hspace] at hplus
  rw [spaces, first_alt, hplus, drop_cons hlt, first_seq_one_cons, if_pos hclass, first_many_notAhead, ← hrest, hrun,
    ← tests_space, drop_drop, spaceEnd]
  generalize hlast : skipWhile w (isSpaceAt u w) pos = last at hgt hstep
  rcases lt_or_ge last w.length with hmid | hend
  · have hne : w.drop last ≠ [] := fun h => Nat.not_le.2 hmid (drop_eq_nil_iff.1 h)
    have hin : getCpt w last ≠ outOfRange := fun h => Nat.not_le.2 hmid ((getCpt_eq_out hw last).1 h)
    rw [if_neg hne]
    by_cases hnext : isSpaceAt u w (pos + 1)
    · have hlong : pos + 1 < last := by
        rw [← hstep]
        exact lt_skipWhile hnext (tests_space.lt hnext)
      rw [if_pos hnext, if_pos ⟨hlong, hin⟩, some_or]
      congr 2
      omega
    · have hshort : last = pos + 1 := by
        rw [← hstep]
        exact skipWhile_self (Bool.eq_false_iff.2 hnext)
      rw [if_neg hnext, if_neg (fun h => lt_irrefl _ (hshort ▸ h.1)), if_pos hgt, none_or]
  · have hout : w.drop last = [] := drop_eq_nil_of_le hend
    rw [if_pos hout, if_neg (fun h => h.2 (getCpt_out hend)), if_pos hgt, hout]
    rfl

lemma foldl_newline (ks : List Nat) (last : Nat) :
    ks.foldl (fun last k => if isNewlineAt w k then k + 1 else last) last =
      if 0 < ks.foldl (fun last k => if isNewlineAt w k then k + 1 else last) 0 then
        ks.foldl (fun last k => if isNewlineAt w k then k + 1 else last) 0 else last := by
  induction ks generalizing last with
  | nil => rfl
  | cons k ks ih =>
    rw [foldl_cons, foldl_cons]
    by_cases hk : isNewlineAt w k
    · rw [if_pos hk, if_pos hk, ih (k + 1)]
      split
      · rfl
      · rw [if_pos (Nat.succ_pos k)]
    · rw [if_neg hk, if_neg hk, ih last]

lemma newlineEnd_step (hspace : isSpaceAt u w pos = true) :
    newlineEnd u w pos = if 0 < newlineEnd u w (pos + 1) then newlineEnd u w (pos + 1)
      else if isNewlineAt w pos then pos + 1 else 0 := by
  have hgt := lt_skipWhile hspace (tests_space.lt hspace)
  have hstep := skipWhile_step tests_space hspace
  have hcount : skipWhile w (isSpaceAt u w) pos - pos = skipWhile w (isSpaceAt u w) pos - (pos + 1) + 1 := by omega
  have hnext : newlineEnd u w (pos + 1) = (List.range' (pos + 1) (skipWhile w (isSpaceAt u w) pos - (pos + 1))).foldl
      (fun last k => if isNewlineAt w k then k + 1 else last) 0 := by rw [newlineEnd, hstep]
  rw [hnext, newlineEnd, hcount, range'_succ, foldl_cons, foldl_newline]

lemma newlineEnd_stop (hspace : isSpaceAt u w pos = false) : newlineEnd u w pos = 0 := by
  rw [newlineEnd, skipWhile_self hspace, Nat.sub_self]
  rfl

lemma first_newlines_at (hnew : ∀ c, isNewline c = true → isSpace u c = true) (pos : Nat) :
    first (seq (many (one (isSpace u))) (plus (one isNewline))) (w.drop pos) =
      if 0 < newlineEnd u w pos then some (w.drop (newlineEnd u w pos)) else none := by
  suffices h : ∀ {n pos : Nat}, w.length ≤ pos + n →
      first (seq (many (one (isSpace u))) (plus (one isNewline))) (w.drop pos) =
        if 0 < newlineEnd u w pos then some (w.drop (newlineEnd u w pos)) else none from h (Nat.le_add_left _ _)
  intro n
  induction n with
  | zero =>
    intro pos hn
    rw [add_zero] at hn
    rw [newlineEnd_stop (tests_space.out hn), drop_eq_nil_of_le hn]
    rfl
  | succ n ih =>
    intro pos hn
    rcases lt_or_ge pos w.length with hlt | hge
    · rw [drop_cons hlt, first_many_plus hnew, ih (by omega), ← tests_space.eq hlt, ← tests_newline.eq hlt]
      cases hspace : isSpaceAt u w pos with
      | false =>
        rw [newlineEnd_stop hspace]
        rfl
      | true =>
        rw [newlineEnd_step hspace, if_pos rfl]
        by_cases hmore : 0 < newlineEnd u w (pos + 1)
        · rw [if_pos hmore, if_pos hmore, if_pos hmore, some_or]
        · rw [if_neg hmore, if_neg hmore, none_or]
          split
          · rw [if_pos (Nat.succ_pos pos)]
          · rfl
    · rw [newlineEnd_stop (tests_space.out hge), drop_eq_nil_of_le hge]
      rfl

lemma lengths_append (a : Nat) (ends ends' : List Nat) :
    lengths a (ends ++ ends') = lengths a ends ++ lengths (ends.getLastD a) ends' := by
  induction ends generalizing a with
  | nil => rfl
  | cons e ends ih =>
    rw [cons_append, lengths, lengths, getLastD_cons, ih]
    split <;> rfl

/-- The words of a text go on behind the words at a position. -/
def CutsAt (r : Regex UInt32) (w : List UInt32) (pos : Nat) (ends : List Nat) (last : Nat) : Prop :=
  words r (w.drop pos) = lengths pos ends ++ words r (w.drop last)

lemma cutsAt_of_first (h : first r (w.drop pos) = some (w.drop last)) (hgt : pos < last)
    (hle : last ≤ w.length) : CutsAt r w pos [last] last := by
  have hlt : (w.drop last).length < (w.drop pos).length := by
    rw [length_drop, length_drop]
    omega
  have hlen : (w.drop pos).length - (w.drop last).length = last - pos := by
    rw [length_drop, length_drop]
    omega
  rw [CutsAt, words_match h hlt, hlen, lengths, if_pos (by omega)]
  rfl

lemma cutsAt_numbers (hlast : last ≤ w.length) (hstop : isNumberAt u w last = false)
    (hrun : ∀ k, pos ≤ k → k < last → isNumberAt u w k = true)
    (hr : ∀ k, pos ≤ k → k < last → first r (w.drop k) = some (w.drop (min (k + 3) last))) :
    ∀ {fuel k ini : Nat}, pos ≤ ini → ini ≤ k → k ≤ ini + 2 → k ≤ last → w.length ≤ k + fuel →
      CutsAt r w ini (numberEnds u w fuel k ini) last ∧ (numberEnds u w fuel k ini).getLastD ini = last := by
  -- the group from `ini` to the end of the run
  have tail : ∀ {ini : Nat}, pos ≤ ini → last ≤ ini + 2 → ini ≤ last → CutsAt r w ini [last] last := by
    intro ini hini hshort hle
    rcases lt_or_eq_of_le hle with hlt | rfl
    · have hfirst := hr ini hini hlt
      rw [min_eq_right (by omega)] at hfirst
      exact cutsAt_of_first hfirst hlt hlast
    · rw [CutsAt, lengths, Nat.sub_self]
      rfl
  intro fuel
  induction fuel with
  | zero =>
    intro k ini hini hle hshort hklast hfuel
    obtain rfl : k = last := by omega
    exact ⟨tail hini hshort hle, rfl⟩
  | succ fuel ih =>
    intro k ini hini hle hshort hklast hfuel
    rw [numberEnds]
    rcases lt_or_eq_of_le hklast with hlt | rfl
    · rw [if_pos (hrun k (le_trans hini hle) hlt)]
      split
      · rename_i hthree
        obtain ⟨hcuts, hend⟩ := @ih (k + 1) (k + 1) (by omega) (le_refl _) (by omega) hlt (by omega)
        have hfirst := hr ini hini (by omega)
        rw [min_eq_left (by omega), show ini + 3 = k + 1 by omega] at hfirst
        have hgroup := cutsAt_of_first hfirst (by omega) (by omega)
        refine ⟨?_, by rw [getLastD_cons, hend]⟩
        rw [CutsAt] at hcuts hgroup ⊢
        rw [hgroup, hcuts, ← append_assoc]
        exact congrArg (· ++ words r (w.drop last)) (lengths_append ini [k + 1] _).symm
      · exact @ih (k + 1) ini hini (by omega) (by omega) hlt (by omega)
    · rw [if_neg (Bool.eq_false_iff.1 hstop)]
      exact ⟨tail hini hshort hle, rfl⟩

lemma begins_signs : Begins p (seq (plus (one p)) (many (one q))) := by
  intro s hs
  rw [first_seq_total (fun t => by rw [first_many]; rfl), begins_plus s hs]
  rfl

lemma first_signs_at (hu : Classified u) (hpos : pos < w.length) :
    first (seq blank (seq (plus (one (isSign u))) (many (one isNewline)))) (w.drop pos) =
      if isOtherAt u w (behindSpace w pos) then
        some (w.drop (skipWhile w (isNewlineAt w) (skipWhile w (isOtherAt u w) (behindSpace w pos))))
      else none := by
  rw [first_blank (tests_sign hu.defined) begins_signs hu.blank hpos]
  split
  · rename_i hsign
    rw [first_seq_total (fun t => by rw [first_many]; rfl), first_plus_at (tests_sign hu.defined), if_pos hsign, bind_some,
      first_many, drop_skipWhile tests_newline]
  · rfl

lemma space_of_rest (hu : Classified u) (hpos : pos < w.length) (hletter : isLetterAt u w pos = false)
    (hnumber : isNumberAt u w pos = false) (hsign : isOtherAt u w (behindSpace w pos) = false) :
    isSpaceAt u w pos = true := by
  rw [tests_letter.eq hpos] at hletter
  rw [tests_number.eq hpos] at hnumber
  rw [tests_space.eq hpos]
  have hself : isSign u (getCpt w pos) = false := by
    rcases behindSpace_cases w pos with hsame | ⟨hblank, -⟩
    · rw [← (tests_sign hu.defined).eq hpos, ← hsame]
      exact hsign
    · rw [hblank]
      exact hu.blank
  rw [isSign, hletter, hnumber, Bool.or_false, Bool.or_false] at hself
  simpa using hself

lemma first_rest_at (hu : Classified u) (hw : outOfRange ∉ w) (hpos : pos < w.length) (hletter : isLetterAt u w pos = false)
    (hnumber : isNumberAt u w pos = false) :
    ∃ last, pos < last ∧ last ≤ w.length ∧ first (restExpr u) (w.drop pos) = some (w.drop last) ∧
      (if isOtherAt u w (behindSpace w pos) then
        [skipWhile w (isNewlineAt w) (skipWhile w (isOtherAt u w) (behindSpace w pos))]
      else spaceEnds u w pos) = [last] := by
  have hno : first (upToThree (one (isNumber u))) (w.drop pos) = none := by
    rw [first_upToThree, ← tests_number, hnumber]
    rfl
  rw [restExpr, first_alt, hno, none_or, first_alt, first_signs_at hu hpos]
  by_cases hsign : isOtherAt u w (behindSpace w pos)
  · rw [if_pos hsign, if_pos hsign]
    have hfirst : behindSpace w pos = pos ∧ isOtherAt u w (behindSpace w pos) = true ∨ behindSpace w pos = pos + 1 := by
      rcases behindSpace_cases w pos with hsame | ⟨-, hnext⟩
      · exact .inl ⟨hsame, hsign⟩
      · exact .inr hnext
    obtain ⟨last, hclimb, hgt, hle⟩ := climb_others hpos hfirst
    obtain rfl : _ = last := hclimb.2
    exact ⟨_, hgt, hle, rfl, rfl⟩
  · rw [if_neg hsign, if_neg hsign, none_or, first_alt, first_newlines_at (fun c hc => (hu.newline c hc).1)]
    have hspace := space_of_rest hu hpos hletter hnumber (Bool.eq_false_iff.2 hsign)
    obtain ⟨last, hclimb, hgt, hle⟩ := @climb_spaceEnds u w pos hpos
    rw [first_spaces_at hw hspace]
    unfold spaceEnds at hclimb ⊢
    split at hclimb
    · rename_i hnew
      obtain rfl : _ = last := hclimb.2
      rw [if_pos hnew, if_pos hnew]
      exact ⟨_, hgt, hle, rfl, rfl⟩
    · rename_i hnew
      obtain rfl : _ = last := hclimb.2
      rw [if_neg hnew, if_neg hnew]
      exact ⟨_, hgt, hle, rfl, rfl⟩

lemma splitPart_eq_words {step : List UInt32 → Nat → List Nat}
    (h : ∀ pos < w.length, pos < (step w pos).getLastD pos ∧ CutsAt r w pos (step w pos) ((step w pos).getLastD pos)) :
    splitPart step w = words r w := by
  suffices hgen : ∀ {fuel pos : Nat}, w.length ≤ pos + fuel →
      lengths pos (endsFrom (step w) w.length fuel pos) = words r (w.drop pos) from hgen (Nat.le_add_left _ _)
  intro fuel
  induction fuel with
  | zero =>
    intro pos hfuel
    rw [drop_eq_nil_of_le (by omega)]
    rfl
  | succ fuel ih =>
    intro pos hfuel
    rw [endsFrom]
    rcases lt_or_ge pos w.length with hlt | hge
    · obtain ⟨hgt, hcuts⟩ := h pos hlt
      rw [if_pos hlt, lengths_append, ih (by omega)]
      exact hcuts.symm
    · rw [if_neg (Nat.not_lt.2 hge), drop_eq_nil_of_le hge]
      rfl

lemma bounds_of_goesOn {step : Nat → List Nat} (h : GoesOn w.length step) (hpos : pos < w.length)
    (hlast : step pos = [last]) : pos < last ∧ last ≤ w.length := by
  obtain ⟨b, hclimb, hgt, hle⟩ := h pos hpos
  rw [hlast] at hclimb
  obtain rfl : last = b := hclimb.2
  exact ⟨hgt, hle⟩

lemma first_gpt2_signs (hu : BlankApart u) (hw : outOfRange ∉ w) (hpos : pos < w.length)
    (hletter : isLetterAt u w (behindSpace w pos) = false) (hnumber : isNumberAt u w (behindSpace w pos) = false) :
    ∃ last, (if isOtherAt u w (behindSpace w pos) then [skipWhile w (isOtherAt u w) (behindSpace w pos)]
        else [spaceEnd u w pos]) = [last] ∧
      (first (seq blank (plus (one (isSign u)))) (w.drop pos)).or (first (spaces u) (w.drop pos)) = some (w.drop last) := by
  have hself : isLetter u (getCpt w pos) = false ∧ isNumber u (getCpt w pos) = false := by
    rcases behindSpace_cases w pos with hsame | ⟨hblank, -⟩
    · rw [← tests_letter.eq hpos, ← tests_number.eq hpos, ← hsame]
      exact ⟨hletter, hnumber⟩
    · rw [hblank]
      exact ⟨hu.letter, hu.number⟩
  have hclass : isOtherAt u w pos = !isSpaceAt u w pos := by
    rw [(tests_sign hu.defined).eq hpos, isSign, hself.1, hself.2, Bool.or_false, Bool.or_false, tests_space.eq hpos]
  rw [first_blank_seq hpos, first_plus_at (tests_sign hu.defined), first_plus_at (tests_sign hu.defined), behindSpace]
  by_cases hnext : getCpt w pos = 32 ∧ isOtherAt u w (pos + 1)
  · rw [if_pos hnext.1, if_pos hnext.1, if_pos hnext.2, if_pos hnext.2]
    exact ⟨_, rfl, rfl⟩
  have hskip : (if getCpt w pos = 32 then
      if isOtherAt u w (pos + 1) then some (w.drop (skipWhile w (isOtherAt u w) (pos + 1))) else none else none) = none := by
    split
    · rename_i hc
      exact if_neg fun h => hnext ⟨hc, h⟩
    · rfl
  rw [hskip, none_or]
  cases hspace : isSpaceAt u w pos with
  | true =>
    rw [hspace, Bool.not_true] at hclass
    refine ⟨spaceEnd u w pos, if_neg ?_, ?_⟩
    · split
      · rename_i hc
        exact fun h => hnext ⟨hc, h⟩
      · rw [hclass]
        exact Bool.false_ne_true
    · rw [hclass, if_neg Bool.false_ne_true, none_or, first_spaces_at hw hspace]
  | false =>
    rw [hspace, Bool.not_false] at hclass
    rw [hclass, if_pos rfl, some_or]
    by_cases hc : getCpt w pos = 32
    · have hstop : isOtherAt u w (pos + 1) = false := Bool.eq_false_iff.2 fun h => hnext ⟨hc, h⟩
      have hend : spaceEnd u w pos = pos + 1 := by
        rw [spaceEnd, skipWhile_self hspace, if_neg (by omega), if_neg (lt_irrefl pos)]
      rw [if_pos hc, hstop, if_neg Bool.false_ne_true, hend, ← skipWhile_step (tests_sign hu.defined) hclass,
        skipWhile_self hstop]
      exact ⟨_, rfl, rfl⟩
    · rw [if_neg hc, hclass, if_pos rfl]
      exact ⟨_, rfl, rfl⟩

lemma first_gpt2 (hu : BlankApart u) (hw : outOfRange ∉ w) (hpos : pos < w.length) :
    ∃ last, gpt2Ends u w pos = [last] ∧ first (gpt2Expr u) (w.drop pos) = some (w.drop last) := by
  rw [gpt2Expr, first_alt, first_contractions id hpos, first_alt, first_blank_plus tests_letter hu.letter hpos, first_alt,
    first_blank_plus tests_number hu.number hpos, first_alt]
  have hloop : gpt2Ends u w pos = if 0 < contraction id w pos then [pos + contraction id w pos]
      else if isLetterAt u w (behindSpace w pos) then [skipWhile w (isLetterAt u w) (behindSpace w pos)]
      else if isNumberAt u w (behindSpace w pos) then [skipWhile w (isNumberAt u w) (behindSpace w pos)]
      else if isOtherAt u w (behindSpace w pos) then [skipWhile w (isOtherAt u w) (behindSpace w pos)]
      else [spaceEnd u w pos] := rfl
  rw [hloop]
  by_cases hcon : 0 < contraction id w pos
  · rw [if_pos hcon, if_pos hcon]
    exact ⟨_, rfl, rfl⟩
  rw [if_neg hcon, if_neg hcon, none_or]
  by_cases hletter : isLetterAt u w (behindSpace w pos)
  · rw [if_pos hletter, if_pos hletter]
    exact ⟨_, rfl, rfl⟩
  rw [if_neg hletter, if_neg hletter, none_or]
  by_cases hnumber : isNumberAt u w (behindSpace w pos)
  · rw [if_pos hnumber, if_pos hnumber]
    exact ⟨_, rfl, rfl⟩
  rw [if_neg hnumber, if_neg hnumber, none_or]
  exact first_gpt2_signs hu hw hpos (Bool.eq_false_iff.2 hletter) (Bool.eq_false_iff.2 hnumber)

lemma first_letters_at (hpos : pos < w.length) :
    first (seq (opt (one (isLeading u))) (plus (one (isLetter u)))) (w.drop pos) =
      if isLetterAt u w pos || (isLeadingAt u w pos && isLetterAt u w (pos + 1)) then
        some (w.drop (skipWhile w (isLetterAt u w) (pos + 1))) else none := by
  have hlead : isLeadingAt u w pos = isLeading u (getCpt w pos) := by
    rw [isLeadingAt, tests_letter.eq hpos, tests_number.eq hpos]
    rfl
  rw [first_seq_opt, drop_cons hpos, first_seq_one_cons, ← drop_cons hpos, first_plus_at tests_letter,
    first_plus_at tests_letter, ← hlead]
  cases hletter : isLetterAt u w pos with
  | true =>
    have hno : isLeadingAt u w pos = false := by
      rw [isLeadingAt, hletter, Bool.or_true]
      rfl
    rw [hno, if_neg Bool.false_ne_true, none_or, if_pos rfl, ← skipWhile_step tests_letter hletter]
    rfl
  | false =>
    rw [Bool.false_or, if_neg Bool.false_ne_true, or_none]
    cases isLeadingAt u w pos <;> rfl

lemma first_numbers_at (hpos : pos < w.length) (hnumber : isNumberAt u w pos = true) :
    first (restExpr u) (w.drop pos) = some (w.drop (min (pos + 3) (skipWhile w (isNumberAt u w) pos))) := by
  have hle : pos ≤ skipWhile w (isNumberAt u w) pos := le_skipWhile
  rw [restExpr, first_alt, first_upToThree, ← tests_number, hnumber, if_pos rfl, length_takeWhile tests_number (le_of_lt hpos),
    drop_drop, some_or]
  congr 2
  omega

lemma skipWhile_mid (h : Tests w p test) (hle : pos ≤ k) (hlt : k < skipWhile w test pos) :
    skipWhile w test k = skipWhile w test pos := by
  induction k, hle using Nat.le_induction with
  | base => rfl
  | succ k hle ih =>
    have hmeets : test k = true := advance_meets hle (Nat.lt_of_succ_lt hlt)
    rw [skipWhile_step h hmeets]
    exact ih (Nat.lt_of_succ_lt hlt)

lemma cutsAt_run (hpos : pos < w.length)
    (hr : ∀ k, isNumberAt u w k = true → first r (w.drop k) = first (restExpr u) (w.drop k)) :
    CutsAt r w pos (numberEnds u w w.length pos pos) (skipWhile w (isNumberAt u w) pos) ∧
      (numberEnds u w w.length pos pos).getLastD pos = skipWhile w (isNumberAt u w) pos := by
  have hrun : ∀ k, pos ≤ k → k < skipWhile w (isNumberAt u w) pos → isNumberAt u w k = true := fun k => advance_meets
  refine cutsAt_numbers (skipWhile_bound tests_number (le_of_lt hpos)) (skipWhile_stops tests_number pos) hrun ?_
    (le_refl _) (le_refl _) (Nat.le_add_right _ _) le_skipWhile (Nat.le_add_left _ _)
  intro k hle hlt
  have hk := hrun k hle hlt
  rw [hr k hk, first_numbers_at (tests_number.lt hk) hk, skipWhile_mid tests_number hle hlt]

lemma first_at_number (hu : Classified u) (hnumber : isNumberAt u w pos = true) :
    contraction u.tolower w pos = 0 ∧ isLetterAt u w pos = false ∧ isLeadingAt u w pos = false := by
  have hpos := tests_number.lt hnumber
  have hclass : isNumber u (getCpt w pos) = true := by rw [← tests_number.eq hpos, hnumber]
  refine ⟨if_neg fun h => ?_, ?_, ?_⟩
  · rw [h.1, hu.quote] at hclass
    cases hclass
  · rw [tests_letter.eq hpos]
    exact hu.number _ hclass
  · rw [isLeadingAt, hnumber, Bool.or_true]
    rfl

lemma letters_test (hu : Classified u) (hpos : pos < w.length) :
    (!(isNewlineAt w pos || isNumberAt u w pos) && (isLetterAt u w pos || isLetterAt u w (pos + 1))) =
      (isLetterAt u w pos || (isLeadingAt u w pos && isLetterAt u w (pos + 1))) := by
  cases hletter : isLetterAt u w pos with
  | true =>
    have hnew : isNewlineAt w pos = false := by
      refine Bool.eq_false_iff.2 fun h => ?_
      rw [tests_newline.eq hpos] at h
      rw [tests_letter.eq hpos, (hu.newline _ h).2] at hletter
      cases hletter
    have hnumber : isNumberAt u w pos = false := by
      refine Bool.eq_false_iff.2 fun h => ?_
      rw [(first_at_number hu h).2.1] at hletter
      cases hletter
    rw [hnew, hnumber]
    rfl
  | false => rw [isLeadingAt, hletter, Bool.or_false, Bool.false_or, Bool.false_or]

lemma llama3_signs (hu : Classified u) (hpos : pos < w.length) (hgt : pos < last) (hle : last ≤ w.length)
    (hlast : (if isOtherAt u w (behindSpace w pos) then
        [skipWhile w (isNewlineAt w) (skipWhile w (isOtherAt u w) (behindSpace w pos))]
      else spaceEnds u w pos) = [last]) :
    (if !(isSpaceAt u w (behindSpace w pos) || isLetterAt u w (behindSpace w pos) || isNumberAt u w (behindSpace w pos)) &&
        (getFlags u w pos).nonzero then
      [skipWhile w (isNewlineAt w) (skipWhile w (isOtherAt u w) (behindSpace w pos))]
    else spaceEnds u w pos) = [last] := by
  have hdefined : ∀ {k : Nat}, k < w.length → (getFlags u w k).nonzero = true := by
    intro k hk
    rw [getFlags, if_pos hk]
    exact hu.defined _
  rcases lt_or_ge (behindSpace w pos) w.length with hin | hout
  · have hsame : (!(isSpaceAt u w (behindSpace w pos) || isLetterAt u w (behindSpace w pos) ||
        isNumberAt u w (behindSpace w pos)) && (getFlags u w pos).nonzero) = isOtherAt u w (behindSpace w pos) := by
      rw [hdefined hpos, isOtherAt, isOther, hdefined hin]
      rfl
    rw [hsame]
    exact hlast
  · have hend : behindSpace w pos = pos + 1 ∧ last = pos + 1 := by
      rcases behindSpace_cases w pos with hsame | ⟨-, hnext⟩ <;> omega
    have hfalse : isOtherAt u w (pos + 1) = false := (tests_sign hu.defined).out (hend.1 ▸ hout)
    have hnew : isNewlineAt w (pos + 1) = false := tests_newline.out (hend.1 ▸ hout)
    rw [tests_space.out hout, tests_letter.out hout, tests_number.out hout, hdefined hpos, hend.1, skipWhile_self hfalse,
      skipWhile_self hnew, hend.2]
    rfl

lemma cutsAt_llama3 (hu : Classified u) (hw : outOfRange ∉ w) (hpos : pos < w.length) :
    CutsAt (llama3Expr u) w pos (llama3Ends u w pos) ((llama3Ends u w pos).getLastD pos) := by
  have hsingle : ∀ {last : Nat}, llama3Ends u w pos = [last] → first (llama3Expr u) (w.drop pos) = some (w.drop last) →
      CutsAt (llama3Expr u) w pos (llama3Ends u w pos) ((llama3Ends u w pos).getLastD pos) := by
    intro last hends hfirst
    obtain ⟨hgt, hle⟩ := bounds_of_goesOn goesOn_llama3 hpos hends
    rw [hends]
    exact cutsAt_of_first hfirst hgt hle
  have hexpr : ∀ {k : Nat}, k < w.length → first (llama3Expr u) (w.drop k) =
      (if 0 < contraction u.tolower w k then some (w.drop (k + contraction u.tolower w k)) else none).or
        ((if isLetterAt u w k || (isLeadingAt u w k && isLetterAt u w (k + 1)) then
          some (w.drop (skipWhile w (isLetterAt u w) (k + 1))) else none).or (first (restExpr u) (w.drop k))) := by
    intro k hk
    rw [llama3Expr, first_alt, first_contractions _ hk, first_alt, first_letters_at hk]
  have hloop : llama3Ends u w pos = if 0 < contraction u.tolower w pos then [pos + contraction u.tolower w pos]
      else if !(isNewlineAt w pos || isNumberAt u w pos) && (isLetterAt u w pos || isLetterAt u w (pos + 1)) then
        [skipWhile w (isLetterAt u w) (pos + 1)]
      else if isNumberAt u w pos then numberEnds u w w.length pos pos
      else if !(isSpaceAt u w (behindSpace w pos) || isLetterAt u w (behindSpace w pos) ||
          isNumberAt u w (behindSpace w pos)) && (getFlags u w pos).nonzero then
        [skipWhile w (isNewlineAt w) (skipWhile w (isOtherAt u w) (behindSpace w pos))]
      else spaceEnds u w pos := rfl
  have hmatch := hexpr hpos
  rw [letters_test hu hpos] at hloop
  by_cases hcon : 0 < contraction u.tolower w pos
  · rw [if_pos hcon] at hloop hmatch
    exact hsingle hloop hmatch
  rw [if_neg hcon] at hloop hmatch
  rw [none_or] at hmatch
  by_cases hletters : (isLetterAt u w pos || (isLeadingAt u w pos && isLetterAt u w (pos + 1))) = true
  · rw [if_pos hletters] at hloop hmatch
    exact hsingle hloop hmatch
  rw [if_neg hletters] at hloop hmatch
  rw [none_or] at hmatch
  by_cases hnumber : isNumberAt u w pos
  · rw [if_pos hnumber] at hloop
    have hr : ∀ k, isNumberAt u w k = true → first (llama3Expr u) (w.drop k) = first (restExpr u) (w.drop k) := by
      intro k hk
      obtain ⟨hzero, hno, hlead⟩ := first_at_number hu hk
      rw [hexpr (tests_number.lt hk), hzero, hno, hlead]
      rfl
    obtain ⟨hcuts, hend⟩ := cutsAt_run hpos hr
    rw [hloop, hend]
    exact hcuts
  · rw [if_neg hnumber] at hloop
    have hletter : isLetterAt u w pos = false := by
      refine Bool.eq_false_iff.2 fun h => hletters ?_
      rw [h]
      rfl
    obtain ⟨last, hgt, hle, hfirst, hends⟩ := first_rest_at hu hw hpos hletter (Bool.eq_false_iff.2 hnumber)
    rw [llama3_signs hu hpos hgt hle hends] at hloop
    exact hsingle hloop (hmatch.trans hfirst)

lemma Encodes.ne_out {bytes : Str} (h : Encodes c bytes) : c ≠ outOfRange := by
  have hsmall : ∀ {n : Nat}, n < 2 ^ 21 → UInt32.ofNat n ≠ outOfRange := by
    intro n hn heq
    have hnat := congrArg UInt32.toNat heq
    rw [UInt32.toNat_ofNat', Nat.mod_eq_of_lt (by omega)] at hnat
    rw [hnat] at hn
    exact absurd hn (by decide)
  cases h <;> exact hsmall (by omega)

lemma out_notMem_cptsFromUtf8 (text : Str) : outOfRange ∉ cptsFromUtf8 text := by
  suffices h : ∀ (fuel : Nat) (text : Str), outOfRange ∉ cptsLoop fuel text from h _ text
  intro fuel
  induction fuel with
  | zero => exact fun _ => not_mem_nil
  | succ fuel ih =>
    intro text
    cases text with
    | nil => exact not_mem_nil
    | cons b bs =>
      rw [cptsLoop]
      cases hdecode : cptFromUtf8 (b :: bs) with
      | none => exact not_mem_cons_of_ne_of_not_mem (by decide) (ih bs)
      | some p =>
        obtain ⟨bytes, rest, -, -, henc⟩ := encodes_of_decode hdecode
        exact not_mem_cons_of_ne_of_not_mem henc.ne_out.symm (ih _)

lemma mem_parts : ∀ {offsets : List Nat} {cpts : List UInt32}, w ∈ parts cpts offsets → c ∈ w → c ∈ cpts := by
  intro offsets
  induction offsets with
  | nil =>
    intro cpts h
    cases h
  | cons n ns ih =>
    intro cpts h hc
    rcases mem_cons.1 h with rfl | h
    · exact mem_of_mem_take hc
    · exact mem_of_mem_drop (ih h hc)

lemma splitPart_gpt2 (hu : BlankApart u) (hw : outOfRange ∉ w) : splitPart (gpt2Ends u) w = words (gpt2Expr u) w := by
  refine splitPart_eq_words fun pos hpos => ?_
  obtain ⟨last, hends, hfirst⟩ := first_gpt2 hu hw hpos
  obtain ⟨hgt, hle⟩ := bounds_of_goesOn goesOn_gpt2 hpos hends
  rw [hends]
  exact ⟨hgt, cutsAt_of_first hfirst hgt hle⟩

lemma splitPart_llama3 (hu : Classified u) (hw : outOfRange ∉ w) :
    splitPart (llama3Ends u) w = words (llama3Expr u) w := by
  refine splitPart_eq_words fun pos hpos => ⟨?_, cutsAt_llama3 hu hw hpos⟩
  obtain ⟨b, hclimb, hgt, -⟩ := @goesOn_llama3 u w pos hpos
  rw [hclimb.getLastD]
  exact hgt

/-- The splitters cut the parts of a text into the words of their expressions. -/
theorem splitters_eq_words (u : Unicode) (text : Str) (offsets : List Nat) : (BlankApart u →
      splitCustom u .gpt2 (parts (cptsFromUtf8 text) offsets) =
        (parts (cptsFromUtf8 text) offsets).flatMap (words (gpt2Expr u)) ∧
      ∀ w ∈ parts (cptsFromUtf8 text) offsets, splitPart (gpt2Ends u) w = words (gpt2Expr u) w) ∧ (Classified u →
      splitCustom u .llama3 (parts (cptsFromUtf8 text) offsets) =
        (parts (cptsFromUtf8 text) offsets).flatMap (words (llama3Expr u)) ∧
      ∀ w ∈ parts (cptsFromUtf8 text) offsets, splitPart (llama3Ends u) w = words (llama3Expr u) w) ∧
    ∀ w ∈ parts (cptsFromUtf8 text) offsets,
      (splitPart (gpt2Ends u) w).sum = w.length ∧ (splitPart (llama3Ends u) w).sum = w.length := by
  have hout : ∀ w ∈ parts (cptsFromUtf8 text) offsets, outOfRange ∉ w :=
    fun w hw hmem => out_notMem_cptsFromUtf8 text (mem_parts hw hmem)
  refine ⟨fun hu => ⟨?_, ?_⟩, fun hu => ⟨?_, ?_⟩, fun w _ => ⟨sum_splitPart goesOn_gpt2, sum_splitPart goesOn_llama3⟩⟩
  · exact flatMap_congr fun w hw => splitPart_gpt2 hu (hout w hw)
  · exact fun w hw => splitPart_gpt2 hu (hout w hw)
  · exact flatMap_congr fun w hw => splitPart_llama3 hu (hout w hw)
  · exact fun w hw => splitPart_llama3 hu (hout w hw)

def plainTables : Unicode :=
  { asciiTables with
    cptFlags := fun c =>
      { isWhitespace := c == 32 || decide (9 ≤ c ∧ c ≤ 13)
        isLetter := decide ((65 ≤ c ∧ c ≤ 90) ∨ (97 ≤ c ∧ c ≤ 122))
        isNumber := decide (48 ≤ c ∧ c ≤ 57)
        nonzero := true } }

lemma plainTables_blank : BlankApart plainTables where
  defined _ := rfl
  letter := by decide
  number := by decide

lemma plainTables_classified : Classified plainTables where
  defined _ := rfl
  blank := by decide
  newline c hc := by
    rw [isNewline, Bool.or_eq_true, beq_iff_eq, beq_iff_eq] at hc
    rcases hc with rfl | rfl <;> decide
  number c hc := by
    obtain ⟨h1, h2⟩ := of_decide_eq_true hc
    refine decide_eq_false fun h => ?_
    rw [UInt32.le_iff_toNat_le] at h1 h2
    simp only [UInt32.le_iff_toNat_le] at h
    simp only [UInt32.reduceToNat] at h h1 h2
    omega
  quote := by decide

/-- A text with a contraction, numbers and white space in front of a word. -/
theorem splitters_eq_words_mixed :
    splitCustom plainTables .gpt2 (parts (cptsFromUtf8 (ascii "It's 12345 !? \n x")) [18]) =
      (parts (cptsFromUtf8 (ascii "It's 12345 !? \n x")) [18]).flatMap (words (gpt2Expr plainTables)) ∧
    splitCustom plainTables .llama3 (parts (cptsFromUtf8 (ascii "It's 12345 !? \n x")) [18]) =
      (parts (cptsFromUtf8 (ascii "It's 12345 !? \n x")) [18]).flatMap (words (llama3Expr plainTables)) :=
  have h := splitters_eq_words plainTables (ascii "It's 12345 !? \n x") [18]
  ⟨(h.1 plainTables_blank).1, (h.2.1 plainTables_classified).1⟩

def withFlags (c : UInt32) (f : CptFlags) : Unicode :=
  { plainTables with cptFlags := fun d => if d = c then f else plainTables.cptFlags d }

/-- Where a table does not tell the categories apart, the loops and the expressions differ: a blank that is a letter, a number
or no white space, a newline that is a letter or no white space, a digit that is a letter, an apostrophe that is a number,
and a code point without any category. -/
theorem splitters_unclassified :
    (splitCustom (withFlags 32 { isLetter := true, nonzero := true }) .gpt2 (parts (cptsFromUtf8 [32, 49]) [2]) = [2] ∧
      words (gpt2Expr (withFlags 32 { isLetter := true, nonzero := true })) [32, 49] = [1, 1]) ∧
    (splitCustom (withFlags 32 { isNumber := true, nonzero := true }) .gpt2 (parts (cptsFromUtf8 [32, 33]) [2]) = [2] ∧
      words (gpt2Expr (withFlags 32 { isNumber := true, nonzero := true })) [32, 33] = [1, 1]) ∧
    (splitCustom (withFlags 32 { nonzero := true }) .llama3 (parts (cptsFromUtf8 [32, 10]) [2]) = [1, 1] ∧
      words (llama3Expr (withFlags 32 { nonzero := true })) [32, 10] = [2]) ∧
    (splitCustom (withFlags 10 { isLetter := true, nonzero := true }) .llama3 (parts (cptsFromUtf8 [10, 97]) [2]) = [1, 1] ∧
      words (llama3Expr (withFlags 10 { isLetter := true, nonzero := true })) [10, 97] = [2]) ∧
    (splitCustom (withFlags 10 { nonzero := true }) .llama3 (parts (cptsFromUtf8 [9, 10]) [2]) = [1, 1] ∧
      words (llama3Expr (withFlags 10 { nonzero := true })) [9, 10] = [2]) ∧
    (splitCustom (withFlags 49 { isLetter := true, isNumber := true, nonzero := true }) .llama3
        (parts (cptsFromUtf8 [49, 97]) [2]) = [1, 1] ∧
      words (llama3Expr (withFlags 49 { isLetter := true, isNumber := true, nonzero := true })) [49, 97] = [2]) ∧
    (splitCustom (withFlags 39 { isNumber := true, nonzero := true }) .llama3
        (parts (cptsFromUtf8 [49, 49, 49, 39, 115]) [5]) = [3, 1, 1] ∧
      words (llama3Expr (withFlags 39 { isNumber := true, nonzero := true })) [49, 49, 49, 39, 115] = [3, 2]) ∧
    (splitCustom (withFlags 1 {}) .gpt2 (parts (cptsFromUtf8 [1, 1]) [2]) = [1, 1] ∧
      words (gpt2Expr (withFlags 1 {})) [1, 1] = [2]) ∧
    (splitCustom (withFlags 1 {}) .llama3 (parts (cptsFromUtf8 [1, 1]) [2]) = [1, 1] ∧
      words (llama3Expr (withFlags 1 {})) [1, 1] = [2]) := by
  decide

end Mallana.Tokenizer
