import Mallana.Server.Streaming
import Mathlib.Data.List.GetD

/-!
# Stop strings

Where `process_token` finds a stop string. The search looks at the part of the text that was not sent, no further back
than the length of the stop string before the last piece. It is skipped for a piece that ends inside a character, so a
stop string that was complete before such a piece is looked for too late: `Caught` says that this does not happen.
-/

namespace Mallana.Server

open Mallana.Lib Mallana.Tokenizer List

def ValidUtf8 (text : Str) : Prop := ∃ cs, cptsToUtf8 cs = some text

lemma needed_tail : ∀ y < 64, bytesNeeded (UInt8.ofNat (0x80 + y)) = 0 := by decide

lemma needed_one : ∀ y < 128, bytesNeeded (UInt8.ofNat y) = 0 := by decide

lemma needed_two : ∀ y < 32, bytesNeeded (UInt8.ofNat (0xc0 + y)) = 2 := by decide

lemma needed_three : ∀ y < 16, bytesNeeded (UInt8.ofNat (0xe0 + y)) = 3 := by decide

lemma needed_four : ∀ y < 8, bytesNeeded (UInt8.ofNat (0xf0 + y)) = 4 := by decide

/-- The bytes of a character: the first one tells how many there are, and the others begin none. -/
structure CharBytes (b : UInt8) (tl : Str) : Prop where
  tail : ∀ x ∈ tl, bytesNeeded x = 0
  needed : tl ≠ [] → bytesNeeded b = tl.length + 1
  single : tl = [] → bytesNeeded b = 0
  length_le : tl.length ≤ 3

lemma charBytes {c : UInt32} {bytes : Str} (h : cptToUtf8 c = some bytes) :
    ∃ b tl, bytes = b :: tl ∧ CharBytes b tl := by
  obtain ⟨b, tl, rfl, hlead, htail⟩ := cptToUtf8_lead h
  have htail' : ∀ x ∈ tl, bytesNeeded x = 0 := by
    intro x hx
    obtain ⟨y, hy, rfl⟩ := htail x hx
    exact needed_tail y hy
  refine ⟨b, tl, rfl, ?_⟩
  generalize hk : tl.length = k at hlead
  cases hlead with
  | one hy =>
    have hnil := eq_nil_of_length_eq_zero hk
    exact ⟨htail', fun hne => absurd hnil hne, fun _ => needed_one _ hy, by omega⟩
  | two hy => exact ⟨htail', fun _ => by rw [needed_two _ hy, hk], fun h0 => by simp [h0] at hk, by omega⟩
  | three hy => exact ⟨htail', fun _ => by rw [needed_three _ hy, hk], fun h0 => by simp [h0] at hk, by omega⟩
  | four hy => exact ⟨htail', fun _ => by rw [needed_four _ hy, hk], fun h0 => by simp [h0] at hk, by omega⟩

/-- Every character of a text has the bytes that its first byte asks for. -/
def Closed (text : Str) : Prop :=
  ∀ i, 0 < i → i ≤ text.length → bytesNeeded (text.getD (text.length - i) 0) ≤ i

lemma Closed.append {text tl : Str} {b : UInt8} (h : Closed text) (hc : CharBytes b tl) : Closed (text ++ b :: tl) := by
  intro i hi hle
  rw [length_append, length_cons] at hle ⊢
  rcases lt_or_ge (tl.length + 1) i with hlt | hge
  · have hat : text.length + (tl.length + 1) - i = text.length - (i - (tl.length + 1)) := by omega
    rw [hat, getD_append _ _ _ _ (by omega)]
    exact le_trans (h (i - (tl.length + 1)) (by omega) (by omega)) (Nat.sub_le _ _)
  · rw [getD_append_right _ _ _ _ (by omega)]
    have hat : text.length + (tl.length + 1) - i - text.length = tl.length + 1 - i := by omega
    rw [hat]
    cases hsplit : tl.length + 1 - i with
    | zero =>
      have hi' : i = tl.length + 1 := by omega
      rw [getD_cons_zero]
      cases tl with
      | nil =>
        rw [hc.single rfl]
        exact Nat.zero_le _
      | cons x tl =>
        rw [hc.needed (cons_ne_nil _ _), hi']
    | succ n =>
      have hn : n < tl.length := by omega
      rw [getD_cons_succ, getD_eq_getElem _ _ hn, hc.tail _ (getElem_mem hn)]
      exact Nat.zero_le _

lemma pos_of_mem_four : ∀ i ∈ [1, 2, 3, 4], 0 < i := by decide

lemma Closed.complete {text : Str} (h : Closed text) : incomplete text = false := by
  have hfind : [1, 2, 3, 4].find? (fun i => i ≤ text.length && i < bytesNeeded (text.getD (text.length - i) 0)) =
      none := by
    rw [find?_eq_none]
    intro i hi hbad
    rw [Bool.and_eq_true] at hbad
    exact Nat.not_lt_of_le (h i (pos_of_mem_four i hi) (of_decide_eq_true hbad.1)) (of_decide_eq_true hbad.2)
  rw [incomplete, validateUtf8, hfind]
  exact decide_eq_false (lt_irrefl _)

lemma closed_of_encode {cs : List UInt32} {text front : Str} (h : cptsToUtf8 cs = some text) (hf : Closed front) :
    Closed (front ++ text) := by
  induction cs generalizing text front with
  | nil =>
    obtain rfl : [] = text := Option.some.inj h
    rw [append_nil]
    exact hf
  | cons c cs ih =>
    obtain ⟨head, tail, hhead, htail, rfl⟩ := cptsToUtf8_cons h
    obtain ⟨b, tl, rfl, hc⟩ := charBytes hhead
    rw [← append_assoc]
    exact ih htail (hf.append hc)

lemma ValidUtf8.closed {text : Str} (h : ValidUtf8 text) : Closed text := by
  obtain ⟨cs, hcs⟩ := h
  have hnil : Closed [] := fun i hi hle => absurd hi (Nat.not_lt_of_le hle)
  exact closed_of_encode hcs hnil

lemma incomplete_of_cut {front part rest : Str} {b : UInt8} {tl : Str} (hc : CharBytes b tl)
    (hbytes : part ++ rest = b :: tl) (hp : part ≠ []) (hr : rest ≠ []) : incomplete (front ++ part) = true := by
  obtain ⟨x, part, rfl⟩ := exists_cons_of_ne_nil hp
  obtain ⟨rfl, htl⟩ := List.cons.inj hbytes
  have hlen : part.length + rest.length = tl.length := length_append.symm.trans (congrArg List.length htl)
  have hrest := length_pos_of_ne_nil hr
  have hthree := hc.length_le
  have hneeded := hc.needed (ne_nil_of_length_pos (by omega))
  have hcut : (fun i => decide (i ≤ (front ++ x :: part).length) &&
      decide (i < bytesNeeded ((front ++ x :: part).getD ((front ++ x :: part).length - i) 0))) (part.length + 1) =
        true := by
    simp only [length_append, length_cons]
    have hat : front.length + (part.length + 1) - (part.length + 1) = front.length := by omega
    rw [hat, getD_append_right _ _ _ _ (Nat.le_refl _), Nat.sub_self, getD_cons_zero, hneeded, Bool.and_eq_true]
    exact ⟨decide_eq_true (by omega), decide_eq_true (by omega)⟩
  have hmem : part.length + 1 ∈ [1, 2, 3, 4] := by
    have hlt : part.length < 3 := by omega
    revert hlt
    generalize part.length = n
    revert n
    decide
  rw [incomplete, validateUtf8]
  split
  · rename_i i hi
    have hpos := pos_of_mem_four i (mem_of_find?_eq_some hi)
    have hle := find?_some hi
    rw [Bool.and_eq_true] at hle
    have hle := of_decide_eq_true hle.1
    exact decide_eq_true (by omega)
  · rename_i hnone
    exact absurd hcut (find?_eq_none.1 hnone _ hmem)

lemma valid_or_cut {cs : List UInt32} {text acc : Str} (h : cptsToUtf8 cs = some text) (hacc : acc <+: text) :
    ValidUtf8 acc ∨ ∃ front part rest b tl, acc = front ++ part ∧ CharBytes b tl ∧ part ++ rest = b :: tl ∧
      part ≠ [] ∧ rest ≠ [] := by
  induction cs generalizing text acc with
  | nil =>
    obtain rfl : [] = text := Option.some.inj h
    rw [prefix_nil.1 hacc]
    exact .inl ⟨[], rfl⟩
  | cons c cs ih =>
    obtain ⟨head, tail, hhead, htail, rfl⟩ := cptsToUtf8_cons h
    obtain ⟨rest, hrest⟩ := hacc
    rcases append_eq_append_iff.1 hrest with ⟨part, rfl, _⟩ | ⟨acc, rfl, rfl⟩
    · -- the text ends in the first character
      obtain ⟨b, tl, hbytes, hc⟩ := charBytes hhead
      cases acc with
      | nil => exact .inl ⟨[], rfl⟩
      | cons x acc =>
        cases part with
        | nil =>
          rw [append_nil] at hhead
          have hone := @cptsToUtf8_cons_some c [] _ [] hhead rfl
          rw [append_nil] at hone
          exact .inl ⟨[c], hone⟩
        | cons y part =>
          exact .inr ⟨[], _, _, b, tl, rfl, hc, hbytes, cons_ne_nil _ _, cons_ne_nil _ _⟩
    · rcases ih htail (prefix_append acc rest) with ⟨ds, hds⟩ | ⟨front, part, more, b, tl, rfl, hc⟩
      · exact .inl ⟨c :: ds, cptsToUtf8_cons_some hhead hds⟩
      · exact .inr ⟨head ++ front, part, more, b, tl, (append_assoc _ _ _).symm, hc⟩

lemma incomplete_eq_false_iff {text acc : Str} (h : ValidUtf8 text) (hacc : acc <+: text) :
    incomplete acc = false ↔ ValidUtf8 acc := by
  constructor
  · intro hcomplete
    obtain ⟨cs, hcs⟩ := h
    rcases valid_or_cut hcs hacc with hvalid | ⟨front, part, rest, b, tl, rfl, hc, hbytes, hp, hr⟩
    · exact hvalid
    · rw [incomplete_of_cut hc hbytes hp hr] at hcomplete
      cases hcomplete
  · intro hvalid
    exact hvalid.closed.complete

lemma betterStop_cases (best : Option (Nat × Str)) (v : Str) (pos : Option Nat) :
    (∃ q, pos = some q ∧ betterStop best v pos = some (q, v) ∧ ∀ b, best = some b → q < b.1) ∨
      (betterStop best v pos = best ∧ ∀ q, pos = some q → ∃ b, best = some b ∧ b.1 ≤ q) := by
  cases pos with
  | none => exact .inr ⟨rfl, fun q hq => (by cases hq)⟩
  | some q =>
    cases best with
    | none => exact .inl ⟨q, rfl, rfl, fun b hb => (by cases hb)⟩
    | some b =>
      by_cases hlt : q < b.1
      · refine .inl ⟨q, rfl, ?_, ?_⟩
        · rw [betterStop]
          exact if_pos (decide_eq_true hlt)
        · intro b' hb
          cases hb
          exact hlt
      · refine .inr ⟨?_, ?_⟩
        · rw [betterStop]
          exact if_neg (Bool.not_eq_true _ ▸ decide_eq_false hlt)
        · intro q' hq
          cases hq
          exact ⟨b, rfl, Nat.le_of_not_lt hlt⟩

lemma findStoppingStrings_some {ws : List Str} {text : Str} {n q : Nat} {full : Bool} {w : Str}
    (h : findStoppingStrings ws text n full = some (q, w)) : w ∈ ws ∧ stopPosOf text n full w = some q := by
  induction ws using List.reverseRecOn with
  | nil => cases h
  | append_singleton ws v ih =>
    rw [findStoppingStrings_append] at h
    rcases betterStop_cases (findStoppingStrings ws text n full) v (stopPosOf text n full v) with
      ⟨p, hp, hbest, _⟩ | ⟨hbest, _⟩
    · rw [hbest] at h
      cases h
      exact ⟨mem_append_right _ mem_cons_self, hp⟩
    · rw [hbest] at h
      obtain ⟨hmem, hpos⟩ := ih h
      exact ⟨mem_append_left _ hmem, hpos⟩

lemma exists_findStoppingStrings {ws : List Str} {text : Str} (n : Nat) (full : Bool) {p : Nat} {w : Str} (hw : w ∈ ws)
    (h : stopPosOf text n full w = some p) : ∃ f, findStoppingStrings ws text n full = some f ∧ f.1 ≤ p := by
  induction ws using List.reverseRecOn with
  | nil => exact (not_mem_nil hw).elim
  | append_singleton ws v ih =>
    rw [findStoppingStrings_append]
    rcases betterStop_cases (findStoppingStrings ws text n full) v (stopPosOf text n full v) with
      ⟨q, hq, hbest, hless⟩ | ⟨hbest, hleast⟩
    · refine ⟨(q, v), hbest, ?_⟩
      rcases mem_append.1 hw with hw | hw
      · obtain ⟨f, hf, hle⟩ := ih hw
        exact le_trans (le_of_lt (hless f hf)) hle
      · rw [mem_singleton.1 hw, hq] at h
        exact le_of_eq (Option.some.inj h)
    · rw [hbest]
      rcases mem_append.1 hw with hw | hw
      · exact ih hw
      · rw [mem_singleton.1 hw] at h
        exact hleast p h

def accumulated (rs : List Sampled) : Str := (rs.map (·.piece)).flatten

variable {p : GenParams} {s : GenSlot} {r : Sampled} {q : Nat}

/-- The earliest stop string in a text that ends with a character does not end before the last piece, so the search sees
it; and the lines that remain are indented as demanded. -/
def Caught (p : GenParams) (s : GenSlot) (r : Sampled) : Prop :=
  ValidUtf8 (s.generatedText ++ r.piece) → ∀ q, FirstOf p.antiprompt (s.generatedText ++ r.piece) q →
    (∃ w ∈ p.antiprompt, OccursAt w (s.generatedText ++ r.piece) q ∧ s.generatedText.length ≤ q + w.length) ∧
      indentCut p { s with generatedText := (s.generatedText ++ r.piece).take q } = none

/-- A slot that goes on: what was sent is a beginning of the text, and no stop string begins in it. -/
structure Searching (p : GenParams) (s : GenSlot) : Prop where
  sent : Sent s
  diverge : ∀ i < s.nSentText, ∀ w ∈ p.antiprompt, Diverge w (s.sentText.drop i)

lemma Searching.diverge_text (h : Searching p s) {i : Nat} (hi : i < s.nSentText) {w : Str} (hw : w ∈ p.antiprompt)
    (t : Str) : Diverge w ((s.generatedText ++ t).drop i) := by
  have hfront : s.sentText <+: s.generatedText ++ t := by
    rw [h.sent.eq]
    exact (List.take_prefix _ _).trans (prefix_append _ _)
  exact (h.diverge i hi w hw).mono (hfront.drop i)

lemma Searching.not_isInfix (h : Searching p s) (hne : ∀ w ∈ p.antiprompt, w ≠ []) :
    ∀ w ∈ p.antiprompt, ¬ w <:+: s.sentText := by
  intro w hw hin
  obtain ⟨i, hi⟩ := exists_occursAt hin
  have hlen := hi.length_le (hne w hw)
  rw [h.sent.eq, length_take] at hlen
  have hpos := length_pos_of_ne_nil (hne w hw)
  exact (h.diverge i (by omega) w hw).1 hi

lemma Searching.le_of_occursAt (h : Searching p s) {w : Str} (hw : w ∈ p.antiprompt)
    (hocc : OccursAt w (s.generatedText ++ r.piece) q) : s.nSentText ≤ q := by
  apply Nat.le_of_not_lt
  intro hlt
  exact (h.diverge_text hlt hw r.piece).1 hocc

lemma unsent_length (h : Sent s) (r : Sampled) :
    (unsent s r).length = s.generatedText.length - s.nSentText + r.piece.length := by
  have hle := h.le
  rw [unsent, length_drop, length_append]
  omega

lemma occursAt_of_foundStop {f : Nat × Str} (hf : foundStop p s r = some f) :
    f.2 ∈ p.antiprompt ∧ OccursAt f.2 (s.generatedText ++ r.piece) (s.nSentText + f.1) := by
  obtain ⟨hmem, hpos⟩ := findStoppingStrings_some hf
  exact ⟨hmem, occursAt_drop (findFrom_some hpos).2⟩

lemma foundStop_of_firstOf (h : Searching p s) (hne : ∀ w ∈ p.antiprompt, w ≠ [])
    (hq : FirstOf p.antiprompt (s.generatedText ++ r.piece) q) {w : Str} (hw : w ∈ p.antiprompt)
    (hocc : OccursAt w (s.generatedText ++ r.piece) q) (hend : s.generatedText.length ≤ q + w.length) :
    ∃ v, foundStop p s r = some (q - s.nSentText, v) := by
  have hsent := @Searching.le_of_occursAt p s r q h w hw hocc
  have hlen := unsent_length h.sent r
  have hle := h.sent.le
  obtain ⟨i, hi, hleq⟩ := @exists_findFrom _ w (unsent s r) (q - s.nSentText)
    ((unsent s r).length - (w.length + r.piece.length)) _ (hne w hw) (by omega) (hocc.drop hsent)
  obtain ⟨f, hf, hfle⟩ := exists_findStoppingStrings r.piece.length true hw hi
  obtain ⟨hmem, hfocc⟩ := occursAt_of_foundStop hf
  have hmin := hq.2 f.2 hmem _ hfocc
  refine ⟨f.2, hf.trans ?_⟩
  have heq : f.1 = q - s.nSentText := by omega
  rw [← heq]

lemma foundStop_none (hno : ∀ w ∈ p.antiprompt, ¬ w <:+: s.generatedText ++ r.piece) : foundStop p s r = none := by
  cases hf : foundStop p s r with
  | none => rfl
  | some f =>
    obtain ⟨hmem, hocc⟩ := occursAt_of_foundStop hf
    exact absurd hocc.isInfix (hno f.2 hmem)

lemma diverge_of_sent (h : Searching p s) (hno : ∀ w ∈ p.antiprompt, ¬ w <:+: s.generatedText ++ r.piece)
    (hheld : holds p s r = false) (heog : p.isEog r.tok = false) {i : Nat}
    (hi : i < (s.generatedText ++ r.piece).length) {w : Str} (hw : w ∈ p.antiprompt) :
    Diverge w ((s.generatedText ++ r.piece).drop i) := by
  rcases lt_or_ge i s.nSentText with hlt | hge
  · exact h.diverge_text hlt hw r.piece
  have hcut : findCut (unsent s r) w (min (unsent s r).length w.length) = none := by
    cases hc : findCut (unsent s r) w (min (unsent s r).length w.length) with
    | none => rfl
    | some c =>
      obtain ⟨f, hf, _⟩ := exists_findStoppingStrings r.piece.length false hw hc
      rw [holds, heog, hf] at hheld
      cases hheld
  have hnone : ¬ OccursAt w (unsent s r) (i - s.nSentText) := by
    intro hocc
    exact hno w hw (occursAt_drop hocc).isInfix
  have hlen : i - s.nSentText < (unsent s r).length := by
    rw [unsent, length_drop]
    omega
  have hdiv := diverge_drop hnone hlen hcut
  rw [unsent, drop_drop, Nat.add_sub_cancel' hge] at hdiv
  exact hdiv

lemma sentText_processToken (p : GenParams) (s : GenSlot) (r : Sampled) :
    (processToken p s r).1.sentText = (searched p s r).1.sentText ∧
      (processToken p s r).1.nSentText = (searched p s r).1.nSentText :=
  ⟨(checkStops_sent ..).2, (checkStops_sent ..).1⟩

lemma searching_of_not_sent (h : Searching p s) (hkeep : (searched p s r).1.generatedText = s.generatedText ++ r.piece)
    (hsent : (searched p s r).1.sentText = s.sentText) (hn : (searched p s r).1.nSentText = s.nSentText)
    (hgoing : (processToken p s r).1.hasNextToken = true) :
    Searching p (processToken p s r).1 ∧ (processToken p s r).1.generatedText = s.generatedText ++ r.piece := by
  obtain ⟨hs, hn'⟩ := sentText_processToken p s r
  have htext : (processToken p s r).1.generatedText = (searched p s r).1.generatedText := (checkStops_goes_on hgoing).1
  have hkeeps := @searched_keeps p s r h.sent
  refine ⟨⟨⟨?_, ?_⟩, ?_⟩, htext.trans hkeep⟩
  · rw [hn', htext]
    exact hkeeps.le
  · rw [hs, hn', htext]
    exact hkeeps.eq
  · rw [hn', hn, hs, hsent]
    exact h.diverge

/-- What a token does to a slot that goes on. -/
structure TokenStep (p : GenParams) (s : GenSlot) (r : Sampled) (s' : GenSlot) : Prop where
  clean : ∀ w ∈ p.antiprompt, ¬ w <:+: s'.sentText
  going : s'.hasNextToken = true → Searching p s' ∧ s'.generatedText = s.generatedText ++ r.piece
  stopped : ValidUtf8 (s.generatedText ++ r.piece) → ∀ q, FirstOf p.antiprompt (s.generatedText ++ r.piece) q →
    s'.hasNextToken = false ∧ s'.generatedText = (s.generatedText ++ r.piece).take q

section
variable (h : Searching p s) (hne : ∀ w ∈ p.antiprompt, w ≠ [])
include h hne

lemma tokenStep_incomplete (hc : incomplete (s.generatedText ++ r.piece) = true)
    (hvalid : ¬ ValidUtf8 (s.generatedText ++ r.piece)) : TokenStep p s r (processToken p s r).1 := by
  have hs := (sentText_processToken p s r).1
  have heq : searched p s r = (appendToken p s r, r.piece) := searched_incomplete hc
  refine ⟨?_, searching_of_not_sent h (by rw [heq]; rfl) (by rw [heq]; rfl) (by rw [heq]; rfl), fun hv => absurd hv hvalid⟩
  rw [hs, heq]
  exact h.not_isInfix hne

lemma tokenStep_found (hc : incomplete (s.generatedText ++ r.piece) = false)
    (hq : FirstOf p.antiprompt (s.generatedText ++ r.piece) q) {w : Str} (hw : w ∈ p.antiprompt)
    (hocc : OccursAt w (s.generatedText ++ r.piece) q) (hend : s.generatedText.length ≤ q + w.length)
    (hindent : indentCut p { s with generatedText := (s.generatedText ++ r.piece).take q } = none) :
    TokenStep p s r (processToken p s r).1 := by
  obtain ⟨v, hf⟩ := foundStop_of_firstOf h hne hq hw hocc hend
  have hle := @Searching.le_of_occursAt p s r q h w hw hocc
  have heq := searched_found h.sent.le hc hf
  rw [Nat.add_sub_cancel' hle] at heq
  have hslot : (searched p s r).1.generatedText = (s.generatedText ++ r.piece).take q := by
    rw [heq]
    rfl
  have hindent' : indentCut p (checkLimits p (searched p s r).1 r) = none := by
    obtain ⟨hline, hpos⟩ := checkLimits_line p (searched p s r).1 r
    refine (indentCut_congr ?_ ?_ ?_).trans hindent
    · rw [hline, heq]
      rfl
    · rw [hpos, heq]
      rfl
    · rw [(checkLimits_text ..).1, hslot]
  have hcut : (searched p s r).1.hasNextToken = false := by
    rw [heq]
    rfl
  have hstop : (processToken p s r).1.hasNextToken = false := checkStops_stopped hcut
  have htext : (processToken p s r).1.generatedText = (s.generatedText ++ r.piece).take q :=
    (checkStops_text hindent').trans hslot
  have hsent : (processToken p s r).1.sentText = (s.generatedText ++ r.piece).take q := by
    have happ := cutText_sent (@appendToken_sent p s r h.sent) (q - s.nSentText) v
    have hnsent : (appendToken p s r).nSentText + (q - s.nSentText) = q := Nat.add_sub_cancel' hle
    rw [hnsent] at happ
    rw [(sentText_processToken p s r).1, heq]
    exact (sendText_sent happ r.tok).2
  refine ⟨?_, ?_, ?_⟩
  · intro u hu
    rw [hsent]
    exact hq.not_isInfix_take hne hu
  · intro hgoing
    rw [hstop] at hgoing
    cases hgoing
  · intro _ q' hq'
    rw [hq'.unique hq]
    exact ⟨hstop, htext⟩

lemma tokenStep_none (hc : incomplete (s.generatedText ++ r.piece) = false)
    (hno : ∀ w ∈ p.antiprompt, ¬ w <:+: s.generatedText ++ r.piece) : TokenStep p s r (processToken p s r).1 := by
  have hf := foundStop_none hno
  have hs := (sentText_processToken p s r).1
  have hstopped : ValidUtf8 (s.generatedText ++ r.piece) → ∀ q, FirstOf p.antiprompt (s.generatedText ++ r.piece) q →
      (processToken p s r).1.hasNextToken = false ∧
        (processToken p s r).1.generatedText = (s.generatedText ++ r.piece).take q := by
    intro _ q hq
    obtain ⟨⟨w, hw, hocc⟩, _⟩ := hq
    exact absurd hocc.isInfix (hno w hw)
  cases hh : holds p s r with
  | true =>
    have heq := searched_held h.sent.le hc hf hh
    have hheld : (searched p s r).1.sentText = s.sentText := by
      rw [heq]
      exact holdText_sentText _ _
    refine ⟨?_, searching_of_not_sent h (by rw [heq]; rfl) hheld (by rw [heq]; rfl), hstopped⟩
    rw [hs, hheld]
    exact h.not_isInfix hne
  | false =>
    have heq := searched_sent h.sent.le hc hf hh
    obtain ⟨hkeeps, hall⟩ := sendText_sent (@appendToken_sent p s r h.sent) r.tok
    have hall : (searched p s r).1.sentText = s.generatedText ++ r.piece := by
      rw [heq]
      exact hall
    refine ⟨?_, ?_, hstopped⟩
    · rw [hs, hall]
      exact hno
    · intro hgoing
      obtain ⟨htext, _, heog⟩ := checkStops_goes_on hgoing
      have hwhole : (searched p s r).1.generatedText = s.generatedText ++ r.piece := by
        rw [heq]
        rfl
      have htext : (processToken p s r).1.generatedText = s.generatedText ++ r.piece := htext.trans hwhole
      have hn : (processToken p s r).1.nSentText = (s.generatedText ++ r.piece).length := by
        rw [(sentText_processToken p s r).2, heq]
        exact (sendText_spec (appendToken_sent h.sent).le r.tok (appendToken_sent h.sent).eq).1
      refine ⟨⟨⟨?_, ?_⟩, ?_⟩, htext⟩
      · rw [hn, htext]
      · rw [hs, hall, hn, htext, take_length]
      · intro i hi w hw
        rw [hn] at hi
        rw [hs, hall]
        exact diverge_of_sent h hno hh heog hi hw

end

lemma tokenStep (h : Searching p s) (hne : ∀ w ∈ p.antiprompt, w ≠ [])
    (hvalid : incomplete (s.generatedText ++ r.piece) = false ↔ ValidUtf8 (s.generatedText ++ r.piece))
    (hcaught : Caught p s r) : TokenStep p s r (processToken p s r).1 := by
  cases hc : incomplete (s.generatedText ++ r.piece) with
  | true =>
    apply tokenStep_incomplete h hne hc
    intro hv
    rw [hvalid.2 hv] at hc
    cases hc
  | false =>
    by_cases hin : ∃ w ∈ p.antiprompt, w <:+: s.generatedText ++ r.piece
    · obtain ⟨q, hq⟩ := exists_firstOf hin
      obtain ⟨⟨w, hw, hocc, hend⟩, hindent⟩ := hcaught (hvalid.1 hc) q hq
      exact tokenStep_found h hne hc hq hw hocc hend hindent
    · apply tokenStep_none h hne hc
      intro w hw hsub
      exact hin ⟨w, hw, hsub⟩

lemma accumulated_append (rs : List Sampled) (r : Sampled) : accumulated (rs ++ [r]) = accumulated rs ++ r.piece := by
  simp only [accumulated, map_append, flatten_append, map_cons, map_nil, flatten_cons, flatten_nil, append_nil]

lemma accumulated_mono {ps rs : List Sampled} (h : ps <+: rs) : accumulated ps <+: accumulated rs := by
  obtain ⟨rest, rfl⟩ := h
  rw [accumulated, accumulated, map_append, flatten_append]
  exact prefix_append _ _

lemma generate_append_stopped {rs : List Sampled} (h : (generate p s rs).1.hasNextToken = false) (hs : s.hasNextToken = true)
    (r : Sampled) : (generate p s (rs ++ [r])).1 = (generate p s rs).1 := by
  induction rs generalizing s with
  | nil =>
    rw [generate, hs] at h
    cases h
  | cons x rs ih =>
    simp only [generate, cons_append] at h ⊢
    split
    · rename_i hnext
      simp only [hnext, if_true] at h
      exact ih h hnext
    · rfl

/-- What holds of the slot behind every beginning of the tokens. -/
structure Stopping (p : GenParams) (ps : List Sampled) : Prop where
  clean : ∀ w ∈ p.antiprompt, ¬ w <:+: (slotAfter p ps).sentText
  going : (slotAfter p ps).hasNextToken = true →
    Searching p (slotAfter p ps) ∧ (slotAfter p ps).generatedText = accumulated ps
  stopped : ValidUtf8 (accumulated ps) → (∃ w ∈ p.antiprompt, w <:+: accumulated ps) →
    (slotAfter p ps).hasNextToken = false
  cut : ∀ init r q, ps = init ++ [r] → (slotAfter p init).hasNextToken = true → ValidUtf8 (accumulated ps) →
    FirstOf p.antiprompt (accumulated ps) q → (slotAfter p ps).generatedText = (accumulated ps).take q

/-- Up to the stop string nothing of it is sent. -/
lemma stopping {rs : List Sampled} (hne : ∀ w ∈ p.antiprompt, w ≠ []) (hvalid : ValidUtf8 (accumulated rs))
    (hcaught : ∀ ps r, ps ++ [r] <+: rs → (slotAfter p ps).hasNextToken = true → Caught p (slotAfter p ps) r)
    (ps : List Sampled) (hps : ps <+: rs) : Stopping p ps := by
  induction ps using List.reverseRecOn with
  | nil =>
    have hnil : ∀ w ∈ p.antiprompt, ¬ w <:+: ([] : Str) := by
      intro w hw hin
      exact hne w hw (infix_nil.1 hin)
    refine ⟨hnil, fun _ => ⟨⟨reset_sent, fun i hi => absurd hi (Nat.not_lt_zero _)⟩, rfl⟩, ?_, ?_⟩
    · rintro _ ⟨w, hw, hin⟩
      exact absurd hin (hnil w hw)
    · intro init r q hinit
      exact absurd hinit.symm (append_ne_nil_of_right_ne_nil _ (cons_ne_nil _ _))
  | append_singleton init r ih =>
    have before := ih ((prefix_append init [r]).trans hps)
    cases hgoing : (slotAfter p init).hasNextToken with
    | true =>
      obtain ⟨hsearch, htext⟩ := before.going hgoing
      have hacc : accumulated (init ++ [r]) = (slotAfter p init).generatedText ++ r.piece := by
        rw [accumulated_append, htext]
      have hslot : slotAfter p (init ++ [r]) = (processToken p (slotAfter p init) r).1 := generate_append hgoing r
      have hutf8 := incomplete_eq_false_iff hvalid (accumulated_mono hps)
      rw [hacc] at hutf8
      have step := tokenStep hsearch hne hutf8 (hcaught init r hps hgoing)
      refine ⟨?_, ?_, ?_, ?_⟩
      · rw [hslot]
        exact step.clean
      · rw [hslot, hacc]
        exact step.going
      · rw [hslot, hacc]
        intro hv hin
        obtain ⟨q, hq⟩ := exists_firstOf hin
        exact (step.stopped hv q hq).1
      · rw [hslot, hacc]
        intro _ _ q _ _ hv hq
        exact (step.stopped hv q hq).2
    | false =>
      have hslot : slotAfter p (init ++ [r]) = slotAfter p init := generate_append_stopped hgoing rfl r
      refine ⟨?_, ?_, ?_, ?_⟩
      · rw [hslot]
        exact before.clean
      · intro hnext
        rw [hslot, hgoing] at hnext
        cases hnext
      · intro _ _
        rw [hslot]
        exact hgoing
      · intro init' r' q hinit hgoing'
        rw [(append_inj' hinit rfl).1, hgoing'] at hgoing
        cases hgoing

/-- At every token of a request: no stop string was handed out, a text that ends with a character and has a stop string
has ended the generation, and the text of the slot is then the text up to the earliest stop string. -/
def StopsClean (p : GenParams) (rs : List Sampled) : Prop :=
  ∀ ps, ps <+: rs → (∀ w ∈ p.antiprompt, ¬ w <:+: (slotAfter p ps).sentText) ∧
    (ValidUtf8 (accumulated ps) → (∃ w ∈ p.antiprompt, w <:+: accumulated ps) →
      (slotAfter p ps).hasNextToken = false) ∧
    ∀ init r q, ps = init ++ [r] → (slotAfter p init).hasNextToken = true → ValidUtf8 (accumulated ps) →
      FirstOf p.antiprompt (accumulated ps) q → (slotAfter p ps).generatedText = (accumulated ps).take q

/-- A request whose steps all catch their stop strings stops clean. -/
theorem stopsClean_of_caught (p : GenParams) (rs : List Sampled) (hne : ∀ w ∈ p.antiprompt, w ≠ [])
    (hvalid : ValidUtf8 (accumulated rs))
    (hcaught : ∀ ps r, ps ++ [r] <+: rs → (slotAfter p ps).hasNextToken = true → Caught p (slotAfter p ps) r) :
    StopsClean p rs := by
  intro ps hps
  have h := stopping hne hvalid hcaught ps hps
  exact ⟨h.clean, h.stopped, h.cut⟩

/-- The first of two tokens ends with a stop string and one byte of a character, the second brings the other byte. -/
def splitCharacter : List Sampled := [⟨7, [97, 98, 0xc3], 1, 1, false⟩, ⟨8, [0xa9], 2, 2, false⟩]

/-- A request without a limit with the stop string `ab`. -/
def limitless : GenParams := { oneToken with nPredict := -1 }

/-- The search is skipped for the first token and looks at the last three bytes at the second one: `ab` is sent and the
generation goes on. -/
theorem not_stopsClean : (∀ w ∈ limitless.antiprompt, w ≠ []) ∧ ValidUtf8 (accumulated splitCharacter) ∧
      (slotAfter limitless splitCharacter).sentText = [97, 98, 0xc3, 0xa9] ∧
      (slotAfter limitless splitCharacter).hasNextToken = true ∧ ¬ StopsClean limitless splitCharacter := by
  have hsent : (slotAfter limitless splitCharacter).sentText = [97, 98, 0xc3, 0xa9] := by decide
  refine ⟨by decide, ⟨[97, 98, 0xe9], by decide⟩, hsent, by decide, ?_⟩
  intro h
  have hclean := (h splitCharacter prefix_rfl).1 [97, 98] mem_cons_self
  rw [hsent] at hclean
  exact hclean (by decide)

theorem stopsClean_of_caught_twoTokens : StopsClean limitless [firstToken [97], firstToken [98]] := by
  apply stopsClean_of_caught limitless _ (by decide) ⟨[97, 98], by decide⟩
  rintro ps r hps _ _ q ⟨⟨w, hw, hocc⟩, -⟩
  obtain rfl := mem_singleton.1 hw
  refine ⟨⟨_, hw, hocc, ?_⟩, indentCut_of_nIndent (by decide)⟩
  match ps with
  | [] => exact Nat.zero_le _
  | [a] =>
    obtain rfl := (cons_prefix_cons.1 hps).1
    exact Nat.le_add_left 1 _
  | _ :: _ :: _ => exact absurd hps.length_le (by simp)

end Mallana.Server
