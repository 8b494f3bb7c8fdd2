import Mallana.Server.Generate

/-!
# Streaming

The partial responses of a streamed request, put together, against the final content of the same request without
streaming. What `process_token` holds back is sent by a later token only, so a limit that ends the generation while text
is held back loses it in the streamed request.
-/

namespace Mallana.Server

open Mallana.Lib Mallana.Tokenizer List

variable {p : GenParams} {s : GenSlot} {r : Sampled} {rs : List Sampled}

lemma appendToken_sent (h : Sent s) : Sent (appendToken p s r) := by
  constructor
  · exact le_trans h.le (by simp only [appendToken, length_append]; omega)
  · have htake : (s.generatedText ++ r.piece).take s.nSentText = s.generatedText.take s.nSentText :=
      take_append_of_le_length h.le
    calc (appendToken p s r).sentText
        = s.sentText := rfl
      _ = s.generatedText.take s.nSentText := h.eq
      _ = _ := htake.symm

lemma cutText_sent (h : Sent s) (q : Nat) (w : Str) : Sent (cutText s (s.nSentText + q) w) := by
  constructor
  · have hle := h.le
    simp only [cutText, length_take]
    omega
  · calc (cutText s (s.nSentText + q) w).sentText
        = s.sentText := rfl
      _ = s.generatedText.take s.nSentText := h.eq
      _ = _ := by simp only [cutText, take_take, min_eq_left (Nat.le_add_right _ _)]

lemma sendText_sent (h : Sent s) (tok : Int) :
    Sent (sendText s tok).1 ∧ (sendText s tok).1.sentText = (sendText s tok).1.generatedText := by
  obtain ⟨hn, ht⟩ := sendText_spec h.le tok h.eq
  have htext : (sendText s tok).1.generatedText = s.generatedText := rfl
  refine ⟨⟨?_, ?_⟩, ?_⟩
  · rw [hn, htext]
  · rw [hn, htext, ht, take_length]
  · rw [ht, htext]

lemma holdText_sentText (s : GenSlot) (tok : Int) : (holdText s tok).1.sentText = s.sentText :=
  (sentText_append s tok [] _ rfl).trans (append_nil _)

lemma holdText_sent (h : Sent s) (tok : Int) : Sent (holdText s tok).1 :=
  ⟨h.le, (holdText_sentText s tok).trans h.eq⟩

lemma searched_keeps (h : Sent s) : Sent (searched p s r).1 := by
  have happ := @appendToken_sent p s r h
  cases hc : incomplete (s.generatedText ++ r.piece) with
  | true =>
    rw [searched_incomplete hc]
    exact happ
  | false =>
    cases hf : foundStop p s r with
    | some f =>
      rw [searched_found h.le hc hf]
      exact (sendText_sent (cutText_sent happ f.1 f.2) r.tok).1
    | none =>
      cases hh : holds p s r with
      | true =>
        rw [searched_held h.le hc hf hh]
        exact holdText_sent happ r.tok
      | false =>
        rw [searched_sent h.le hc hf hh]
        exact (sendText_sent happ r.tok).1

lemma processToken_keeps (hi : p.nIndent ≤ 0) (h : Sent s) : Sent (processToken p s r).1 := by
  have hs := @searched_keeps p s r h
  obtain ⟨hn, ht⟩ := checkStops_sent p (searched p s r).2 (searched p s r).1 r
  have htext := @checkStops_text p (searched p s r).1 r (searched p s r).2 (indentCut_of_nIndent hi)
  constructor
  · exact (hn.trans_le hs.le).trans_eq (congrArg List.length htext).symm
  · exact ht.trans (hs.eq.trans (by simp only [processToken, hn, htext]))

lemma generate_keeps (hi : p.nIndent ≤ 0) (h : Sent s) : Sent (generate p s rs).1 := by
  induction rs generalizing s with
  | nil => exact h
  | cons r rs ih =>
    have hstep := @processToken_keeps p s r hi h
    simp only [generate]
    split
    · exact ih hstep
    · exact hstep

lemma generate_stream (b : Bool) : (generate { p with stream := b } s rs).1 = (generate p s rs).1 := by
  induction rs generalizing s with
  | nil => rfl
  | cons r rs ih =>
    have hslot : (processToken { p with stream := b } s r).1 = (processToken p s r).1 := rfl
    simp only [generate, hslot]
    split
    · exact ih
    · rfl

lemma processToken_out (hs : p.stream = true) (hle : s.nSentText ≤ s.generatedText.length) :
    (processToken p s r).1.sentText = s.sentText ++ (processToken p s r).2.toList.flatten := by
  have hchecks := (checkStops_sent p (searched p s r).2 (searched p s r).1 r).2
  have hout : (processToken p s r).1.sentText = (searched p s r).1.sentText := hchecks
  cases hc : incomplete (s.generatedText ++ r.piece) with
  | true =>
    have hnone : (processToken p s r).2 = none := by
      simp only [processToken, hc, Bool.not_true, Bool.and_false, Bool.false_eq_true, if_false]
    rw [hout, hnone, searched_incomplete hc]
    exact (append_nil _).symm
  | false =>
    have hsome : (processToken p s r).2 = some (searched p s r).2 := by
      simp only [processToken, hc, hs, Bool.not_false, Bool.and_true, if_true]
    rw [hout, hsome]
    simp only [Option.toList_some, flatten_cons, flatten_nil, append_nil]
    cases hf : foundStop p s r with
    | some f =>
      rw [searched_found hle hc hf]
      exact sentText_append s r.tok _ _ rfl
    | none =>
      cases hh : holds p s r with
      | true =>
        rw [searched_held hle hc hf hh]
        exact sentText_append s r.tok _ _ rfl
      | false =>
        rw [searched_sent hle hc hf hh]
        exact sentText_append s r.tok _ _ rfl

lemma generate_out (hs : p.stream = true) (hi : p.nIndent ≤ 0) (h : Sent s) :
    (generate p s rs).1.sentText = s.sentText ++ (generate p s rs).2.flatten := by
  induction rs generalizing s with
  | nil => exact (append_nil _).symm
  | cons r rs ih =>
    have hstep := @processToken_out p s r hs h.le
    simp only [generate]
    split
    · rw [ih (processToken_keeps hi h), hstep, flatten_append, append_assoc]
    · exact hstep

/-- The two texts are equal up to a last character that is cut off. -/
def SameText (streamed final : Str) : Prop := streamed = final ∨ streamed = final.take (validateUtf8 final)

instance (streamed final : Str) : Decidable (SameText streamed final) :=
  inferInstanceAs (Decidable (streamed = final ∨ streamed = final.take (validateUtf8 final)))

/-- A token leaves text behind that was not sent, more than the beginning of a character: a piece that ends inside a
character holds back everything, and the beginning of a stop string is held back too. -/
def Withheld (p : GenParams) (s : GenSlot) (r : Sampled) : Prop :=
  if incomplete (s.generatedText ++ r.piece) then
    s.nSentText ≠ (s.generatedText ++ r.piece).length ∧ s.nSentText ≠ validateUtf8 (s.generatedText ++ r.piece)
  else foundStop p s r = none ∧ holds p s r = true

lemma validateUtf8_le (text : Str) : validateUtf8 text ≤ text.length := by
  unfold validateUtf8
  split
  · exact Nat.sub_le _ _
  · exact le_refl _

lemma take_eq_take_iff {l : Str} {m n : Nat} (hm : m ≤ l.length) (hn : n ≤ l.length) : l.take m = l.take n ↔ m = n := by
  rw [List.take_eq_take_iff, min_eq_left hm, min_eq_left hn]

lemma unsent_ne_nil (h : holds p s r = true) : unsent s r ≠ [] := by
  intro hnil
  rw [holds, hnil, Bool.and_eq_true] at h
  have hnone : ∀ ws : List Str, findStoppingStrings ws [] r.piece.length false = none := by
    intro ws
    induction ws using List.reverseRecOn with
    | nil => rfl
    | append_singleton ws w ih =>
      rw [findStoppingStrings_append, ih]
      simp only [stopPosOf, findPartialStop, length_nil, Nat.zero_min, findCut]
      rfl
  rw [hnone] at h
  cases h.2

lemma processToken_sameText (hi : p.nIndent ≤ 0) (h : Sent s) :
    SameText (processToken p s r).1.sentText (processToken p s r).1.generatedText ↔ ¬ Withheld p s r := by
  have hsent : (processToken p s r).1.sentText = (searched p s r).1.sentText := (checkStops_sent ..).2
  have htext : (processToken p s r).1.generatedText = (searched p s r).1.generatedText :=
    checkStops_text (indentCut_of_nIndent hi)
  have happ := @appendToken_sent p s r h
  rw [hsent, htext]
  cases hc : incomplete (s.generatedText ++ r.piece) with
  | true =>
    rw [searched_incomplete hc, happ.eq, Withheld, if_pos hc]
    have hle : s.nSentText ≤ (s.generatedText ++ r.piece).length := happ.le
    have hval := validateUtf8_le (s.generatedText ++ r.piece)
    have hfull : (s.generatedText ++ r.piece).take s.nSentText = s.generatedText ++ r.piece ↔
        s.nSentText = (s.generatedText ++ r.piece).length := by
      constructor
      · intro heq
        exact le_antisymm hle (take_eq_self_iff _ |>.mp heq)
      · intro heq
        rw [heq, take_length]
    have hcut := take_eq_take_iff hle hval
    rw [SameText]
    exact (or_congr hfull hcut).trans (by rw [not_and_or, not_not, not_not])
  | false =>
    have hskip : ¬ incomplete (s.generatedText ++ r.piece) = true := by rw [hc]; exact Bool.false_ne_true
    rw [Withheld, if_neg hskip]
    cases hf : foundStop p s r with
    | some f =>
      rw [searched_found h.le hc hf]
      have hall := (sendText_sent (cutText_sent happ f.1 f.2) r.tok).2
      exact iff_of_true (.inl hall) fun hw => by cases hw.1
    | none =>
      cases hh : holds p s r with
      | true =>
        rw [searched_held h.le hc hf hh]
        refine iff_of_false ?_ (fun hw => hw ⟨rfl, rfl⟩)
        have hcomplete : validateUtf8 (s.generatedText ++ r.piece) = (s.generatedText ++ r.piece).length := by
          have hlt := of_decide_eq_false hc
          exact Nat.le_antisymm (validateUtf8_le _) (Nat.le_of_not_lt hlt)
        have hshort : s.nSentText < (s.generatedText ++ r.piece).length := by
          apply Nat.lt_of_not_le
          intro hle
          exact unsent_ne_nil hh (drop_eq_nil_of_le hle)
        have htake : (s.generatedText ++ r.piece).take s.nSentText ≠ s.generatedText ++ r.piece := by
          intro heq
          exact Nat.not_le_of_lt hshort (take_eq_self_iff _ |>.mp heq)
        have hs : (holdText (appendToken p s r) r.tok).1.sentText = (s.generatedText ++ r.piece).take s.nSentText :=
          (holdText_sentText _ _).trans happ.eq
        have ht : (holdText (appendToken p s r) r.tok).1.generatedText = s.generatedText ++ r.piece := rfl
        rw [SameText, hs, ht, hcomplete, take_length]
        rintro (heq | heq)
        · exact htake heq
        · exact htake heq
      | false =>
        rw [searched_sent h.le hc hf hh]
        have hall := (sendText_sent happ r.tok).2
        exact iff_of_true (.inl hall) fun hw => by cases hw.2

def streamedText (p : GenParams) (rs : List Sampled) : Str := (generate { p with stream := true } .reset rs).2.flatten

def finalText (p : GenParams) (rs : List Sampled) : Str :=
  finalContent { p with stream := false } (generate { p with stream := false } .reset rs).1

def slotAfter (p : GenParams) (rs : List Sampled) : GenSlot := (generate p .reset rs).1

lemma generate_append (h : (generate p s rs).1.hasNextToken = true) (r : Sampled) :
    (generate p s (rs ++ [r])).1 = (processToken p (generate p s rs).1 r).1 := by
  induction rs generalizing s with
  | nil =>
    simp only [nil_append, generate]
    split <;> rfl
  | cons x rs ih =>
    simp only [generate, cons_append] at h ⊢
    split at h
    · rename_i hnext
      simp only [hnext, if_true]
      exact ih h
    · rename_i hnext
      exact absurd h hnext

/-- A request for one token with the stop string `ab`. -/
def oneToken : GenParams where
  antiprompt := [[97, 98]]
  nPredict := 1
  nIndent := 0
  tMaxPredictMs := 0
  stream := false
  returnTokens := false
  ctxShift := false
  globalNPredict := -1
  nCtx := 4096
  isEog := fun _ => false

def firstToken (piece : Str) : Sampled := ⟨7, piece, 1, 1, false⟩

/-- A request that ends with the token `r` sends the same text in both modes exactly if that token leaves nothing
behind but the beginning of a character. -/
theorem streamed_eq_final_iff (p : GenParams) (hi : p.nIndent = 0) (rs : List Sampled) (r : Sampled)
    (hgoing : (slotAfter p rs).hasNextToken = true) (_hstop : (slotAfter p (rs ++ [r])).hasNextToken = false) :
    SameText (streamedText p (rs ++ [r])) (finalText p (rs ++ [r])) ↔ ¬ Withheld p (slotAfter p rs) r := by
  have hsent : Sent (slotAfter p rs) := generate_keeps (le_of_eq hi) reset_sent
  have hslot : slotAfter p (rs ++ [r]) = (processToken p (slotAfter p rs) r).1 := generate_append hgoing r
  have hout := @generate_out { p with stream := true } .reset (rs ++ [r]) rfl (le_of_eq hi) reset_sent
  have hstreamed : streamedText p (rs ++ [r]) = (slotAfter p (rs ++ [r])).sentText := by
    rw [generate_stream] at hout
    exact hout.symm
  have hfinal : finalText p (rs ++ [r]) = (slotAfter p (rs ++ [r])).generatedText :=
    congrArg GenSlot.generatedText (generate_stream false)
  rw [hstreamed, hfinal, hslot]
  exact processToken_sameText (le_of_eq hi) hsent

/-- The only token of the request, `a`, may begin `ab`: it is in the final content but never streamed. -/
theorem streamed_ne_final : oneToken.nIndent = 0 ∧ (slotAfter oneToken []).hasNextToken = true ∧
      (slotAfter oneToken [firstToken [97]]).hasNextToken = false ∧
      finalText oneToken [firstToken [97]] = [97] ∧ streamedText oneToken [firstToken [97]] = [] ∧
      ¬ SameText (streamedText oneToken [firstToken [97]]) (finalText oneToken [firstToken [97]]) := by
  decide

/-- The first piece is held back and sent with the second, and the third one is the stop string. -/
theorem streamed_eq_final_iff_heldBack :
    SameText (streamedText { oneToken with nPredict := 3 } ([firstToken [97], firstToken [99]] ++ [firstToken [97, 98]]))
      (finalText { oneToken with nPredict := 3 } ([firstToken [97], firstToken [99]] ++ [firstToken [97, 98]])) :=
  (streamed_eq_final_iff _ rfl _ _ (by decide) (by decide)).2 (by rw [Withheld, if_neg (by decide)]; decide)

end Mallana.Server
