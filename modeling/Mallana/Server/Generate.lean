import Mallana.Lib.TextSearch
import Mallana.Tokenizer.Utf8

/-!
# Generated text

Model of `server_context_impl::process_token` with `server_slot::find_stopping_strings`, `string_find_partial_stop` and
`validate_utf8`: a sampled token is appended to the text of the slot, the text is searched for stop strings, and what is
certain not to begin one is handed out. The clock is read once in the source; the outcome of its comparison comes with
the token, and so do the two counters of the slot that the batch loop advances.
-/

namespace Mallana.Server

open Mallana.Lib Mallana.Tokenizer List

inductive StopType where
  | none
  | eos
  | word
  | limit
deriving DecidableEq

/-- The parameters that `process_token` reads: of the task, of the slot and of the server. -/
structure GenParams where
  antiprompt : List Str
  nPredict : Int
  nIndent : Int
  tMaxPredictMs : Int
  stream : Bool
  returnTokens : Bool
  ctxShift : Bool
  globalNPredict : Int
  nCtx : Int
  isEog : Int → Bool

/-- A sampled token with its piece. `late`: `t_max_predict_ms` have passed since the first token. -/
structure Sampled where
  tok : Int
  piece : Str
  nTokens : Int
  nDecoded : Int
  late : Bool

/-- The fields of `server_slot` that belong to the generated text. -/
structure GenSlot where
  sampled : Int
  generatedText : Str
  generatedTokens : List Int
  generatedTokenProbs : List (Int × Str)
  nSentText : Nat
  hasNextToken : Bool
  hasNewLine : Bool
  truncated : Bool
  lastNlPos : Nat
  stop : StopType
  stoppingWord : Str
deriving DecidableEq

/-- A slot after `server_slot::reset`. -/
def GenSlot.reset : GenSlot where
  sampled := 0
  generatedText := []
  generatedTokens := []
  generatedTokenProbs := []
  nSentText := 0
  hasNextToken := true
  hasNewLine := false
  truncated := false
  lastNlPos := 0
  stop := .none
  stoppingWord := []

/-- The number of bytes of the character that a byte begins, if it begins one of several bytes. -/
def bytesNeeded (c : UInt8) : Nat :=
  if c &&& 0xE0 = 0xC0 then 2 else if c &&& 0xF0 = 0xE0 then 3 else if c &&& 0xF8 = 0xF0 then 4 else 0

/-- `validate_utf8`: the length of the text without a last character that is cut off. -/
def validateUtf8 (text : Str) : Nat :=
  match [1, 2, 3, 4].find? fun i => i ≤ text.length && i < bytesNeeded (text.getD (text.length - i) 0) with
  | some i => text.length - i
  | none => text.length

def incomplete (text : Str) : Bool := validateUtf8 text < text.length

/-- `string_find_partial_stop`. -/
def findPartialStop (str stop : Str) : Option Nat := findCut str stop (min str.length stop.length)

def stopPosOf (text : Str) (lastTokenSize : Nat) (isFullStop : Bool) (word : Str) : Option Nat :=
  if isFullStop then findFrom text word (text.length - (word.length + lastTokenSize)) else findPartialStop text word

def betterStop (best : Option (Nat × Str)) (word : Str) : Option Nat → Option (Nat × Str)
  | some pos => if best.all fun b => pos < b.1 then some (pos, word) else best
  | none => best

/-- `server_slot::find_stopping_strings`: the least position and the word found there. -/
def findStoppingStrings (antiprompt : List Str) (text : Str) (lastTokenSize : Nat) (isFullStop : Bool) :
    Option (Nat × Str) :=
  antiprompt.foldl (fun best word => betterStop best word (stopPosOf text lastTokenSize isFullStop word)) none

lemma findStoppingStrings_append (ws : List Str) (w text : Str) (n : Nat) (full : Bool) :
    findStoppingStrings (ws ++ [w]) text n full =
      betterStop (findStoppingStrings ws text n full) w (stopPosOf text n full w) := by
  rw [findStoppingStrings, foldl_append]
  rfl

/-- `server_slot::has_budget`. -/
def hasBudget (p : GenParams) (nDecoded : Int) : Bool :=
  if p.nPredict = -1 ∧ p.globalNPredict = -1 then true
  else if p.nPredict ≠ -1 then 0 < p.nPredict - nDecoded
  else 0 < p.globalNPredict - nDecoded

def appendToken (p : GenParams) (s : GenSlot) (r : Sampled) : GenSlot :=
  { s with
    sampled := r.tok
    generatedText := s.generatedText ++ r.piece
    generatedTokens := if p.returnTokens then s.generatedTokens ++ [r.tok] else s.generatedTokens
    hasNextToken := true }

/-- `text_to_send` is what the slot has not sent; `server_slot::add_token`. -/
def sendText (s : GenSlot) (tok : Int) : GenSlot × Str :=
  let textToSend := s.generatedText.drop (min s.nSentText s.generatedText.length)
  ({ s with
      nSentText := s.nSentText + textToSend.length
      generatedTokenProbs := s.generatedTokenProbs ++ [(tok, textToSend)] }, textToSend)

/-- `text_to_send` is empty; `server_slot::add_token`. -/
def holdText (s : GenSlot) (tok : Int) : GenSlot × Str :=
  ({ s with generatedTokenProbs := s.generatedTokenProbs ++ [(tok, [])] }, [])

def cutText (s : GenSlot) (pos : Nat) (word : Str) : GenSlot :=
  { s with
    generatedText := s.generatedText.take pos
    stop := .word
    stoppingWord := word
    hasNextToken := false }

/-- The search for stop strings behind the first `pos` bytes of the text. -/
def searchFrom (p : GenParams) (s : GenSlot) (r : Sampled) (pos : Nat) : GenSlot × Str :=
  match findStoppingStrings p.antiprompt (s.generatedText.drop pos) r.piece.length true with
  | some (stopPos, word) => sendText (cutText s (pos + stopPos) word) r.tok
  | none =>
    if s.hasNextToken && !p.isEog r.tok &&
        (findStoppingStrings p.antiprompt (s.generatedText.drop pos) r.piece.length false).isSome then
      holdText s r.tok
    else sendText s r.tok

def checkLimits (p : GenParams) (s : GenSlot) (r : Sampled) : GenSlot :=
  let s := if !p.ctxShift && p.nCtx ≤ r.nTokens + 1 then
      { s with truncated := true, stop := .limit, hasNextToken := false } else s
  if 0 < r.nDecoded && s.hasNextToken && !hasBudget p r.nDecoded then
    { s with stop := .limit, hasNextToken := false } else s

def isBlank (c : UInt8) : Bool := c == 32 || c == 9

/-- The end of the blanks at the beginning of the current line, if something follows them. -/
def indentEnd (s : GenSlot) : Option Nat :=
  let pos := s.lastNlPos + ((s.generatedText.drop s.lastNlPos).takeWhile isBlank).length
  if pos < s.generatedText.length then some pos else none

/-- Whether the current line is indented by less than `n_indent`, and where the text is cut then. -/
def indentCut (p : GenParams) (s : GenSlot) : Option Nat :=
  if s.hasNewLine && 0 < p.nIndent && 0 < s.lastNlPos then
    (indentEnd s).filter fun pos => ((pos - s.lastNlPos : Nat) : Int) < p.nIndent
  else none

def checkIndent (p : GenParams) (s : GenSlot) : GenSlot :=
  let s' := match indentCut p s with
    | some pos => { s with stop := .limit, hasNextToken := false, generatedText := s.generatedText.take pos }
    | none => s
  if s.hasNewLine && 0 < p.nIndent then
    match findFrom s'.generatedText [10] s'.lastNlPos with
    | some pos => { s' with lastNlPos := pos + 1 }
    | none => s'
  else s'

/-- A new line in `text_to_send`, after which the time is checked. -/
def checkNewLine (p : GenParams) (textToSend : Str) (s : GenSlot) (r : Sampled) : GenSlot :=
  if textToSend.contains 10 then
    let s := { s with hasNewLine := true }
    if 0 < p.tMaxPredictMs && r.late then { s with stop := .limit, hasNextToken := false } else s
  else s

def checkEog (p : GenParams) (s : GenSlot) (r : Sampled) : GenSlot :=
  if p.isEog r.tok then { s with stop := .eos, hasNextToken := false } else s

/-- The slot and `text_to_send` behind the search for stop strings, which is skipped inside a character. -/
def searched (p : GenParams) (s : GenSlot) (r : Sampled) : GenSlot × Str :=
  let s := appendToken p s r
  if incomplete s.generatedText then ({ s with hasNextToken := true }, r.piece) else searchFrom p s r (min s.nSentText s.generatedText.length)

def checkStops (p : GenParams) (textToSend : Str) (s : GenSlot) (r : Sampled) : GenSlot :=
  checkEog p (checkNewLine p textToSend (checkIndent p (checkLimits p s r)) r) r

/-- `server_context_impl::process_token`, with the content of its partial response. -/
def processToken (p : GenParams) (s : GenSlot) (r : Sampled) : GenSlot × Option Str :=
  let (s', textToSend) := searched p s r
  (checkStops p textToSend s' r,
    if p.stream && !incomplete (s.generatedText ++ r.piece) then some textToSend else none)

/-- The content of `send_final_response`. -/
def finalContent (p : GenParams) (s : GenSlot) : Str := if p.stream then [] else s.generatedText

/-- The tokens of a request up to the stop, with the partial responses. -/
def generate (p : GenParams) : GenSlot → List Sampled → GenSlot × List Str
  | s, [] => (s, [])
  | s, r :: rs =>
    let (s', out) := processToken p s r
    if s'.hasNextToken then
      let (s'', outs) := generate p s' rs
      (s'', out.toList ++ outs)
    else (s', out.toList)

/-- The text handed out: the `text_to_send` of every token given to `add_token`. -/
def GenSlot.sentText (s : GenSlot) : Str := (s.generatedTokenProbs.map (·.2)).flatten

variable {p : GenParams} {s : GenSlot} {r : Sampled} {t : Str}

lemma checkLimits_text (p : GenParams) (s : GenSlot) (r : Sampled) :
    (checkLimits p s r).generatedText = s.generatedText ∧ (checkLimits p s r).nSentText = s.nSentText ∧
      (checkLimits p s r).sentText = s.sentText := by
  simp only [checkLimits]
  split <;> split <;> exact ⟨rfl, rfl, rfl⟩

lemma checkLimits_stopped (h : s.hasNextToken = false) : (checkLimits p s r).hasNextToken = false := by
  simp only [checkLimits]
  split <;> split
  · rfl
  · rfl
  · rfl
  · exact h

lemma checkIndent_sent (p : GenParams) (s : GenSlot) :
    (checkIndent p s).nSentText = s.nSentText ∧ (checkIndent p s).sentText = s.sentText := by
  simp only [checkIndent]
  cases indentCut p s <;> split <;> try split
  all_goals exact ⟨rfl, rfl⟩

lemma checkIndent_none (h : indentCut p s = none) :
    (checkIndent p s).generatedText = s.generatedText ∧ (checkIndent p s).hasNextToken = s.hasNextToken := by
  simp only [checkIndent, h]
  split <;> try split
  all_goals exact ⟨rfl, rfl⟩

lemma checkIndent_some {pos : Nat} (h : indentCut p s = some pos) : (checkIndent p s).hasNextToken = false := by
  simp only [checkIndent, h]
  split <;> try split
  all_goals rfl

lemma checkNewLine_text (p : GenParams) (t : Str) (s : GenSlot) (r : Sampled) :
    (checkNewLine p t s r).generatedText = s.generatedText ∧ (checkNewLine p t s r).nSentText = s.nSentText ∧
      (checkNewLine p t s r).sentText = s.sentText := by
  simp only [checkNewLine]
  split <;> try split
  all_goals exact ⟨rfl, rfl, rfl⟩

lemma checkNewLine_stopped (h : s.hasNextToken = false) : (checkNewLine p t s r).hasNextToken = false := by
  simp only [checkNewLine]
  split <;> try split
  · rfl
  · exact h
  · exact h

lemma checkEog_text (p : GenParams) (s : GenSlot) (r : Sampled) :
    (checkEog p s r).generatedText = s.generatedText ∧ (checkEog p s r).nSentText = s.nSentText ∧
      (checkEog p s r).sentText = s.sentText := by
  simp only [checkEog]
  split <;> exact ⟨rfl, rfl, rfl⟩

lemma checkEog_stopped (h : s.hasNextToken = false) : (checkEog p s r).hasNextToken = false := by
  simp only [checkEog]
  split
  · rfl
  · exact h

lemma checkStops_sent (p : GenParams) (t : Str) (s : GenSlot) (r : Sampled) :
    (checkStops p t s r).nSentText = s.nSentText ∧ (checkStops p t s r).sentText = s.sentText := by
  obtain ⟨_, hn1, hs1⟩ := checkLimits_text p s r
  obtain ⟨hn2, hs2⟩ := checkIndent_sent p (checkLimits p s r)
  obtain ⟨_, hn3, hs3⟩ := checkNewLine_text p t (checkIndent p (checkLimits p s r)) r
  obtain ⟨_, hn4, hs4⟩ := checkEog_text p (checkNewLine p t (checkIndent p (checkLimits p s r)) r) r
  exact ⟨by rw [checkStops, hn4, hn3, hn2, hn1], by rw [checkStops, hs4, hs3, hs2, hs1]⟩

lemma checkStops_text (h : indentCut p (checkLimits p s r) = none) :
    (checkStops p t s r).generatedText = s.generatedText := by
  rw [checkStops, (checkEog_text ..).1, (checkNewLine_text ..).1, (checkIndent_none h).1, (checkLimits_text ..).1]

lemma checkStops_stopped (h : s.hasNextToken = false) : (checkStops p t s r).hasNextToken = false := by
  apply checkEog_stopped
  apply checkNewLine_stopped
  have hlimit := @checkLimits_stopped p s r h
  cases hcut : indentCut p (checkLimits p s r) with
  | none => rw [(checkIndent_none hcut).2, hlimit]
  | some pos => exact checkIndent_some hcut

lemma checkStops_goes_on (h : (checkStops p t s r).hasNextToken = true) :
    (checkStops p t s r).generatedText = s.generatedText ∧ s.hasNextToken = true ∧ p.isEog r.tok = false := by
  refine ⟨?_, ?_, ?_⟩
  · apply checkStops_text
    cases hcut : indentCut p (checkLimits p s r) with
    | none => rfl
    | some pos =>
      have hstop := @checkEog_stopped p _ r (@checkNewLine_stopped p _ r t (checkIndent_some hcut))
      rw [checkStops, hstop] at h
      cases h
  · cases hnext : s.hasNextToken with
    | true => rfl
    | false =>
      rw [checkStops_stopped hnext] at h
      cases h
  · cases heog : p.isEog r.tok with
    | false => rfl
    | true =>
      rw [checkStops, checkEog, if_pos heog] at h
      cases h

lemma indentCut_of_nIndent (h : p.nIndent ≤ 0) : indentCut p s = none := by
  rw [indentCut, if_neg]
  intro hc
  rw [Bool.and_eq_true, Bool.and_eq_true] at hc
  exact absurd (of_decide_eq_true hc.1.2) (Int.not_lt.2 h)

lemma indentCut_congr {s s' : GenSlot} (hline : s.hasNewLine = s'.hasNewLine) (hpos : s.lastNlPos = s'.lastNlPos)
    (htext : s.generatedText = s'.generatedText) : indentCut p s = indentCut p s' := by
  simp only [indentCut, indentEnd, hline, hpos, htext]

lemma checkLimits_line (p : GenParams) (s : GenSlot) (r : Sampled) :
    (checkLimits p s r).hasNewLine = s.hasNewLine ∧ (checkLimits p s r).lastNlPos = s.lastNlPos := by
  simp only [checkLimits]
  split <;> split <;> exact ⟨rfl, rfl⟩

/-- The part of the text that was not sent, with the new piece. -/
def unsent (s : GenSlot) (r : Sampled) : Str := (s.generatedText ++ r.piece).drop s.nSentText

/-- The text handed out is the beginning of the generated text that the counter gives. -/
structure Sent (s : GenSlot) : Prop where
  le : s.nSentText ≤ s.generatedText.length
  eq : s.sentText = s.generatedText.take s.nSentText

/-- What the search for whole stop strings finds in the part that was not sent. -/
def foundStop (p : GenParams) (s : GenSlot) (r : Sampled) : Option (Nat × Str) :=
  findStoppingStrings p.antiprompt (unsent s r) r.piece.length true

/-- The part that was not sent may end with the beginning of a stop string, and the token goes on. -/
def holds (p : GenParams) (s : GenSlot) (r : Sampled) : Bool :=
  !p.isEog r.tok && (findStoppingStrings p.antiprompt (unsent s r) r.piece.length false).isSome

lemma reset_sent : Sent .reset := ⟨le_refl _, rfl⟩

lemma sentText_append (s : GenSlot) (tok : Int) (t : Str) (ps : List (Int × Str))
    (h : ps = s.generatedTokenProbs ++ [(tok, t)]) : (ps.map (·.2)).flatten = s.sentText ++ t := by
  rw [h, map_append, flatten_append, GenSlot.sentText]
  simp only [map_cons, map_nil, flatten_cons, flatten_nil, append_nil]

lemma searched_incomplete (hc : incomplete (s.generatedText ++ r.piece) = true) :
    searched p s r = (appendToken p s r, r.piece) := by
  simp only [searched]
  exact if_pos hc

section
variable (hle : s.nSentText ≤ s.generatedText.length) (hc : incomplete (s.generatedText ++ r.piece) = false)
include hle hc

lemma searched_complete : searched p s r = searchFrom p (appendToken p s r) r s.nSentText := by
  have hmin : min (appendToken p s r).nSentText (appendToken p s r).generatedText.length = s.nSentText := by
    simp only [appendToken, length_append]
    omega
  have hskip : ¬ incomplete (appendToken p s r).generatedText = true := by
    rw [appendToken, hc]
    exact Bool.false_ne_true
  simp only [searched]
  rw [if_neg hskip, hmin]

lemma searched_found {q : Nat} {w : Str} (hf : foundStop p s r = some (q, w)) :
    searched p s r = sendText (cutText (appendToken p s r) (s.nSentText + q) w) r.tok := by
  have hf' : findStoppingStrings p.antiprompt ((appendToken p s r).generatedText.drop s.nSentText) r.piece.length true =
    some (q, w) := hf
  rw [searched_complete hle hc, searchFrom, hf']

lemma searched_held (hf : foundStop p s r = none) (hh : holds p s r = true) :
    searched p s r = holdText (appendToken p s r) r.tok := by
  have hf' : findStoppingStrings p.antiprompt ((appendToken p s r).generatedText.drop s.nSentText) r.piece.length true =
    none := hf
  rw [searched_complete hle hc, searchFrom, hf']
  exact if_pos hh

lemma searched_sent (hf : foundStop p s r = none) (hh : holds p s r = false) :
    searched p s r = sendText (appendToken p s r) r.tok := by
  have hf' : findStoppingStrings p.antiprompt ((appendToken p s r).generatedText.drop s.nSentText) r.piece.length true =
    none := hf
  rw [searched_complete hle hc, searchFrom, hf']
  apply if_neg
  rw [Bool.not_eq_true]
  exact hh

end

lemma sendText_spec (hle : s.nSentText ≤ s.generatedText.length) (tok : Int) (h : s.sentText = s.generatedText.take s.nSentText) :
    (sendText s tok).1.nSentText = s.generatedText.length ∧ (sendText s tok).1.sentText = s.generatedText := by
  have hmin : min s.nSentText s.generatedText.length = s.nSentText := min_eq_left hle
  constructor
  · simp only [sendText, hmin, length_drop]
    omega
  · rw [GenSlot.sentText, sentText_append s tok (s.generatedText.drop s.nSentText) _ (by simp only [sendText, hmin]), h,
      take_append_drop]

end Mallana.Server
