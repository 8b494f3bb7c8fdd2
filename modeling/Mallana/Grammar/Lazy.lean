import Mallana.Grammar.Filter

/-!
# Lazy grammars

A lazy grammar lets tokens pass and buffers their pieces until one of its patterns matches the buffer. Then the tokens
are replayed into the grammar from where the constrained part starts, the first of them perhaps with the end of its piece
only. The search of a regular expression is a parameter: it gives the offset at which the constrained part starts.

`llama_grammar_accept_token` throws when it leaves no stack. A call that throws ends the replay.
-/

namespace Mallana

open Lib List Option

/-- C++ `token_pos`: a token and the bounds of its piece in the buffer. -/
structure TokenPos where
  token : UInt32
  first : Nat
  last : Nat
deriving DecidableEq

/-- C++ `llama_grammar` with its triggers; `P` are the patterns. -/
structure LazyGrammar (P : Type) extends LlamaGrammar where
  triggerBuffer : List UInt8
  triggerBufferPositions : List TokenPos
  triggerTokens : List UInt32
  triggerPatterns : List P

/-- The end of `llama_grammar_init_impl` for the text of a grammar. -/
def LlamaGrammar.withTriggers {P : Type} (g : LlamaGrammar) (isLazy : Bool) (triggerTokens : List UInt32)
    (triggerPatterns : List P) : LazyGrammar P where
  toLlamaGrammar := { g with awaitingTrigger := isLazy }
  triggerBuffer := []
  triggerBufferPositions := []
  triggerTokens := triggerTokens
  triggerPatterns := triggerPatterns

/-- The end of a call: the grammar, the pieces that were given to `llama_grammar_accept_token`, and whether the last of
these calls threw. -/
structure Accepted (P : Type) where
  grammar : LazyGrammar P
  pieces : List (List UInt8) := []
  throws : Bool := false

/-- The end of the replay: the buffer is cleared, unless a call threw. -/
def Accepted.clear {P : Type} (r : Accepted P) : Accepted P :=
  if r.throws then r
  else { r with grammar := { r.grammar with triggerBuffer := [], triggerBufferPositions := [] } }

namespace LazyGrammar

open Grammar

variable {P : Type}

/-- C++ `llama_grammar_accept_token`. -/
def acceptPiece (fuel : Nat) (g : LazyGrammar P) (token : UInt32) (piece : List UInt8) : Option (Accepted P) :=
  (g.toLlamaGrammar.acceptToken fuel token piece).map fun g' =>
    { grammar := { g with toLlamaGrammar := g' }, pieces := [piece], throws := g'.grStacks.isEmpty }

/-- The loop of `llama_grammar_accept_impl` over the tokens in the buffer. -/
def replay (fuel start : Nat) : LazyGrammar P → List TokenPos → Option (Accepted P)
  | g, [] => some { grammar := g }
  | g, tok :: rest =>
    if tok.last ≤ start then replay fuel start g rest
    else do
      -- a part of a piece is allowed
      let pieceStart := if tok.first < start then start else tok.first
      let piece := (g.triggerBuffer.drop pieceStart).take (tok.last - pieceStart)
      let r ← acceptPiece fuel g tok.token piece
      if r.throws then return r
      else
        let more ← replay fuel start r.grammar rest
        return { more with pieces := r.pieces ++ more.pieces }

def push (vocab : GrVocab) (g : LazyGrammar P) (token : UInt32) : LazyGrammar P :=
  let piece := vocab.tokenToPiece token
  let position : TokenPos := ⟨token, g.triggerBuffer.length, g.triggerBuffer.length + piece.length⟩
  { g with
    triggerBufferPositions := g.triggerBufferPositions ++ [position]
    triggerBuffer := g.triggerBuffer ++ piece }

/-- C++ `llama_grammar_accept_impl`. -/
def acceptImpl (fuel : Nat) (vocab : GrVocab) (find : P → List UInt8 → Option Nat) (g : LazyGrammar P)
    (token : UInt32) : Option (Accepted P) :=
  let piece := vocab.tokenToPiece token
  if g.awaitingTrigger then
    if token ∈ g.triggerTokens then
      acceptPiece fuel { g with awaitingTrigger := false, triggerBuffer := [] } token piece
    else
      let g := g.push vocab token
      match g.triggerPatterns.findSome? fun pattern => find pattern g.triggerBuffer with
      | none => some { grammar := g }
      | some start =>
        (replay fuel start { g with awaitingTrigger := false } g.triggerBufferPositions).map Accepted.clear
  else if vocab.isEog token then
    -- `GGML_ABORT`
    if g.grStacks.any List.isEmpty then some { grammar := g } else none
  else acceptPiece fuel g token piece

/-- The tokens are accepted one after the other; none of the calls throws. -/
def acceptTokens (fuel : Nat) (vocab : GrVocab) (find : P → List UInt8 → Option Nat) :
    LazyGrammar P → List UInt32 → Option (LazyGrammar P)
  | g, [] => some g
  | g, token :: tokens => do
    let r ← acceptImpl fuel vocab find g token
    if r.throws then none else acceptTokens fuel vocab find r.grammar tokens

/-- The bounds of pieces that stand one behind the other, the first of them at `first`. -/
def positions (vocab : GrVocab) : Nat → List UInt32 → List TokenPos
  | _, [] => []
  | first, token :: tokens =>
    ⟨token, first, first + (vocab.tokenToPiece token).length⟩ ::
      positions vocab (first + (vocab.tokenToPiece token).length) tokens

/-- The grammar waits for its trigger and has buffered the pieces of the tokens. -/
structure Buffers (vocab : GrVocab) (start g : LazyGrammar P) (tokens : List UInt32) : Prop where
  same : g.toLlamaGrammar = start.toLlamaGrammar
  triggerTokens : g.triggerTokens = start.triggerTokens
  triggerPatterns : g.triggerPatterns = start.triggerPatterns
  buffer : g.triggerBuffer = tokens.flatMap vocab.tokenToPiece
  bounds : g.triggerBufferPositions = positions vocab 0 tokens

variable {fuel : Nat} {vocab : GrVocab} {find : P → List UInt8 → Option Nat} {g start : LazyGrammar P} {r : Accepted P}
variable {token : UInt32}

lemma positions_append (first : Nat) (tokens : List UInt32) (token : UInt32) :
    positions vocab first (tokens ++ [token]) = positions vocab first tokens ++
      [⟨token, first + (tokens.flatMap vocab.tokenToPiece).length,
        first + (tokens.flatMap vocab.tokenToPiece).length + (vocab.tokenToPiece token).length⟩] := by
  induction tokens generalizing first with
  | nil => rfl
  | cons t tokens ih =>
    rw [cons_append, positions, positions, ih, cons_append, flatMap_cons, length_append, add_assoc first]

lemma acceptPiece_awaiting {piece : List UInt8} (h : acceptPiece fuel g token piece = some r) :
    r.grammar.awaitingTrigger = g.awaitingTrigger := by
  obtain ⟨g', hg', rfl⟩ := map_eq_some_iff.1 h
  exact @LlamaGrammar.step_awaiting g.toLlamaGrammar fuel (.acceptToken token piece) _ hg'

lemma replay_awaiting {first : Nat} {toks : List TokenPos} (h : replay fuel first g toks = some r) :
    r.grammar.awaitingTrigger = g.awaitingTrigger := by
  induction toks generalizing g r with
  | nil =>
    cases h
    rfl
  | cons tok toks ih =>
    rw [replay] at h
    split at h
    · exact ih h
    · obtain ⟨r₁, h₁, h⟩ := bind_eq_some_iff.1 h
      split at h
      · cases h
        exact acceptPiece_awaiting h₁
      · obtain ⟨r₂, h₂, h⟩ := bind_eq_some_iff.1 h
        cases h
        exact (ih h₂).trans (acceptPiece_awaiting h₁)

lemma clear_awaiting (r : Accepted P) : r.clear.grammar.awaitingTrigger = r.grammar.awaitingTrigger := by
  unfold Accepted.clear
  split <;> rfl

lemma acceptImpl_waits (h : acceptImpl fuel vocab find g token = some r) (hwait : r.grammar.awaitingTrigger = true) :
    g.awaitingTrigger = true ∧ r.grammar = g.push vocab token := by
  unfold acceptImpl at h
  simp only at h
  split at h
  · rename_i hg
    split at h
    · rw [acceptPiece_awaiting h] at hwait
      cases hwait
    · split at h
      · cases h
        exact ⟨hg, rfl⟩
      · obtain ⟨r₁, h₁, rfl⟩ := map_eq_some_iff.1 h
        rw [clear_awaiting, replay_awaiting h₁] at hwait
        cases hwait
  · rename_i hg
    split at h
    · split at h
      · cases h
        exact absurd hwait hg
      · cases h
    · rw [acceptPiece_awaiting h] at hwait
      exact absurd hwait hg

lemma acceptTokens_awaiting {tokens : List UInt32} {g' : LazyGrammar P}
    (h : acceptTokens fuel vocab find g tokens = some g') (hwait : g'.awaitingTrigger = true) :
    g.awaitingTrigger = true := by
  induction tokens generalizing g with
  | nil =>
    cases h
    exact hwait
  | cons token tokens ih =>
    obtain ⟨r, hr, h⟩ := bind_eq_some_iff.1 h
    split at h
    · cases h
    · exact (acceptImpl_waits hr (ih h)).1

lemma Buffers.push {tokens : List UInt32} (h : Buffers vocab start g tokens) (token : UInt32) :
    Buffers vocab start (g.push vocab token) (tokens ++ [token]) := by
  refine ⟨h.same, h.triggerTokens, h.triggerPatterns, ?_, ?_⟩
  · simp only [LazyGrammar.push, h.buffer, flatMap_append, flatMap_singleton]
  · simp only [LazyGrammar.push, h.bounds, h.buffer, positions_append, zero_add]

lemma acceptTokens_buffers {tokens before : List UInt32} {g' : LazyGrammar P} (hg : Buffers vocab start g before)
    (h : acceptTokens fuel vocab find g tokens = some g') (hwait : g'.awaitingTrigger = true) :
    Buffers vocab start g' (before ++ tokens) := by
  induction tokens generalizing g before with
  | nil =>
    cases h
    rw [append_nil]
    exact hg
  | cons token tokens ih =>
    obtain ⟨r, hr, h⟩ := bind_eq_some_iff.1 h
    split at h
    · cases h
    · obtain ⟨-, heq⟩ := acceptImpl_waits hr (acceptTokens_awaiting h hwait)
      have hrest := ih (heq ▸ hg.push token) h
      rwa [append_assoc, singleton_append] at hrest

lemma acceptPiece_pieces {piece : List UInt8} (h : acceptPiece fuel g token piece = some r) :
    r.pieces = [piece] ∧ r.grammar.triggerBuffer = g.triggerBuffer ∧ (r.throws = true → r.grammar.grStacks = []) := by
  obtain ⟨g', -, rfl⟩ := map_eq_some_iff.1 h
  exact ⟨rfl, rfl, List.isEmpty_iff.1⟩

/-- The pieces replayed are the buffer behind the trigger. -/
lemma replay_pieces {cut first : Nat} {tokens : List UInt32}
    (hbuffer : g.triggerBuffer.drop first = tokens.flatMap vocab.tokenToPiece)
    (h : replay fuel cut g (positions vocab first tokens) = some r) :
    (r.throws = false → r.pieces.flatten = g.triggerBuffer.drop (max first cut)) ∧
      (r.throws = true → r.pieces.flatten <+: g.triggerBuffer.drop (max first cut) ∧ r.grammar.grStacks = []) := by
  induction tokens generalizing g r first with
  | nil =>
    cases h
    have hnil : g.triggerBuffer.drop (max first cut) = [] := by
      have hlen := drop_eq_nil_iff.1 hbuffer
      exact drop_eq_nil_iff.2 (hlen.trans (le_max_left first cut))
    refine ⟨fun _ => hnil.symm, fun hthrows => by cases hthrows⟩
  | cons token tokens ih =>
    rw [flatMap_cons] at hbuffer
    have hnext : g.triggerBuffer.drop (first + (vocab.tokenToPiece token).length) =
        tokens.flatMap vocab.tokenToPiece := by
      rw [← drop_drop, hbuffer, drop_left]
    rw [positions, replay] at h
    simp only at h
    split at h
    · -- the piece is in front of the constrained part
      rename_i hle
      have hmax : max (first + (vocab.tokenToPiece token).length) cut = max first cut := by omega
      rw [← hmax]
      exact ih hnext h
    · rename_i hgt
      obtain ⟨r₁, h₁, h⟩ := bind_eq_some_iff.1 h
      obtain ⟨hpieces, hkeep, hstacks⟩ := acceptPiece_pieces h₁
      -- the end of the piece, from the constrained part on
      have hstart : (if first < cut then cut else first) = max first cut := by
        split <;> omega
      have hsplit : g.triggerBuffer.drop (max first cut) =
          (g.triggerBuffer.drop (max first cut)).take (first + (vocab.tokenToPiece token).length - max first cut) ++
            g.triggerBuffer.drop (first + (vocab.tokenToPiece token).length) := by
        have hdrop := take_append_drop (first + (vocab.tokenToPiece token).length - max first cut)
          (g.triggerBuffer.drop (max first cut))
        rw [drop_drop] at hdrop
        rw [show max first cut + (first + (vocab.tokenToPiece token).length - max first cut) =
          first + (vocab.tokenToPiece token).length by omega] at hdrop
        exact hdrop.symm
      rw [hstart] at hpieces
      generalize (g.triggerBuffer.drop (max first cut)).take
        (first + (vocab.tokenToPiece token).length - max first cut) = piece at hpieces hsplit
      split at h
      · rename_i hthrows
        cases h
        refine ⟨fun hfalse => ?_, fun _ => ⟨?_, hstacks hthrows⟩⟩
        · rw [hthrows] at hfalse
          cases hfalse
        · rw [hpieces, flatten_singleton, hsplit]
          exact prefix_append _ _
      · obtain ⟨r₂, h₂, h⟩ := bind_eq_some_iff.1 h
        cases h
        have hrest := ih (g := r₁.grammar) (by rw [hkeep]; exact hnext) h₂
        rw [hkeep, show max (first + (vocab.tokenToPiece token).length) cut =
          first + (vocab.tokenToPiece token).length by omega] at hrest
        refine ⟨fun hno => ?_, fun hthrows => ⟨?_, (hrest.2 hthrows).2⟩⟩
        · rw [flatten_append, hpieces, flatten_singleton, hrest.1 hno]
          exact hsplit.symm
        · rw [flatten_append, hpieces, flatten_singleton, hsplit]
          exact (prefix_append_right_inj _).2 (hrest.2 hthrows).1

lemma exists_replay {n : Nat} {G : RuleSet n} (hleft : ¬ LeftRecursive G.alts) (cut : Nat) (toks : List TokenPos)
    (hg : LlamaGrammar.Holds G (Ready G) g.toLlamaGrammar) :
    ∃ N r, ∀ fuel, N ≤ fuel → replay fuel cut g toks = some r := by
  induction toks generalizing g with
  | nil => exact ⟨0, _, fun _ _ => rfl⟩
  | cons tok toks ih =>
    by_cases hle : tok.last ≤ cut
    · obtain ⟨N, r, hr⟩ := ih hg
      refine ⟨N, r, fun fuel hfuel => ?_⟩
      rw [replay, if_pos hle]
      exact hr fuel hfuel
    · obtain ⟨piece, hpiece⟩ : ∃ piece, (g.triggerBuffer.drop (if tok.first < cut then cut else tok.first)).take
          (tok.last - if tok.first < cut then cut else tok.first) = piece := ⟨_, rfl⟩
      obtain ⟨N₁, g₁, hrun, hholds, -⟩ := hg.acceptToken_spec (keeps_ready hleft) tok.token piece
      obtain ⟨N₂, r₂, hr₂⟩ := ih (g := { g with toLlamaGrammar := g₁ }) hholds
      cases hempty : g₁.grStacks.isEmpty with
      | true =>
        refine ⟨N₁, { grammar := { g with toLlamaGrammar := g₁ }, pieces := [piece], throws := true },
          fun fuel hfuel => ?_⟩
        rw [replay, if_neg hle]
        simp only [acceptPiece, hpiece, hrun fuel hfuel, hempty, map_some, bind_eq_bind, bind_some, if_true]
        rfl
      | false =>
        refine ⟨max N₁ N₂, { r₂ with pieces := piece :: r₂.pieces }, fun fuel hfuel => ?_⟩
        rw [replay, if_neg hle]
        simp only [acceptPiece, hpiece, hrun fuel (by omega), hempty, map_some, bind_eq_bind, bind_some,
          Bool.false_eq_true, if_false, hr₂ fuel (by omega)]
        rfl

section
variable {triggerTokens : List UInt32} {patterns : List P} {first : Nat}

lemma acceptImpl_triggers (hwait : g.awaitingTrigger = true) (htoken : token ∉ g.triggerTokens)
    (hmatch : g.triggerPatterns.findSome? (fun pattern => find pattern (g.push vocab token).triggerBuffer) =
      some first) :
    acceptImpl fuel vocab find g token = (replay fuel first { g.push vocab token with awaitingTrigger := false }
      (g.push vocab token).triggerBufferPositions).map Accepted.clear := by
  have hpatterns : (g.push vocab token).triggerPatterns = g.triggerPatterns := rfl
  unfold acceptImpl
  simp only [hwait, if_true, htoken, if_false, hpatterns, hmatch]

lemma buffers_start (g : LlamaGrammar) (triggerTokens : List UInt32) (patterns : List P) :
    Buffers vocab (g.withTriggers true triggerTokens patterns) (g.withTriggers true triggerTokens patterns) [] :=
  ⟨rfl, rfl, rfl, rfl, rfl⟩

/-- When a pattern matches, the pieces that are replayed into the grammar are the buffer from the constrained part on, if
none of them is refused; a piece that leaves no stack is the last one. The replay ends, if the rules have no left
recursion. -/
theorem acceptImpl_replays (vocab : GrVocab) (find : P → List UInt8 → Option Nat) (g₀ : LlamaGrammar)
    (tokens : List UInt32) (hrun : acceptTokens fuel vocab find (g₀.withTriggers true triggerTokens patterns) tokens =
      some g) (hwait : g.awaitingTrigger = true) (htoken : token ∉ triggerTokens)
    (hmatch : patterns.findSome? (fun pattern => find pattern (g.push vocab token).triggerBuffer) = some first) :
    (g.push vocab token).triggerBuffer = (tokens ++ [token]).flatMap vocab.tokenToPiece ∧
    (∀ fuel r, acceptImpl fuel vocab find g token = some r →
      (r.throws = false → r.pieces.flatten = (g.push vocab token).triggerBuffer.drop first) ∧
      (r.throws = true → r.pieces.flatten <+: (g.push vocab token).triggerBuffer.drop first ∧
        r.grammar.grStacks = [])) ∧
    ∀ n (G : RuleSet n) (root : Fin n), ¬ LeftRecursive G.alts → LlamaGrammar.Reachable G root g₀ →
      ∃ N r, ∀ fuel, N ≤ fuel → acceptImpl fuel vocab find g token = some r := by
  have hwaiting := acceptTokens_buffers (buffers_start g₀ triggerTokens patterns) hrun hwait
  rw [nil_append] at hwaiting
  have hbuffers := hwaiting.push token
  have htrigger : ∀ fuel, acceptImpl fuel vocab find g token = _ := fun fuel =>
    acceptImpl_triggers hwait (by rw [hwaiting.triggerTokens]; exact htoken)
      (by rw [hwaiting.triggerPatterns]; exact hmatch)
  refine ⟨hbuffers.buffer, ?_, ?_⟩
  · intro fuel r hr
    rw [htrigger fuel, hbuffers.bounds] at hr
    obtain ⟨r', hr', rfl⟩ := map_eq_some_iff.1 hr
    have hpieces := @replay_pieces P _ _ _ _ _ 0 _ (by rw [drop_zero]; exact hbuffers.buffer) hr'
    rw [Nat.zero_max] at hpieces
    have hthrows : r'.clear.throws = r'.throws ∧ r'.clear.pieces = r'.pieces ∧
        r'.clear.grammar.grStacks = r'.grammar.grStacks := by
      unfold Accepted.clear
      split <;> exact ⟨rfl, rfl, rfl⟩
    rw [hthrows.1, hthrows.2.1, hthrows.2.2]
    exact hpieces
  · intro n G root hleft hreach
    have hholds := (hreach.holds hleft).1
    have hsame : LlamaGrammar.Holds G (Ready G) { (g.push vocab token).toLlamaGrammar with awaitingTrigger := false } := by
      rw [hbuffers.same]
      exact ⟨hholds.rules, hholds.all⟩
    obtain ⟨N, r, hr⟩ := exists_replay (g := { g.push vocab token with awaitingTrigger := false }) hleft first
      (g.push vocab token).triggerBufferPositions hsame
    refine ⟨N, r.clear, fun fuel hle => ?_⟩
    rw [htrigger fuel, hr fuel hle]
    rfl

/-- A vocabulary with the tokens `b`, `c` and `xa`. -/
def lazyVocab : GrVocab where
  tokenToPiece token := if token = 1 then [98] else if token = 2 then [99] else [120, 97]
  isEog _ := false

/-- `root ::= "a" "b"`. -/
def lazyAb : LlamaGrammar where
  rules := [[⟨.char, 97⟩, ⟨.char, 98⟩, ⟨.end, 0⟩]]
  grStacks := [[⟨0, 0⟩]]

/-- The piece `b` of the text `bc` is refused by `"a" "b"`, so `c` is not replayed. -/
theorem acceptImpl_replays_refused : ∃ g r,
    acceptTokens 9 lazyVocab (fun _ text => if text = [98, 99] then some 0 else none)
      (lazyAb.withTriggers true [] [()]) [1] = some g ∧ g.awaitingTrigger = true ∧
    acceptImpl 9 lazyVocab (fun _ text => if text = [98, 99] then some 0 else none) g 2 = some r ∧
    r.grammar.awaitingTrigger = false ∧ r.throws = true ∧ (g.push lazyVocab 2).triggerBuffer = [98, 99] ∧
    r.pieces.flatten ≠ (g.push lazyVocab 2).triggerBuffer.drop 0 :=
  ⟨_, _, rfl, rfl, rfl, rfl, rfl, rfl, by decide⟩

/-- The pattern `ab$` matches the text `xab` behind the first byte of the piece `xa`. -/
theorem acceptImpl_replays_cut : ∃ g,
    acceptTokens 9 lazyVocab (fun _ text => if text = [120, 97, 98] then some 1 else none)
      (lazyAb.withTriggers true [] [()]) [3] = some g ∧
    (∀ fuel r, acceptImpl fuel lazyVocab (fun _ text => if text = [120, 97, 98] then some 1 else none) g 1 = some r →
      r.throws = false → r.pieces.flatten = [97, 98]) ∧
    ∃ r, acceptImpl 9 lazyVocab (fun _ text => if text = [120, 97, 98] then some 1 else none) g 1 = some r ∧
      r.throws = false ∧ r.pieces = [[97], [98]] := by
  refine ⟨_, rfl, ?_, _, rfl, rfl, rfl⟩
  intro fuel r hr hno
  exact ((@acceptImpl_replays Unit 9 _ _ [] [()] 1 lazyVocab
    (fun _ text => if text = [120, 97, 98] then some 1 else none) lazyAb [3] rfl rfl not_mem_nil rfl).2.1
      fuel r hr).1 hno

end

end LazyGrammar

end Mallana
