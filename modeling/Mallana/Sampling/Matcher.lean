import Mallana.Sampling.Samplers

/-!
# Finding a sequence of tokens

`token_matcher` keeps one position. After a token that does not fit, it goes on as if at most that token belonged to the next
occurrence. `complete_iff` says for which sequences it finds every first occurrence.
-/

namespace Mallana.Sampling.TokenMatcher

open List

/-- The matcher after a stream. -/
def feed (m : TokenMatcher) (stream : List LlamaToken) : TokenMatcher :=
  stream.foldl (fun m token => (m.advance token).1) m

/-- On every stream, as long as the sequence has not occurred, `advance` tells whether the token completes it. -/
def Complete (tokens : List LlamaToken) : Prop :=
  ∀ stream token, ¬ tokens <:+: stream →
    (((feed ⟨tokens, 0⟩ stream).advance token).2 = true ↔ tokens <:+ stream ++ [token])

/-- Tokens from the start of the sequence and then a wrong one never end with two or more tokens from its start. -/
def Restarts (tokens : List LlamaToken) : Prop :=
  ∀ n < tokens.length, ∀ token, tokens[n]? ≠ some token → ∀ j, 2 ≤ j → ¬ tokens.take j <:+ tokens.take n ++ [token]

variable {tokens stream : List LlamaToken} {token : LlamaToken} {n j : Nat}

lemma feed_append (m : TokenMatcher) (s t : List LlamaToken) : m.feed (s ++ t) = (m.feed s).feed t := foldl_append

lemma advance_of_eq (h : tokens[n]? = some token) : advance ⟨tokens, n⟩ token =
    if tokens.length ≤ n + 1 then (⟨tokens, 0⟩, true) else (⟨tokens, n + 1⟩, false) := by
  cases tokens with
  | nil => cases h
  | cons => exact if_pos h

lemma advance_of_ne (hne : tokens ≠ []) (h : tokens[n]? ≠ some token) :
    advance ⟨tokens, n⟩ token = (⟨tokens, if tokens[0]? = some token then 1 else 0⟩, false) := by
  cases tokens with
  | nil => exact absurd rfl hne
  | cons => exact if_neg h

lemma take_suffix (hj : j < tokens.length) :
    tokens.take (j + 1) <:+ stream ++ [token] ↔ tokens[j]? = some token ∧ tokens.take j <:+ stream := by
  rw [take_succ_eq_append_getElem hj, ← reverse_prefix, reverse_concat, reverse_concat, cons_prefix_cons, reverse_prefix,
    getElem?_eq_getElem hj, Option.some.injEq]

/-- The position is the length of the longest start of the sequence that the stream ends with. -/
structure At (tokens stream : List LlamaToken) (n : Nat) : Prop where
  lt : n < tokens.length
  suffix : tokens.take n <:+ stream
  le : ∀ j ≤ tokens.length, tokens.take j <:+ stream → j ≤ n

lemma At.advance (h : At tokens stream n) (hr : Restarts tokens) (hocc : ¬ tokens <:+ stream ++ [token]) :
    ∃ p, (advance ⟨tokens, n⟩ token).1 = ⟨tokens, p⟩ ∧ At tokens (stream ++ [token]) p := by
  by_cases htoken : tokens[n]? = some token
  · have hsuffix : tokens.take (n + 1) <:+ stream ++ [token] := (take_suffix h.lt).2 ⟨htoken, h.suffix⟩
    have hlt : n + 1 < tokens.length := by
      by_contra hle
      rw [take_of_length_le (Nat.not_lt.1 hle)] at hsuffix
      exact hocc hsuffix
    rw [advance_of_eq htoken, if_neg (Nat.not_le.2 hlt)]
    refine ⟨n + 1, rfl, hlt, hsuffix, fun j hj hpart => ?_⟩
    cases j with
    | zero => exact Nat.zero_le _
    | succ j => exact Nat.succ_le_succ (h.le j (Nat.le_of_succ_le hj) ((take_suffix hj).1 hpart).2)
  · rw [advance_of_ne (ne_nil_of_length_pos (Nat.zero_lt_of_lt h.lt)) htoken]
    refine ⟨_, rfl, ?_, ?_, fun j hj hpart => ?_⟩
    · split
      next h0 =>
        by_contra hle
        obtain rfl : n = 0 := by have := h.lt; omega
        exact htoken h0
      next => exact Nat.zero_lt_of_lt h.lt
    · split
      next h0 => exact (take_suffix (Nat.zero_lt_of_lt h.lt)).2 ⟨h0, nil_suffix⟩
      next => exact nil_suffix
    · cases j with
      | zero => exact Nat.zero_le _
      | succ j =>
        -- a longer start of the sequence would be at the end of the one before and this token
        obtain ⟨heq, hrest⟩ := (take_suffix hj).1 hpart
        have hle : j ≤ n := h.le j (Nat.le_of_succ_le hj) hrest
        have hshort : tokens.take j <:+ tokens.take n :=
          suffix_of_suffix_length_le hrest h.suffix (by rw [length_take, length_take]; omega)
        cases j with
        | zero => rw [if_pos heq]
        | succ j => exact absurd ((take_suffix hj).2 ⟨heq, hshort⟩) (hr n h.lt token htoken _ (by omega))

lemma at_feed (hne : tokens ≠ []) (hr : Restarts tokens) (hocc : ¬ tokens <:+: stream) :
    ∃ n, feed ⟨tokens, 0⟩ stream = ⟨tokens, n⟩ ∧ At tokens stream n := by
  induction stream using reverseRecOn with
  | nil =>
    refine ⟨0, rfl, length_pos_of_ne_nil hne, nil_suffix, fun j hj hpart => ?_⟩
    have hnil := congrArg length (suffix_nil.1 hpart)
    rw [length_take, length_nil] at hnil
    omega
  | append_singleton stream token ih =>
    rw [infix_concat_iff, not_or] at hocc
    obtain ⟨n, hfeed, hat⟩ := ih hocc.2
    obtain ⟨p, hp, hat'⟩ := hat.advance hr hocc.1
    rw [feed_append, hfeed]
    exact ⟨p, hp, hat'⟩

lemma At.advance_snd (h : At tokens stream n) :
    (TokenMatcher.advance ⟨tokens, n⟩ token).2 = true ↔ tokens <:+ stream ++ [token] := by
  obtain ⟨k, hk⟩ := Nat.exists_eq_add_of_lt h.lt
  have hlast : tokens.take (n + k + 1) <:+ stream ++ [token] ↔ tokens[n + k]? = some token ∧ tokens.take (n + k) <:+ stream :=
    take_suffix (by omega)
  rw [take_of_length_le (by omega)] at hlast
  rw [hlast]
  by_cases htoken : tokens[n]? = some token
  · rw [advance_of_eq htoken]
    cases k with
    | zero => rw [if_pos (by omega)]; exact ⟨fun _ => ⟨htoken, h.suffix⟩, fun _ => rfl⟩
    | succ k =>
      rw [if_neg (by omega)]
      exact ⟨nofun, fun hpart => absurd (h.le _ (by omega) hpart.2) (by omega)⟩
  · rw [advance_of_ne (ne_nil_of_length_pos (by omega)) htoken]
    refine ⟨nofun, fun hpart => ?_⟩
    have hle := h.le _ (by omega) hpart.2
    obtain rfl : k = 0 := by omega
    exact absurd hpart.1 htoken

lemma feed_le (hne : tokens ≠ []) (stream : List LlamaToken) :
    ∃ p, feed ⟨tokens, n⟩ stream = ⟨tokens, p⟩ ∧ p ≤ n + stream.length := by
  induction stream generalizing n with
  | nil => exact ⟨n, rfl, le_refl _⟩
  | cons token stream ih =>
    have hstep : ∃ p, (advance ⟨tokens, n⟩ token).1 = ⟨tokens, p⟩ ∧ p ≤ n + 1 := by
      by_cases htoken : tokens[n]? = some token
      · rw [advance_of_eq htoken]
        split
        · exact ⟨0, rfl, Nat.zero_le _⟩
        · exact ⟨n + 1, rfl, le_refl _⟩
      · rw [advance_of_ne hne htoken]
        refine ⟨_, rfl, ?_⟩
        split <;> omega
    obtain ⟨p, hp, hle⟩ := hstep
    obtain ⟨q, hq, hle'⟩ := ih (n := p)
    refine ⟨q, ?_, by rw [length_cons]; omega⟩
    rw [← hq, ← hp]
    rfl

lemma feed_take (hn : n < tokens.length) : feed ⟨tokens, 0⟩ (tokens.take n) = ⟨tokens, n⟩ := by
  induction n with
  | zero => rfl
  | succ n ih =>
    have hlt := Nat.lt_of_succ_lt hn
    rw [take_succ_eq_append_getElem hlt, feed_append, ih hlt]
    change (TokenMatcher.advance ⟨tokens, n⟩ _).1 = _
    rw [advance_of_eq (getElem?_eq_getElem hlt), if_neg (Nat.not_le.2 hn)]

lemma exists_first (hne : tokens ≠ []) (h : tokens <:+: stream) :
    ∃ pre token post, stream = pre ++ token :: post ∧ ¬ tokens <:+: pre ∧ tokens <:+ pre ++ [token] := by
  induction stream using reverseRecOn with
  | nil => exact absurd (infix_nil.1 h) hne
  | append_singleton stream token ih =>
    by_cases hpre : tokens <:+: stream
    · obtain ⟨pre, t, post, rfl, hfirst⟩ := ih hpre
      exact ⟨pre, t, post ++ [token], by rw [append_assoc, cons_append], hfirst⟩
    · exact ⟨stream, token, [], rfl, hpre, (infix_concat_iff.1 h).resolve_right hpre⟩

lemma Complete.restarts (hne : tokens ≠ []) (h : Complete tokens) : Restarts tokens := by
  intro n hn token htoken j hj hpart
  obtain ⟨s, hs⟩ := hpart
  -- the rest of the sequence completes an occurrence that began inside the start
  have hocc : tokens <:+: tokens.take n ++ [token] ++ tokens.drop j := by
    rw [← hs, append_assoc, take_append_drop]
    exact (suffix_append s tokens).isInfix
  obtain ⟨pre, t, post, heq, hpre, hlast⟩ := exists_first hne hocc
  have hlen := congrArg length heq
  have hle := hlast.length_le
  simp only [length_append, length_take, length_drop, length_cons, length_nil] at hlen hle
  obtain hshort | ⟨more, rfl⟩ : pre.length ≤ n ∨ ∃ more, pre = tokens.take n ++ [token] ++ more := by
    rcases lt_or_ge n pre.length with hlt | hge
    · refine .inr ?_
      have hprefix : tokens.take n ++ [token] <+: pre :=
        prefix_of_prefix_length_le (heq ▸ prefix_append _ _) (prefix_append pre (t :: post)) (by simp; omega)
      exact hprefix.imp fun _ => Eq.symm
    · exact .inl hge
  · have hwhole : tokens.take n ++ [token] = pre ++ [t] := by
      rw [append_cons pre t post] at heq
      refine (append_inj heq ?_).1
      rw [length_append, length_append, length_take]
      simp only [length_cons, length_nil]
      omega
    rw [← hwhole] at hlast
    have hlength : tokens.length = n + 1 := by omega
    have htokens := hlast.eq_of_length (by simp; omega)
    refine htoken ?_
    rw [htokens, getElem?_append_right (by simp), length_take]
    simp [min_eq_left hn.le]
  · obtain ⟨p, hp, hple⟩ : ∃ p, feed ⟨tokens, 0⟩ (tokens.take n ++ [token] ++ more) = ⟨tokens, p⟩ ∧ p ≤ 1 + more.length := by
      rw [feed_append, feed_append, feed_take hn]
      change ∃ p, feed (TokenMatcher.advance ⟨tokens, n⟩ token).1 more = _ ∧ _
      rw [advance_of_ne hne htoken]
      obtain ⟨p, hp, hple⟩ := feed_le (n := if tokens[0]? = some token then 1 else 0) hne more
      refine ⟨p, hp, hple.trans (Nat.add_le_add_right ?_ _)⟩
      split <;> omega
    have hfound := (h _ t hpre).2 hlast
    rw [hp] at hfound
    by_cases ht : tokens[p]? = some t
    · rw [advance_of_eq ht] at hfound
      simp only [length_append, length_take, length_cons, length_nil] at hlen
      split at hfound
      · omega
      · cases hfound
    · rw [advance_of_ne hne ht] at hfound
      cases hfound

/-- The first occurrence is found in every stream exactly if the sequence restarts with one token. -/
theorem complete_iff (token : LlamaToken) (tokens : List LlamaToken) :
    Complete (token :: tokens) ↔ Restarts (token :: tokens) := by
  refine ⟨Complete.restarts (cons_ne_nil _ _), fun hr stream t hocc => ?_⟩
  obtain ⟨n, hfeed, hat⟩ := at_feed (cons_ne_nil _ _) hr hocc
  rw [hfeed]
  exact hat.advance_snd

/-- The sequence 1, 1, 2 is missed in 1, 1, 1, 2. -/
theorem not_complete_twice : ¬ Complete [1, 1, 2] := by
  intro h
  exact absurd ((h [1, 1, 1] 2 (by decide)).2 ⟨[1], rfl⟩) (by decide)

/-- On every stream the position stays inside the sequence, and `advance` answers only a token that completes it. -/
theorem feed_sound (token : LlamaToken) (tokens stream : List LlamaToken) :
    (feed ⟨token :: tokens, 0⟩ stream).pos < (token :: tokens).length ∧
      ∀ next, ((feed ⟨token :: tokens, 0⟩ stream).advance next).2 = true → token :: tokens <:+ stream ++ [next] := by
  generalize hsequence : token :: tokens = sequence
  have hne : sequence ≠ [] := by
    rw [← hsequence]
    exact cons_ne_nil _ _
  have hpos := length_pos_of_ne_nil hne
  obtain ⟨n, hfeed, hlt, hpart⟩ : ∃ n, feed ⟨sequence, 0⟩ stream = ⟨sequence, n⟩ ∧ n < sequence.length ∧
      sequence.take n <:+ stream := by
    induction stream using reverseRecOn with
    | nil => exact ⟨0, rfl, hpos, nil_suffix⟩
    | append_singleton stream next ih =>
      obtain ⟨n, hfeed, hlt, hpart⟩ := ih
      rw [feed_append, hfeed, feed, foldl_cons, foldl_nil]
      by_cases hnext : sequence[n]? = some next
      · rw [advance_of_eq hnext]
        split
        next => exact ⟨0, rfl, hpos, nil_suffix⟩
        next hle => exact ⟨n + 1, rfl, Nat.not_le.1 hle, (take_suffix hlt).2 ⟨hnext, hpart⟩⟩
      · rw [advance_of_ne hne hnext]
        refine ⟨_, rfl, ?_⟩
        split
        next h0 =>
          refine ⟨lt_of_le_of_ne hpos fun hone => ?_, (take_suffix hpos).2 ⟨h0, nil_suffix⟩⟩
          obtain rfl : n = 0 := by omega
          exact hnext h0
        next => exact ⟨hpos, nil_suffix⟩
  rw [hfeed]
  refine ⟨hlt, fun next hnext => ?_⟩
  by_cases heq : sequence[n]? = some next
  · rw [advance_of_eq heq] at hnext
    split at hnext
    next hle =>
      rw [← take_of_length_le hle]
      exact (take_suffix hlt).2 ⟨heq, hpart⟩
    next => cases hnext
  · rw [advance_of_ne hne heq] at hnext
    cases hnext

end Mallana.Sampling.TokenMatcher
