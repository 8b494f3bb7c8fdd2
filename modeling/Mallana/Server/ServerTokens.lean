import Mallana.Server.Prompt

/-!
# Tokens with media

`server_tokens` keeps a list of tokens, with placeholders for images and sounds, and next to it a map from the first
placeholder of each chunk to the chunk. Two chunks side by side cannot be told apart in the list alone. Two operations
fail on that. `keep_first` asks whether the token before the cut starts a chunk: so it cuts behind the first token of a
chunk, and throws between two chunks. And `push_back` of another list throws at the first placeholder.
-/

namespace Mallana.Server

open List

/-- `LLAMA_TOKEN_NULL`, the placeholder. -/
def tokenNull : Int := -1

/-- An `mtmd_input_chunk` of an image or a sound. -/
structure MediaChunk where
  id : String
  nTokens : Nat
  nPos : Nat
  nTokens_pos : 0 < nTokens
  nPos_pos : 0 < nPos
deriving DecidableEq

/-- `server_tokens`. `media`: `map_idx_to_media`, in the order of its keys. -/
structure ServerTokens where
  hasMtmd : Bool
  media : List (Nat × MediaChunk)
  tokens : List Int
deriving DecidableEq

/-- `mtmd_input_chunk`. -/
inductive InputChunk where
  | text (tokens : List Int)
  | media (chunk : MediaChunk)

/-- How an operation ends, with the object that it leaves. -/
inductive Ending where
  | returns (s : ServerTokens)
  | throws (s : ServerTokens)
  | aborts
  | diverges
deriving DecidableEq

/-- The object that is left. -/
def Ending.left : Ending → Option ServerTokens
  | .returns s | .throws s => some s
  | .aborts | .diverges => none

/-- The assignment `map[k] = c`. -/
def mapSet (k : Nat) (c : MediaChunk) : List (Nat × MediaChunk) → List (Nat × MediaChunk)
  | [] => [(k, c)]
  | p :: m => if k < p.1 then (k, c) :: p :: m else if k = p.1 then (k, c) :: m else p :: mapSet k c m

namespace ServerTokens

/-- `find_chunk`; it throws where there is none. -/
def findChunk (s : ServerTokens) (idx : Nat) : Option MediaChunk := s.media.lookup idx

/-- `push_back` of a token. -/
def pushToken (s : ServerTokens) (tok : Int) : Ending :=
  if tok = tokenNull then .throws s else .returns { s with tokens := s.tokens ++ [tok] }

def pushEach (s : ServerTokens) : List Int → Ending
  | [] => .returns s
  | tok :: toks => match s.pushToken tok with
    | .returns s' => s'.pushEach toks
    | e => e

/-- `push_back` of a chunk. -/
def pushChunk (s : ServerTokens) : InputChunk → Ending
  | .text toks => s.pushEach toks
  | .media c =>
    if s.hasMtmd then
      .returns { s with
        tokens := s.tokens ++ replicate c.nTokens tokenNull
        media := mapSet s.tokens.length c s.media }
    else .aborts

/-- `push_back` of another object. The loop over its map never advances its iterator. -/
def pushTokens (s o : ServerTokens) : Ending :=
  match s.pushEach o.tokens with
  | .returns s' =>
    if o.hasMtmd then if s.hasMtmd then if o.media.isEmpty then .returns s' else .diverges else .aborts else .returns s'
  | e => e

/-- `keep_first` throws: the token before the cut and the one behind it are placeholders, and no chunk starts at the one
before it. -/
def Refuses (s : ServerTokens) (n : Nat) : Prop :=
  0 < n ∧ s.tokens[n - 1]? = some tokenNull ∧ s.tokens[n]? = some tokenNull ∧ s.findChunk (n - 1) = none

instance (s : ServerTokens) (n : Nat) : Decidable (s.Refuses n) := inferInstanceAs (Decidable (_ ∧ _ ∧ _ ∧ _))

/-- `keep_first`. -/
def keepFirst (s : ServerTokens) (n : Nat) : Ending :=
  if n ≤ s.tokens.length then
    if s.hasMtmd then
      if n = s.tokens.length then .returns s
      else if s.Refuses n then .throws s
      else .returns { s with media := s.media.filter (·.1 < n), tokens := s.tokens.take n }
    else .returns { s with tokens := s.tokens.take n }
  else .aborts

def clear (s : ServerTokens) : ServerTokens := { s with media := [], tokens := [] }

/-- `clone`: the chunks are put in one after the other. -/
def clone (s : ServerTokens) : ServerTokens := { s with media := s.media.foldl (fun m p => mapSet p.1 p.2 m) [] }

/-- The loop of `get_common_prefix` with media, from `i` on; each round takes at least one token. -/
def commonFrom (a b : ServerTokens) : Nat → Nat → Option Nat
  | 0, _ => some (min a.tokens.length b.tokens.length)
  | fuel + 1, i =>
    if i < min a.tokens.length b.tokens.length then
      if a.tokens[i]? = some tokenNull ∧ b.tokens[i]? = some tokenNull then do
        let ca ← a.findChunk i
        let cb ← b.findChunk i
        if ca.id = cb.id ∧ ca.nTokens = cb.nTokens then commonFrom a b fuel (i + ca.nTokens) else some i
      else if a.tokens[i]? = b.tokens[i]? then commonFrom a b fuel (i + 1)
      else some i
    else some (min a.tokens.length b.tokens.length)

/-- `get_common_prefix`; `none` where it throws. -/
def commonPrefix (a b : ServerTokens) : Option Nat :=
  if a.hasMtmd then commonFrom a b (min a.tokens.length b.tokens.length) 0
  else some (getCommonPrefix a.tokens b.tokens)

/-- The keys of the map are the starts of blocks of placeholders, which lie apart and cover all placeholders. -/
structure Placed (s : ServerTokens) : Prop where
  blocks : ∀ i, s.tokens[i]? = some tokenNull ↔ ∃ p ∈ s.media, p.1 ≤ i ∧ i < p.1 + p.2.nTokens
  apart : s.media.Pairwise fun p q => p.1 + p.2.nTokens ≤ q.1

/-- A cut at `n` would split a chunk. -/
def Inside (s : ServerTokens) (n : Nat) : Prop := ∃ p ∈ s.media, p.1 < n ∧ n < p.1 + p.2.nTokens

instance (s : ServerTokens) (n : Nat) : Decidable (s.Inside n) :=
  inferInstanceAs (Decidable (∃ p ∈ s.media, p.1 < n ∧ n < p.1 + p.2.nTokens))

/-- The cut is not behind the first of several tokens of a chunk, nor between a chunk of several tokens and another. -/
def Cuttable (s : ServerTokens) (n : Nat) : Prop :=
  ∀ p ∈ s.media, 1 < p.2.nTokens → n ≠ p.1 + 1 ∧ ∀ q ∈ s.media, n = p.1 + p.2.nTokens → q.1 ≠ n

section
variable {s : ServerTokens} {p q : Nat × MediaChunk} {n i : Nat}

lemma Placed.eq_or (h : s.Placed) (hp : p ∈ s.media) (hq : q ∈ s.media) :
    p = q ∨ p.1 + p.2.nTokens ≤ q.1 ∨ q.1 + q.2.nTokens ≤ p.1 := by
  have happart := h.apart
  generalize s.media = m at happart hp hq
  induction happart with
  | nil => cases hp
  | @cons r m hr _ ih =>
    rcases mem_cons.1 hp with rfl | hp' <;> rcases mem_cons.1 hq with rfl | hq'
    · exact .inl rfl
    · exact .inr (.inl (hr q hq'))
    · exact .inr (.inr (hr p hp'))
    · exact ih hp' hq'

lemma Placed.end_le (h : s.Placed) (hp : p ∈ s.media) : p.1 + p.2.nTokens ≤ s.tokens.length := by
  have hpos := p.2.nTokens_pos
  have hlast := (h.blocks (p.1 + p.2.nTokens - 1)).2 ⟨p, hp, by omega, by omega⟩
  have hlt := (List.getElem?_eq_some_iff.1 hlast).1
  omega

lemma Placed.findChunk_eq (h : s.Placed) {c : MediaChunk} : s.findChunk i = some c ↔ (i, c) ∈ s.media := by
  have hkeys : ∀ p ∈ s.media, ∀ q ∈ s.media, p.1 = q.1 → p = q := by
    intro p hp q hq hkey
    have := p.2.nTokens_pos
    have := q.2.nTokens_pos
    rcases h.eq_or hp hq with heq | hle | hle
    · exact heq
    · omega
    · omega
  constructor
  · intro hfind
    obtain ⟨l, r, hm, -⟩ := lookup_eq_some_iff.1 hfind
    rw [hm]
    exact mem_append_right l mem_cons_self
  · intro hmem
    cases hfind : s.findChunk i with
    | none =>
      have hne := lookup_eq_none_iff.1 hfind (i, c) hmem
      rw [bne_self_eq_false] at hne
      cases hne
    | some d =>
      obtain ⟨l, r, hm, -⟩ := lookup_eq_some_iff.1 hfind
      have hd : (i, d) ∈ s.media := by
        rw [hm]
        exact mem_append_right l mem_cons_self
      cases hkeys _ hmem _ hd rfl
      rfl

lemma Placed.chunk_at (h : s.Placed) (hn : ¬ s.Inside n) (htok : s.tokens[n]? = some tokenNull) :
    ∃ c, (n, c) ∈ s.media := by
  obtain ⟨p, hp, hle, hlt⟩ := (h.blocks n).1 htok
  by_cases hstart : p.1 = n
  · exact ⟨p.2, by rw [← hstart]; exact hp⟩
  · exact absurd ⟨p, hp, by omega, hlt⟩ hn

lemma Placed.not_inside_end (h : s.Placed) (hp : p ∈ s.media) : ¬ s.Inside (p.1 + p.2.nTokens) := by
  rintro ⟨q, hq, hlo, hhi⟩
  have := q.2.nTokens_pos
  rcases h.eq_or hp hq with rfl | hle | hle <;> omega

lemma Placed.not_inside_succ (h : s.Placed) (htok : s.tokens[n]? ≠ some tokenNull) : ¬ s.Inside (n + 1) := by
  rintro ⟨q, hq, hlo, hhi⟩
  exact htok ((h.blocks n).2 ⟨q, hq, by omega, by omega⟩)

end

/-- An operation on one object. -/
inductive Op where
  | token (tok : Int)
  | chunk (c : InputChunk)
  | tokens (o : ServerTokens)
  | keepFirst (n : Nat)
  | clear
  | clone

def run (s : ServerTokens) : Op → Ending
  | .token tok => s.pushToken tok
  | .chunk c => s.pushChunk c
  | .tokens o => s.pushTokens o
  | .keepFirst n => s.keepFirst n
  | .clear => .returns s.clear
  | .clone => .returns s.clone

/-- Another object that is put behind has no chunks, and a cut is not at a wrong place. -/
def Meets (s : ServerTokens) : Op → Prop
  | .tokens o => o.media = []
  | .keepFirst n => s.Cuttable n
  | _ => True

/-- The objects of a run whose steps all meet the condition, also where a step throws. -/
inductive Built : ServerTokens → Prop where
  | empty : Built { hasMtmd := true, media := [], tokens := [] }
  | step {s s' op} (hs : Built s) (hother : ∀ o, op = .tokens o → Built o) (hmeets : s.Meets op)
      (hrun : (s.run op).left = some s') : Built s'

/-- What an operation is to do. -/
def Right (s : ServerTokens) : Op → Prop
  | .token tok =>
    s.pushToken tok = if tok = tokenNull then .throws s else .returns { s with tokens := s.tokens ++ [tok] }
  | .chunk (.text toks) => s.pushChunk (.text toks) =
      if tokenNull ∈ toks then .throws { s with tokens := s.tokens ++ toks.takeWhile (· ≠ tokenNull) }
      else .returns { s with tokens := s.tokens ++ toks }
  | .chunk (.media c) => s.pushChunk (.media c) = .returns { s with
      media := s.media ++ [(s.tokens.length, c)]
      tokens := s.tokens ++ replicate c.nTokens tokenNull }
  | .tokens o => s.pushTokens o = .returns { s with
      media := s.media ++ o.media.map fun p => (s.tokens.length + p.1, p.2)
      tokens := s.tokens ++ o.tokens }
  | .keepFirst n => n ≤ s.tokens.length → (s.Inside n → s.keepFirst n = .throws s) ∧
      (¬ s.Inside n → s.keepFirst n = .returns { s with
        media := s.media.filter (·.1 < n)
        tokens := s.tokens.take n })
  | .clear => s.clear = { s with media := [], tokens := [] }
  | .clone => s.clone = s

section
variable {s o : ServerTokens} {n : Nat}

lemma pushEach_eq (s : ServerTokens) (toks : List Int) : s.pushEach toks =
    if tokenNull ∈ toks then .throws { s with tokens := s.tokens ++ toks.takeWhile (· ≠ tokenNull) }
    else .returns { s with tokens := s.tokens ++ toks } := by
  induction toks generalizing s with
  | nil => simp [pushEach]
  | cons tok toks ih =>
    by_cases hnull : tok = tokenNull
    · simp [pushEach, pushToken, hnull]
    · simp [pushEach, pushToken, hnull, ih, Ne.symm hnull]

lemma mapSet_last {m : List (Nat × MediaChunk)} {k : Nat} {c : MediaChunk} (h : ∀ p ∈ m, p.1 < k) :
    mapSet k c m = m ++ [(k, c)] := by
  induction m with
  | nil => rfl
  | cons p m ih =>
    have hp := h p mem_cons_self
    rw [mapSet, if_neg (by omega), if_neg (by omega), ih fun q hq => h q (mem_cons_of_mem p hq), cons_append]

section
variable (h : s.Placed)
include h

lemma Placed.key_lt {p : Nat × MediaChunk} (hp : p ∈ s.media) : p.1 < s.tokens.length := by
  have := h.end_le hp
  have := p.2.nTokens_pos
  omega

lemma Placed.clone_eq : s.clone = s := by
  have hfold : ∀ rest done : List (Nat × MediaChunk),
      (done ++ rest).Pairwise (fun p q => p.1 + p.2.nTokens ≤ q.1) →
      rest.foldl (fun m p => mapSet p.1 p.2 m) done = done ++ rest := by
    intro rest
    induction rest with
    | nil =>
      intro done _
      rw [append_nil, foldl_nil]
    | cons p rest ih =>
      intro done hpair
      have hlast : ∀ q ∈ done, q.1 < p.1 := by
        intro q hq
        have := (pairwise_append.1 hpair).2.2 q hq p mem_cons_self
        have := q.2.nTokens_pos
        omega
      rw [foldl_cons, mapSet_last hlast, ih _ (by rw [append_assoc, singleton_append]; exact hpair), append_assoc,
        singleton_append]
  rw [clone, hfold s.media [] h.apart, nil_append]

lemma Placed.append {toks : List Int} (htoks : ∀ tok ∈ toks, tok ≠ tokenNull) :
    Placed { s with tokens := s.tokens ++ toks } where
  blocks i := by
    rw [← h.blocks i, getElem?_append]
    split
    · rfl
    · rename_i hi
      have hnone : s.tokens[i]? = none := getElem?_eq_none (by omega)
      rw [hnone]
      constructor
      · exact fun hmem => absurd rfl (htoks _ (mem_of_getElem? hmem))
      · exact fun hmem => absurd hmem (by simp)
  apart := h.apart

lemma Placed.append_media (c : MediaChunk) : Placed { s with
    media := s.media ++ [(s.tokens.length, c)]
    tokens := s.tokens ++ replicate c.nTokens tokenNull } where
  blocks i := by
    simp only [mem_append, mem_singleton, or_and_right, exists_or, exists_eq_left]
    rw [← h.blocks i, getElem?_append]
    split
    · exact (or_iff_left (by omega)).symm
    · rename_i hi
      have hnone : s.tokens[i]? = none := getElem?_eq_none (by omega)
      rw [hnone, getElem?_replicate]
      grind
  apart := by
    refine pairwise_append.2 ⟨h.apart, pairwise_singleton _ _, ?_⟩
    intro p hp q hq
    rw [mem_singleton.1 hq]
    exact h.end_le hp

lemma Placed.take (hn : ¬ s.Inside n) :
    Placed { s with media := s.media.filter (·.1 < n), tokens := s.tokens.take n } where
  blocks i := by
    rw [getElem?_take]
    simp only [mem_filter, decide_eq_true_eq]
    constructor
    · intro hi
      split at hi
      · rename_i hlt
        obtain ⟨p, hp, hle, hend⟩ := (h.blocks i).1 hi
        exact ⟨p, ⟨hp, by omega⟩, hle, hend⟩
      · cases hi
    · rintro ⟨p, ⟨hp, hlt⟩, hle, hend⟩
      have hwhole : ¬ n < p.1 + p.2.nTokens := fun hsplit => hn ⟨p, hp, hlt, hsplit⟩
      rw [if_pos (by omega)]
      exact (h.blocks i).2 ⟨p, hp, hle, hend⟩
  apart := h.apart.filter _

lemma Placed.refuses_inside {p : Nat × MediaChunk} (hp : p ∈ s.media) (hlo : p.1 < n)
    (hhi : n < p.1 + p.2.nTokens) : (s.Refuses n ↔ n ≠ p.1 + 1) ∧ (s.Cuttable n ↔ n ≠ p.1 + 1) := by
  have hstarts : ∀ q ∈ s.media, q.1 < p.1 + p.2.nTokens → p.1 < q.1 + q.2.nTokens → q = p := by
    intro q hq hless hmore
    rcases h.eq_or hp hq with heq | hle | hle
    · exact heq.symm
    · omega
    · omega
  constructor
  · constructor
    · rintro ⟨-, -, -, hnone⟩ rfl
      rw [Nat.add_sub_cancel, h.findChunk_eq.2 hp] at hnone
      cases hnone
    · intro hne
      refine ⟨by omega, (h.blocks _).2 ⟨p, hp, by omega, by omega⟩, (h.blocks n).2 ⟨p, hp, by omega, hhi⟩, ?_⟩
      cases hfind : s.findChunk (n - 1) with
      | none => rfl
      | some c =>
        have hc := h.findChunk_eq.1 hfind
        have := c.nTokens_pos
        have heq := congrArg Prod.fst (hstarts _ hc (by dsimp only; omega) (by dsimp only; omega))
        dsimp only at heq
        omega
  · constructor
    · exact fun hcut => (hcut p hp (by omega)).1
    · intro hne q hq hmany
      constructor
      · rintro rfl
        exact hne (by rw [hstarts q hq (by omega) (by omega)])
      · rintro r hr - rfl
        have := r.2.nTokens_pos
        rw [hstarts r hr hhi (by omega)] at hlo
        exact absurd hlo (lt_irrefl _)

lemma Placed.refuses_boundary (hn : ¬ s.Inside n) : s.Refuses n ↔ ¬ s.Cuttable n := by
  constructor
  · rintro ⟨hpos, hbefore, hat, hnone⟩ hcut
    obtain ⟨p, hp, hle, hlt⟩ := (h.blocks _).1 hbefore
    obtain ⟨c, hc⟩ := h.chunk_at hn hat
    have hend : n = p.1 + p.2.nTokens := by
      by_contra hne
      exact hn ⟨p, hp, by omega, by omega⟩
    have hstart : p.1 ≠ n - 1 := by
      intro hstart
      rw [← hstart, h.findChunk_eq.2 hp] at hnone
      cases hnone
    exact (hcut p hp (by omega)).2 (n, c) hc hend rfl
  · intro hcut
    simp only [Cuttable, not_forall, not_and_or, not_not] at hcut
    obtain ⟨p, hp, hmany, hsucc | ⟨q, hq, hend, hstart⟩⟩ := hcut
    · exact absurd ⟨p, hp, by omega, by omega⟩ hn
    · have := q.2.nTokens_pos
      refine ⟨by omega, (h.blocks _).2 ⟨p, hp, by omega, by omega⟩,
        (h.blocks n).2 ⟨q, hq, by omega, by omega⟩, ?_⟩
      cases hfind : s.findChunk (n - 1) with
      | none => rfl
      | some c =>
        have hc := h.findChunk_eq.1 hfind
        have := c.nTokens_pos
        rcases h.eq_or hp hc with rfl | hle | hle
        · dsimp only at hend hmany
          omega
        · dsimp only at hle
          omega
        · dsimp only at hle
          omega

lemma Placed.keepFirst_eq (hm : s.hasMtmd = true) (hn : n ≤ s.tokens.length) :
    s.keepFirst n = if s.Refuses n then .throws s
      else .returns { s with media := s.media.filter (·.1 < n), tokens := s.tokens.take n } := by
  rw [keepFirst, if_pos hn, if_pos hm]
  split
  · rename_i hall
    subst hall
    have hmedia : s.media.filter (·.1 < s.tokens.length) = s.media :=
      filter_eq_self.2 fun p hp => decide_eq_true (h.key_lt hp)
    rw [if_neg, hmedia, take_length]
    rintro ⟨-, -, hat, -⟩
    rw [getElem?_eq_none (le_refl _)] at hat
    cases hat
  · rfl

end

lemma Placed.right_keepFirst (h : s.Placed) (hm : s.hasMtmd = true) : s.Right (.keepFirst n) ↔ s.Cuttable n := by
  by_cases hn : n ≤ s.tokens.length
  · rw [Right, h.keepFirst_eq hm hn]
    by_cases hin : s.Inside n
    · obtain ⟨p, hp, hlo, hhi⟩ := id hin
      obtain ⟨hrefuses, hcut⟩ := h.refuses_inside hp hlo hhi
      rw [hcut, ← hrefuses]
      simp [hn, hin]
    · rw [← @not_not (s.Cuttable n), ← h.refuses_boundary hin]
      simp [hn, hin]
  · refine iff_of_true (fun hle => absurd hle hn) ?_
    intro p hp hmany
    have := h.end_le hp
    refine ⟨by omega, ?_⟩
    intro q hq hend
    omega

lemma Placed.null_mem (h : o.Placed) : tokenNull ∈ o.tokens ↔ o.media ≠ [] := by
  constructor
  · intro hmem
    obtain ⟨i, hi⟩ := mem_iff_getElem?.mp hmem
    obtain ⟨p, hp, -⟩ := (h.blocks i).1 hi
    exact ne_nil_of_mem hp
  · intro hne
    obtain ⟨p, hp⟩ := exists_mem_of_ne_nil _ hne
    exact mem_of_getElem? ((h.blocks p.1).2 ⟨p, hp, le_refl _, Nat.lt_add_of_pos_right p.2.nTokens_pos⟩)

lemma Placed.pushTokens_eq (h : o.Placed) (hm : s.hasMtmd = true) : s.pushTokens o =
    if o.media = [] then .returns { s with tokens := s.tokens ++ o.tokens }
    else .throws { s with tokens := s.tokens ++ o.tokens.takeWhile (· ≠ tokenNull) } := by
  rw [pushTokens, pushEach_eq]
  by_cases hmedia : o.media = []
  · simp [h.null_mem, hmedia, hm]
  · simp [h.null_mem, hmedia]

lemma Placed.right_tokens (h : o.Placed) (hm : s.hasMtmd = true) : s.Right (.tokens o) ↔ o.media = [] := by
  rw [Right, h.pushTokens_eq hm]
  by_cases hmedia : o.media = [] <;> simp [hmedia]

/-- An operation that meets its condition keeps the media in their places. -/
lemma Placed.step (h : s.Placed) (hm : s.hasMtmd = true) {op : Op}
    (hother : ∀ o, op = .tokens o → o.Placed ∧ o.hasMtmd = true) (hmeets : s.Meets op) {s' : ServerTokens}
    (hrun : (s.run op).left = some s') : s'.Placed ∧ s'.hasMtmd = true := by
  have heach : ∀ toks, (s.pushEach toks).left = some s' → s'.Placed ∧ s'.hasMtmd = true := by
    intro toks hrun
    rw [pushEach_eq] at hrun
    split at hrun
    · cases hrun
      exact ⟨h.append fun tok htok => of_decide_eq_true (all_eq_true.1 all_takeWhile tok htok), hm⟩
    · rename_i hnull
      cases hrun
      exact ⟨h.append fun tok htok heq => hnull (heq ▸ htok), hm⟩
  cases op with
  | token tok =>
    refine heach [tok] ?_
    have heq : s.pushEach [tok] = s.run (.token tok) := by
      rw [pushEach, run]
      cases s.pushToken tok <;> rfl
    rwa [heq]
  | chunk c =>
    cases c with
    | text toks => exact heach toks hrun
    | media c =>
      rw [run, pushChunk, if_pos hm, mapSet_last fun p hp => h.key_lt hp] at hrun
      cases hrun
      exact ⟨h.append_media c, hm⟩
  | tokens o =>
    have hmedia : o.media = [] := hmeets
    rw [run, (hother o rfl).1.pushTokens_eq hm, if_pos hmedia] at hrun
    cases hrun
    exact ⟨h.append fun tok htok heq => (hother o rfl).1.null_mem.1 (heq ▸ htok) hmedia, hm⟩
  | keepFirst n =>
    by_cases hn : n ≤ s.tokens.length
    · have hright := (h.right_keepFirst hm).2 hmeets hn
      by_cases hin : s.Inside n
      · rw [run, hright.1 hin] at hrun
        cases hrun
        exact ⟨h, hm⟩
      · rw [run, hright.2 hin] at hrun
        cases hrun
        exact ⟨h.take hin, hm⟩
    · rw [run, ServerTokens.keepFirst, if_neg hn] at hrun
      cases hrun
  | clear =>
    cases hrun
    exact ⟨⟨fun i => by simp [ServerTokens.clear], Pairwise.nil⟩, hm⟩
  | clone =>
    rw [run, h.clone_eq] at hrun
    cases hrun
    exact ⟨h, hm⟩

lemma Built.placed (h : Built s) : s.Placed ∧ s.hasMtmd = true := by
  induction h with
  | empty => exact ⟨⟨fun i => by simp, Pairwise.nil⟩, rfl⟩
  | step _ _ hmeets hrun ih ihother => exact ih.1.step ih.2 ihother hmeets hrun

lemma Placed.commonFrom_eq (h : s.Placed) (ho : o.Placed) : ∀ {fuel i : Nat},
    min s.tokens.length o.tokens.length ≤ i + fuel → i ≤ min s.tokens.length o.tokens.length → ¬ s.Inside i →
    ¬ o.Inside i → ∃ n, commonFrom s o fuel i = some n ∧ n ≤ s.tokens.length ∧ ¬ s.Inside n := by
  intro fuel
  induction fuel with
  | zero =>
    intro i hfuel hi hs _
    obtain rfl : i = min s.tokens.length o.tokens.length := by omega
    exact ⟨_, rfl, min_le_left _ _, hs⟩
  | succ fuel ih =>
    intro i hfuel hi hs hos
    rw [commonFrom]
    split
    · split
      · rename_i hnull
        obtain ⟨c, hc⟩ := h.chunk_at hs hnull.1
        obtain ⟨d, hd⟩ := ho.chunk_at hos hnull.2
        rw [h.findChunk_eq.2 hc, ho.findChunk_eq.2 hd]
        simp only [Option.bind_eq_bind, Option.bind_some]
        split
        · rename_i hsame
          have hend := h.end_le hc
          have hendo := ho.end_le hd
          have hafter := ho.not_inside_end hd
          have := c.nTokens_pos
          dsimp only at hend hendo hafter
          rw [← hsame.2] at hendo hafter
          exact ih (by omega) (by omega) (h.not_inside_end hc) hafter
        · exact ⟨i, rfl, by omega, hs⟩
      · rename_i hnull
        split
        · rename_i hsame
          have hnot : s.tokens[i]? ≠ some tokenNull := fun ht => hnull ⟨ht, by rw [← hsame]; exact ht⟩
          exact ih (by omega) (by omega) (h.not_inside_succ hnot) (ho.not_inside_succ (by rw [← hsame]; exact hnot))
        · exact ⟨i, rfl, by omega, hs⟩
    · exact ⟨_, rfl, min_le_left _ _, by rwa [show min s.tokens.length o.tokens.length = i by omega]⟩

end

/-- In every object of such a run the map fits the placeholders, no operation runs forever, an operation does what it is
to do exactly under the condition, and a cut at the common prefix with another object throws only between two chunks. -/
theorem placed_of_built {s : ServerTokens} (h : Built s) : s.Placed ∧
      (∀ op, (∀ o, op = .tokens o → Built o) → s.run op ≠ .diverges ∧ (s.Right op ↔ s.Meets op)) ∧
      ∀ o, Built o → ∃ n, s.commonPrefix o = some n ∧ n ≤ s.tokens.length ∧
        (s.keepFirst n = .throws s ↔ ¬ s.Cuttable n) := by
  obtain ⟨hs, hm⟩ := h.placed
  refine ⟨hs, ?_, ?_⟩
  · intro op hother
    cases op with
    | token tok =>
      refine ⟨?_, iff_of_true rfl trivial⟩
      rw [run, pushToken]
      split <;> exact Ending.noConfusion
    | chunk c =>
      cases c with
      | text toks =>
        refine ⟨?_, iff_of_true (s.pushEach_eq toks) trivial⟩
        rw [run, pushChunk, pushEach_eq]
        split <;> exact Ending.noConfusion
      | media c =>
        have heq : s.Right (.chunk (.media c)) := by
          rw [Right, pushChunk, if_pos hm, mapSet_last fun p hp => hs.key_lt hp]
        refine ⟨?_, iff_of_true heq trivial⟩
        rw [run, heq]
        exact Ending.noConfusion
    | tokens o =>
      obtain ⟨ho, -⟩ := (hother o rfl).placed
      refine ⟨?_, ho.right_tokens hm⟩
      rw [run, ho.pushTokens_eq hm]
      split <;> exact Ending.noConfusion
    | keepFirst n =>
      refine ⟨?_, hs.right_keepFirst hm⟩
      rw [run]
      by_cases hn : n ≤ s.tokens.length
      · rw [hs.keepFirst_eq hm hn]
        split <;> exact Ending.noConfusion
      · rw [ServerTokens.keepFirst, if_neg hn]
        exact Ending.noConfusion
    | clear => exact ⟨Ending.noConfusion, iff_of_true rfl trivial⟩
    | clone => exact ⟨Ending.noConfusion, iff_of_true hs.clone_eq trivial⟩
  · intro o ho
    obtain ⟨hos, -⟩ := ho.placed
    have hzero : ∀ t : ServerTokens, ¬ t.Inside 0 := fun t ⟨p, _, hlt, _⟩ => Nat.not_lt_zero _ hlt
    obtain ⟨n, hn, hle, hin⟩ := hs.commonFrom_eq hos (Nat.le_of_eq (Nat.zero_add _).symm) (Nat.zero_le _) (hzero s) (hzero o)
    refine ⟨n, by rw [commonPrefix, if_pos hm, hn], hle, ?_⟩
    rw [hs.keepFirst_eq hm hle, ← hs.refuses_boundary hin]
    by_cases hrefuses : s.Refuses n <;> simp [hrefuses]

def picture (id : String) (n : Nat) (h : 0 < n) : MediaChunk := ⟨id, n, n, h, h⟩

/-- Two pictures of two tokens, side by side. -/
def pictures : ServerTokens where
  hasMtmd := true
  media := [(0, picture "a" 2 Nat.two_pos), (2, picture "b" 2 Nat.two_pos)]
  tokens := [tokenNull, tokenNull, tokenNull, tokenNull]

lemma built_pictures : Built pictures :=
  @Built.step { hasMtmd := true, media := [(0, picture "a" 2 (by decide))], tokens := [tokenNull, tokenNull] } pictures
    (.chunk (.media (picture "b" 2 (by decide))))
    (@Built.step { hasMtmd := true, media := [], tokens := [] } _ (.chunk (.media (picture "a" 2 (by decide)))) .empty
      (fun _ h => by cases h) trivial rfl)
    (fun _ h => by cases h) trivial rfl

theorem placed_pictures : pictures.Placed ∧
    (∀ op, (∀ o, op = .tokens o → Built o) → pictures.run op ≠ .diverges ∧ (pictures.Right op ↔ pictures.Meets op)) ∧
    ∀ o, Built o → ∃ n, pictures.commonPrefix o = some n ∧ n ≤ pictures.tokens.length ∧
      (pictures.keepFirst n = .throws pictures ↔ ¬ pictures.Cuttable n) := placed_of_built built_pictures

/-- The cut within the first picture is made, the cut between the pictures throws, and so does `push_back`. -/
theorem pictures_cut : Built pictures ∧ pictures.Inside 1 ∧ pictures.keepFirst 1 ≠ .throws pictures ∧
    ¬ pictures.Inside 2 ∧ pictures.keepFirst 2 = .throws pictures ∧
    pictures.pushTokens pictures = .throws pictures := ⟨built_pictures, by decide⟩

end ServerTokens

end Mallana.Server
