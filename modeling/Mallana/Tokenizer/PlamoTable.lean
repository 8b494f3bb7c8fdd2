import Mallana.Tokenizer.Plamo

/-!
# The table of PLaMo-2

If the tokens are well-formed UTF-8, then the suffixes are closed under taking away the first code point, the blocks of
the table stand where `suffix_to_id` says, and `to_suffix_id_` puts a code point in front of a suffix.
-/

namespace Mallana.Tokenizer

open List Option

variable {F : Type}

def Canonical (text : Str) : Prop := cptsToUtf8 (cptsFromUtf8 text) = some text

/-- `rest` is the text without its first code point. -/
def Tail (text rest : Str) : Prop := ∃ c cs, cptsFromUtf8 text = c :: cs ∧ cptsToUtf8 cs = some rest

def SuffixScores.keys (m : SuffixScores F) : List Str := m.map Prod.fst

lemma has_iff {m : SuffixScores F} {s : Str} : m.has s = true ↔ s ∈ m.keys := by
  simp only [SuffixScores.has, SuffixScores.keys, List.any_eq_true, List.mem_map, beq_iff_eq]

def addKey (keys : List Str) (s : Str) : List Str := if s ∈ keys then keys else keys ++ [s]

lemma keys_setScore (m : SuffixScores F) (text : Str) (score : F) :
    (setScore m text score).keys = addKey m.keys text := by
  unfold setScore addKey
  split
  · rename_i hhas
    rw [if_pos (has_iff.1 hhas), SuffixScores.keys, SuffixScores.keys, List.map_map]
    apply map_congr_left
    intro p _
    simp only [Function.comp_apply]
    split
    · rename_i heq
      exact heq.symm
    · rfl
  · rename_i hhas
    rw [if_neg fun hmem => hhas (has_iff.2 hmem)]
    simp [SuffixScores.keys]

lemma keys_addSuffix (m : SuffixScores F) (s : Str) : (addSuffix m s).keys = addKey m.keys s := by
  unfold addSuffix addKey
  split
  · rename_i hhas
    rw [if_pos (has_iff.1 hhas)]
  · rename_i hhas
    rw [if_neg fun hmem => hhas (has_iff.2 hmem)]
    simp [SuffixScores.keys]

lemma keys_addSuffixes : ∀ (ts : List Str) (m : SuffixScores F),
    (ts.foldl addSuffix m).keys = ts.foldl addKey m.keys := by
  intro ts
  induction ts with
  | nil =>
    intro m
    rfl
  | cons t ts ih =>
    intro m
    rw [foldl_cons, ih, keys_addSuffix]
    rfl

lemma mem_addKey {keys : List Str} {s t : Str} : s ∈ addKey keys t ↔ s = t ∨ s ∈ keys := by
  unfold addKey
  split
  · rename_i hmem
    constructor
    · exact .inr
    · rintro (rfl | h)
      · exact hmem
      · exact h
  · rw [mem_append, mem_singleton]
    exact or_comm

lemma mem_addKeys {s : Str} : ∀ {ts keys : List Str}, s ∈ ts.foldl addKey keys ↔ s ∈ ts ∨ s ∈ keys := by
  intro ts
  induction ts with
  | nil =>
    intro keys
    simp
  | cons t ts ih =>
    intro keys
    rw [foldl_cons, ih, mem_addKey, mem_cons]
    tauto

lemma nodup_addKey {keys : List Str} (h : keys.Nodup) (t : Str) : (addKey keys t).Nodup := by
  unfold addKey
  split
  · exact h
  · rename_i hmem
    refine nodup_append.2 ⟨h, nodup_singleton _, ?_⟩
    intro a ha b hb heq
    rw [mem_singleton.1 hb] at heq
    exact hmem (heq ▸ ha)

lemma nodup_addKeys : ∀ {ts keys : List Str}, keys.Nodup → (ts.foldl addKey keys).Nodup := by
  intro ts
  induction ts with
  | nil =>
    intro keys h
    exact h
  | cons t ts ih =>
    intro keys h
    exact ih (nodup_addKey h t)

/-- The suffixes are well formed and closed under taking away the first code point. -/
structure Closed (keys : List Str) : Prop where
  nodup : keys.Nodup
  ne_nil : ∀ s ∈ keys, s ≠ []
  canonical : ∀ s ∈ keys, Canonical s
  tail : ∀ s ∈ keys, ∀ rest, Tail s rest → rest = [] ∨ rest ∈ keys

lemma mapM_eq_some {α β : Type} {f : α → Option β} :
    ∀ {xs : List α} {ys : List β}, xs.mapM f = some ys → ∀ x ∈ xs, ∃ y ∈ ys, f x = some y := by
  intro xs
  induction xs with
  | nil =>
    intro ys _ x hx
    cases hx
  | cons a xs ih =>
    intro ys h x hx
    rw [mapM_cons] at h
    obtain ⟨z, hz, h⟩ := bind_eq_some_iff.1 h
    obtain ⟨zs, hzs, h⟩ := bind_eq_some_iff.1 h
    cases h
    rcases mem_cons.1 hx with rfl | hx
    · exact ⟨z, mem_cons_self, hz⟩
    · obtain ⟨y, hy, hfy⟩ := ih hzs x hx
      exact ⟨y, mem_cons_of_mem _ hy, hfy⟩

lemma map_of_mapM {α β γ : Type} {f : α → Option β} {g : β → γ} {k : α → γ} (hf : ∀ x y, f x = some y → g y = k x) :
    ∀ {xs : List α} {ys : List β}, xs.mapM f = some ys → ys.map g = xs.map k := by
  intro xs
  induction xs with
  | nil =>
    intro ys h
    cases h
    rfl
  | cons x xs ih =>
    intro ys h
    rw [mapM_cons] at h
    obtain ⟨y, hy, h⟩ := bind_eq_some_iff.1 h
    obtain ⟨zs, hzs, h⟩ := bind_eq_some_iff.1 h
    cases h
    rw [map_cons, map_cons, hf x y hy, ih hzs]

lemma cptsToUtf8_nil_iff {cs : List UInt32} : cptsToUtf8 cs = some [] ↔ cs = [] := by
  constructor
  · intro h
    exact (cptsFromUtf8_encode h).symm
  · rintro rfl
    rfl

lemma Tail.drop {cs : List UInt32} {i : Nat} {s rest : Str} (hs : cptsToUtf8 (cs.drop i) = some s) (h : Tail s rest) :
    i < cs.length ∧ cptsToUtf8 (cs.drop (i + 1)) = some rest := by
  obtain ⟨c, ds, hcs, hrest⟩ := h
  rw [cptsFromUtf8_encode hs] at hcs
  have hlt : i < cs.length := by
    by_contra hge
    rw [drop_eq_nil_of_le (Nat.le_of_not_lt hge)] at hcs
    cases hcs
  rw [drop_eq_getElem_cons hlt] at hcs
  cases hcs
  exact ⟨hlt, hrest⟩

/-- With a token all its suffixes are keys. -/
lemma Closed.addToken {m m' : SuffixScores F} {d : TokenData F} (h : Closed m.keys) (hne : d.text ≠ [])
    (hd : d.built.byte = false → Canonical d.text) (hm : addToken m d = some m') : Closed m'.keys := by
  unfold Tokenizer.addToken at hm
  split at hm
  · cases hm
    exact h
  · rename_i hbyte
    have hcanon := hd (by simpa using hbyte)
    obtain ⟨suffixes, hsuf, hm⟩ := bind_eq_some_iff.1 hm
    cases hm
    -- the new suffixes are the encodings of the code points from some place on
    have source : ∀ s, s = d.text ∨ s ∈ suffixes → ∃ i, cptsToUtf8 ((cptsFromUtf8 d.text).drop i) = some s ∧
        (i = 0 ∨ i < (cptsFromUtf8 d.text).length) := by
      rintro s (rfl | hs)
      · exact ⟨0, hcanon, .inl rfl⟩
      · obtain ⟨i, hi, hs⟩ := mem_of_mapM hsuf s hs
        rw [mem_range'_1] at hi
        exact ⟨i, hs, .inr (by omega)⟩
    have mem : ∀ s, s ∈ (suffixes.foldl addSuffix (setScore m d.text d.score)).keys ↔
        (s = d.text ∨ s ∈ suffixes) ∨ s ∈ m.keys := by
      intro s
      rw [keys_addSuffixes, keys_setScore, mem_addKeys, mem_addKey]
      tauto
    constructor
    case nodup =>
      rw [keys_addSuffixes, keys_setScore]
      exact nodup_addKeys (nodup_addKey h.nodup _)
    case ne_nil =>
      intro s hs
      rcases (mem s).1 hs with hnew | hold
      · obtain ⟨i, henc, hi⟩ := source s hnew
        rintro rfl
        have hdrop := cptsToUtf8_nil_iff.1 henc
        rcases hi with rfl | hlt
        · rw [drop_zero] at hdrop
          rw [Canonical, hdrop] at hcanon
          exact hne (Option.some.inj hcanon).symm
        · have := congrArg List.length hdrop
          rw [length_drop, length_nil] at this
          omega
      · exact h.ne_nil s hold
    case canonical =>
      intro s hs
      rcases (mem s).1 hs with hnew | hold
      · obtain ⟨i, henc, -⟩ := source s hnew
        rw [Canonical, cptsFromUtf8_encode henc]
        exact henc
      · exact h.canonical s hold
    case tail =>
      intro s hs rest htail
      rcases (mem s).1 hs with hnew | hold
      · obtain ⟨i, henc, -⟩ := source s hnew
        obtain ⟨hlt, hrest⟩ := htail.drop henc
        rcases lt_or_ge (i + 1) (cptsFromUtf8 d.text).length with hmore | hend
        · right
          obtain ⟨y, hy, hfy⟩ := mapM_eq_some hsuf (i + 1) (mem_range'_1.2 (by omega))
          rw [hrest] at hfy
          cases hfy
          exact (mem _).2 (.inl (.inr hy))
        · left
          rw [drop_eq_nil_of_le hend] at hrest
          exact (Option.some.inj hrest).symm
      · rcases h.tail s hold rest htail with hnil | hmem
        · exact .inl hnil
        · exact .inr ((mem _).2 (.inr hmem))

lemma foldlM_inv {α σ : Type} {f : σ → α → Option σ} {P : List α → σ → Prop} {l : List α} {s r : σ} (h0 : P [] s)
    (hstep : ∀ done x rest s s', l = done ++ x :: rest → P done s → f s x = some s' → P (done ++ [x]) s')
    (h : l.foldlM f s = some r) : P l r := by
  suffices loop : ∀ (rest done : List α) (s : σ), l = done ++ rest → P done s → rest.foldlM f s = some r → P l r by
    exact loop l [] s rfl h0 h
  intro rest
  induction rest with
  | nil =>
    intro done s hl hP hr
    cases hr
    rw [append_nil] at hl
    rw [hl]
    exact hP
  | cons x rest ih =>
    intro done s hl hP hr
    rw [foldlM_cons] at hr
    obtain ⟨s', hs', hr⟩ := bind_eq_some_iff.1 hr
    exact ih (done ++ [x]) s' (by rw [hl, append_assoc]; rfl) (hstep done x rest s s' hl hP hs') hr

def WellFormedTokens (v : Vocab F) : Prop := ∀ d ∈ v.idToToken, d.built.byte = false → Canonical d.text

lemma closed_suffixScores {v : Vocab F} {m : SuffixScores F} (hv : WellFormedTokens v) (h : suffixScores v = some m) :
    Closed m.keys := by
  refine @foldlM_inv _ _ addToken (fun _ m => Closed m.keys) v.idToToken [] m ?_ ?_ h
  · constructor
    case nodup => exact nodup_nil
    all_goals
      intro s hs
      cases hs
  · intro done d rest m m' hl hm hstep
    have hmem : d ∈ v.idToToken := by rw [hl]; simp
    exact hm.addToken (v.text_ne d hmem) (hv d hmem) hstep

lemma lexLe_total : ∀ a b : Str, lexLe a b = true ∨ lexLe b a = true := by
  intro a
  induction a with
  | nil =>
    intro b
    exact .inl rfl
  | cons x a ih =>
    intro b
    cases b with
    | nil => exact .inr rfl
    | cons y b =>
      simp only [lexLe, Bool.or_eq_true, Bool.and_eq_true, decide_eq_true_eq, beq_iff_eq]
      rcases lt_trichotomy x.toNat y.toNat with h | h | h
      · exact .inl (.inl (UInt8.lt_iff_toNat_lt.2 h))
      · rcases ih b with hab | hba
        · exact .inl (.inr ⟨UInt8.toNat_inj.1 h, hab⟩)
        · exact .inr (.inr ⟨UInt8.toNat_inj.1 h.symm, hba⟩)
      · exact .inr (.inl (UInt8.lt_iff_toNat_lt.2 h))

lemma lexLe_trans : ∀ {a b c : Str}, lexLe a b = true → lexLe b c = true → lexLe a c = true := by
  intro a
  induction a with
  | nil =>
    intro b c _ _
    rfl
  | cons x a ih =>
    intro b c hab hbc
    cases b with
    | nil => cases hab
    | cons y b =>
      cases c with
      | nil => cases hbc
      | cons z c =>
        simp only [lexLe, Bool.or_eq_true, Bool.and_eq_true, decide_eq_true_eq, beq_iff_eq] at hab hbc ⊢
        rcases hab with hxy | ⟨rfl, hab⟩
        · rcases hbc with hyz | ⟨rfl, -⟩
          · exact .inl (UInt8.lt_trans hxy hyz)
          · exact .inl hxy
        · rcases hbc with hyz | ⟨rfl, hbc⟩
          · exact .inl hyz
          · exact .inr ⟨rfl, ih hab hbc⟩

instance : Std.Total RevLe := ⟨fun a b => lexLe_total a.reverse b.reverse⟩

instance : IsTrans Str RevLe := ⟨fun _ _ _ => lexLe_trans⟩

lemma lexLe_append {p q : Str} (h : lexLe (p ++ q) p = true) : q = [] := by
  induction p with
  | nil =>
    cases q with
    | nil => rfl
    | cons b q => cases h
  | cons a p ih =>
    simp only [cons_append, lexLe, Bool.or_eq_true, Bool.and_eq_true, decide_eq_true_eq, beq_iff_eq,
      UInt8.lt_irrefl, false_or, true_and] at h
    exact ih h

lemma not_revLe_append {head rest : Str} (h : head ≠ []) : ¬ RevLe (head ++ rest) rest := by
  intro hle
  rw [RevLe, reverse_append] at hle
  exact h (reverse_eq_nil_iff.1 (lexLe_append hle))

/-- The blocks of the table, as they are built from well-formed tokens. -/
structure Blocks (m : SuffixScores F) (blocks : List Block) : Prop where
  closed : Closed m.keys
  names : blocks.map Prod.fst = sortedSuffixes m
  pieces : ∀ b ∈ blocks, piecesOf m b.1 = some b.2

lemma blocks_of_plamoBlocks {m : SuffixScores F} {blocks : List Block} (hc : Closed m.keys)
    (h : plamoBlocks m = some blocks) : Blocks m blocks := by
  refine ⟨hc, ?_, ?_⟩
  · rw [← List.map_id (sortedSuffixes m)]
    refine map_of_mapM ?_ h
    intro s b hb
    obtain ⟨pieces, -, rfl⟩ := map_eq_some_iff.1 hb
    rfl
  · intro b hb
    obtain ⟨s, -, hs⟩ := mem_of_mapM h b hb
    obtain ⟨pieces, hp, rfl⟩ := map_eq_some_iff.1 hs
    exact hp

section
variable {m : SuffixScores F} {blocks : List Block}

lemma Blocks.mem_names (h : Blocks m blocks) {s : Str} : s ∈ blocks.map Prod.fst ↔ s ∈ m.keys ∨ s = [] := by
  rw [h.names, sortedSuffixes, mem_insertionSort, mem_append, mem_singleton]
  rfl

lemma Blocks.nodup (h : Blocks m blocks) : (blocks.map Prod.fst).Nodup := by
  rw [h.names, sortedSuffixes, (perm_insertionSort RevLe _).nodup_iff]
  refine nodup_append.2 ⟨h.closed.nodup, nodup_singleton _, ?_⟩
  intro a ha b hb heq
  rw [mem_singleton.1 hb] at heq
  exact h.closed.ne_nil a ha heq

lemma Blocks.sorted (h : Blocks m blocks) : (blocks.map Prod.fst).Pairwise RevLe := by
  rw [h.names]
  exact pairwise_insertionSort RevLe _

variable {done rest : List Block} {b : Block} {r : Nat} {x : Index}

lemma Blocks.tail_before (h : Blocks m blocks) {x : Block} {s : Str}
    (hb : blocks = done ++ x :: rest) (ht : Tail x.1 s) : s ∈ done.map Prod.fst := by
  obtain ⟨c, cs, hcs, hs⟩ := ht
  have hx : x.1 ∈ m.keys := by
    rcases h.mem_names.1 (List.mem_map.2 ⟨x, by rw [hb]; simp, rfl⟩) with hmem | hnil
    · exact hmem
    · rw [hnil] at hcs
      cases hcs
  obtain ⟨head, tail, hhead, htail, heq⟩ := cptsToUtf8_cons (by
    rw [← hcs]
    exact h.closed.canonical x.1 hx)
  rw [hs] at htail
  cases htail
  have hne := cptToUtf8_ne_nil hhead
  have hmem : s ∈ blocks.map Prod.fst := by
    apply h.mem_names.2
    rcases h.closed.tail x.1 hx s ⟨c, cs, hcs, hs⟩ with hnil | hmem
    · exact .inr hnil
    · exact .inl hmem
  have sorted := h.sorted
  rw [hb, map_append, map_cons] at hmem sorted
  rcases mem_append.1 hmem with hdone | hrest
  · exact hdone
  · rcases mem_cons.1 hrest with hself | hrest
    · rw [heq] at hself
      have := congrArg List.length hself
      rw [length_append] at this
      have := length_pos_of_ne_nil hne
      omega
    · have hle := (pairwise_cons.1 (pairwise_append.1 sorted).2.1).1 s hrest
      rw [heq] at hle
      exact absurd hle (not_revLe_append hne)

lemma Blocks.head (h : Blocks m blocks) : ∃ rest, blocks = ([], []) :: rest := by
  have hmem : ([] : Str) ∈ blocks.map Prod.fst := h.mem_names.2 (.inr rfl)
  cases hb : blocks with
  | nil =>
    rw [hb] at hmem
    cases hmem
  | cons b rest =>
    have sorted := h.sorted
    rw [hb, map_cons] at sorted hmem
    have hname : b.1 = [] := by
      rcases mem_cons.1 hmem with hself | hrest
      · exact hself.symm
      · have hle := (pairwise_cons.1 sorted).1 [] hrest
        by_contra hne
        rw [← append_nil b.1] at hle
        exact not_revLe_append hne hle
    have hpieces := h.pieces b (by rw [hb]; exact mem_cons_self)
    rw [hname] at hpieces
    obtain ⟨name, pieces⟩ := b
    cases hname
    cases hpieces
    exact ⟨rest, rfl⟩

def rowsBefore (blocks : List Block) : Nat := (blocks.map fun b => b.2.length + 1).sum

def At (blocks : List Block) (b : Block) (r : Nat) : Prop :=
  ∃ before after, blocks = before ++ b :: after ∧ r = rowsBefore before

lemma rowsBefore_append (l l' : List Block) : rowsBefore (l ++ l') = rowsBefore l + rowsBefore l' := by
  simp [rowsBefore]

lemma at_append_iff {x : Block} : At (done ++ [x]) b r ↔ At done b r ∨ (b = x ∧ r = rowsBefore done) := by
  constructor
  · rintro ⟨before, after, heq, rfl⟩
    rcases eq_nil_or_concat after with rfl | ⟨after, y, rfl⟩
    · obtain ⟨h1, h2⟩ := append_inj' heq rfl
      cases h2
      exact .inr ⟨rfl, by rw [h1]⟩
    · rw [concat_eq_append, ← cons_append, ← append_assoc] at heq
      obtain ⟨h1, -⟩ := append_inj' heq rfl
      exact .inl ⟨before, after, h1, rfl⟩
  · rintro (⟨before, after, rfl, rfl⟩ | ⟨rfl, rfl⟩)
    · exact ⟨before, after ++ [x], by simp, rfl⟩
    · exact ⟨done, [], rfl, rfl⟩

lemma At.mem (h : At blocks b r) : b ∈ blocks := by
  obtain ⟨before, after, rfl, -⟩ := h
  simp

lemma exists_at (h : b ∈ blocks) : ∃ r, At blocks b r := by
  obtain ⟨before, after, heq⟩ := append_of_mem h
  exact ⟨_, before, after, heq, rfl⟩

lemma At.inj {b' : Block} (h : At blocks b r) (h' : At blocks b' r) : b = b' := by
  obtain ⟨before, after, heq, hr⟩ := h
  obtain ⟨before', after', heq', hr'⟩ := h'
  rw [heq] at heq'
  rcases append_eq_append_iff.1 heq' with ⟨l, hl, hrest⟩ | ⟨l, hl, hrest⟩
  · cases l with
    | nil =>
      cases hrest
      rfl
    | cons y l =>
      rw [hr', hl, rowsBefore_append] at hr
      simp only [rowsBefore, map_cons, sum_cons] at hr
      omega
  · cases l with
    | nil =>
      cases hrest
      rfl
    | cons y l =>
      rw [hr, hl, rowsBefore_append] at hr'
      simp only [rowsBefore, map_cons, sum_cons] at hr'
      omega

/-- `suffix_to_id` gives the row of a block, and `to_suffix_id_` leads from the block of a tail to a suffix. -/
structure Indexed (done : List Block) (x : Index) : Prop where
  num : x.numPieces = rowsBefore done
  ids : ∀ b r, At done b r → x.ids.lookup b.1 = some r
  links : ∀ c id r, ((c, id), r) ∈ x.toSuffixId →
    ∃ b b' cs, At done b r ∧ cptsFromUtf8 b.1 = c :: cs ∧ cptsToUtf8 cs = some b'.1 ∧ At done b' id

lemma At.append (h : At done b r) (x : Block) : At (done ++ [x]) b r :=
  at_append_iff.2 (.inl h)

section
variable (h : Blocks m blocks) (hb : blocks = done ++ b :: rest) (hx : Indexed done x)
include h hb hx

lemma Indexed.new_ids :
    ∀ b' r, At (done ++ [b]) b' r → ((b.1, x.numPieces) :: x.ids).lookup b'.1 = some r := by
  have fresh : ∀ b' ∈ done, b'.1 ≠ b.1 := by
    intro b' hb' heq
    have hnodup := h.nodup
    rw [hb, map_append, map_cons] at hnodup
    exact (nodup_append.1 hnodup).2.2 _ (List.mem_map_of_mem hb') _ mem_cons_self heq
  intro b' r hat
  rcases at_append_iff.1 hat with hold | ⟨rfl, rfl⟩
  · have hne := fresh b' hold.mem
    rw [lookup_cons]
    have : (b'.1 == b.1) = false := by simpa using hne
    simp only [this]
    exact hx.ids b' r hold
  · rw [lookup_cons_self, hx.num]

lemma Indexed.new_link {x' : Index} (hstep : indexStep x b = some x') {c : UInt32}
    {cs : List UInt32} (hcs : cptsFromUtf8 b.1 = c :: cs) : ∃ b' id, At done b' id ∧ cptsToUtf8 cs = some b'.1 ∧
      x' = ⟨(b.1, x.numPieces) :: x.ids, ((c, id), x.numPieces) :: x.toSuffixId, x.numPieces + (b.2.length + 1)⟩ := by
  simp only [indexStep, hcs] at hstep
  obtain ⟨remaining, hrem, hstep⟩ := bind_eq_some_iff.1 hstep
  obtain ⟨b', hb', hname⟩ := List.mem_map.1 (h.tail_before hb ⟨c, cs, hcs, hrem⟩)
  obtain ⟨id, hid⟩ := exists_at hb'
  have hlookup := hx.new_ids h hb b' id (hid.append b)
  rw [hname] at hlookup
  simp only [hlookup] at hstep
  cases hstep
  exact ⟨b', id, hid, by rw [hname]; exact hrem, rfl⟩

lemma Indexed.step {x' : Index} (hstep : indexStep x b = some x') :
    Indexed (done ++ [b]) x' := by
  have new : At (done ++ [b]) b (rowsBefore done) := at_append_iff.2 (.inr ⟨rfl, rfl⟩)
  have num : rowsBefore (done ++ [b]) = rowsBefore done + (b.2.length + 1) := by
    simp [rowsBefore]
  have links : ∀ c id r, ((c, id), r) ∈ x.toSuffixId →
      ∃ b₁ b' cs, At (done ++ [b]) b₁ r ∧ cptsFromUtf8 b₁.1 = c :: cs ∧ cptsToUtf8 cs = some b'.1 ∧
        At (done ++ [b]) b' id := by
    intro c id r hmem
    obtain ⟨b₁, b', cs, h1, h2, h3, h4⟩ := hx.links c id r hmem
    exact ⟨b₁, b', cs, h1.append b, h2, h3, h4.append b⟩
  cases hcs : cptsFromUtf8 b.1 with
  | nil =>
    simp only [indexStep, hcs] at hstep
    cases hstep
    -- only the empty suffix has no code point, and it has no piece
    have hpieces := h.pieces b (by rw [hb]; simp)
    have hnone : b.2 = [] := by
      rw [piecesOf, hcs] at hpieces
      exact (Option.some.inj hpieces).symm
    refine ⟨?_, hx.new_ids h hb, links⟩
    rw [num, hnone, ← hx.num]
    rfl
  | cons c cs =>
    obtain ⟨b', id, hid, hrem, rfl⟩ := hx.new_link h hb hstep hcs
    refine ⟨?_, hx.new_ids h hb, ?_⟩
    · rw [num, ← hx.num]
    · intro c' id' r' hmem
      rcases mem_cons.1 hmem with heq | hmem
      · cases heq
        refine ⟨b, b', cs, ?_, hcs, hrem, hid.append b⟩
        rw [hx.num]
        exact new
      · exact links c' id' r' hmem

end

lemma Blocks.indexed (h : Blocks m blocks) (hx : blocks.foldlM indexStep {} = some x) : Indexed blocks x := by
  refine @foldlM_inv _ _ indexStep Indexed blocks {} x ?_ ?_ hx
  · refine ⟨rfl, ?_, ?_⟩
    · rintro b r ⟨before, after, heq, -⟩
      cases before <;> cases heq
    · intro c id r hmem
      cases hmem
  · intro done b rest s s' hl hP hf
    exact Indexed.step h hl hP hf

lemma drop_table {a : Arith F} {v : Vocab F} {ids : List (Str × Nat)} (h : At blocks b r) :
    ∃ after, (blocks.flatMap (blockRows a v m ids)).drop r = blockRows a v m ids b ++ after := by
  obtain ⟨before, after, rfl, rfl⟩ := h
  have hlen : (before.flatMap (blockRows a v m ids)).length = rowsBefore before := by
    rw [length_flatMap, rowsBefore]
    congr 1
    apply map_congr_left
    intro b' _
    simp [blockRows]
  refine ⟨after.flatMap (blockRows a v m ids), ?_⟩
  rw [flatMap_append, flatMap_cons, ← hlen, drop_left]

lemma Blocks.piece (h : Blocks m blocks) (hb : b ∈ blocks) {p : Nat × Str} (hp : p ∈ b.2) :
    0 < p.1 ∧ p.1 ≤ (cptsFromUtf8 b.1).length ∧ cptsToUtf8 ((cptsFromUtf8 b.1).take p.1) = some p.2 ∧
      ∃ b' ∈ blocks, b'.1 = p.2 := by
  have hpieces := h.pieces b hb
  obtain ⟨pieces, hmap, heq⟩ := bind_eq_some_iff.1 hpieces
  have hp' : p ∈ pieces.filter fun p => m.has p.2 := by
    rw [Option.some.inj heq]
    exact hp
  obtain ⟨hmem, hhas⟩ := mem_filter.1 hp'
  obtain ⟨i, hi, hval⟩ := mem_of_mapM hmap p hmem
  obtain ⟨piece, hpiece, hval⟩ := bind_eq_some_iff.1 hval
  cases hval
  rw [mem_reverse, mem_range] at hi
  obtain ⟨b', hb', hname⟩ := List.mem_map.1 (h.mem_names.2 (.inl (has_iff.1 hhas)))
  exact ⟨Nat.succ_pos i, hi, hpiece, b', hb', hname⟩

end

end Mallana.Tokenizer
