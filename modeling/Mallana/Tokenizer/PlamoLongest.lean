import Mallana.Tokenizer.ByteText
import Mallana.Tokenizer.PlamoWalk

/-!
# The suffix that PLaMo-2 stands at

The table leaves nothing out: each suffix is linked to from the row of its tail, and the rows of a suffix are those of all
suffixes it begins with, the longest first. So the suffix at a position is the longest one that the text goes on with.
-/

namespace Mallana.Tokenizer

open List

variable {F : Type} {a : Arith F} {v : Vocab F} {m : SuffixScores F} {blocks : List Block} {x : Index} {t : Plamo}

def TailLinked (done : List Block) (x : Index) : Prop :=
  ∀ b r c cs, At done b r → cptsFromUtf8 b.1 = c :: cs →
    ∃ b' id, At done b' id ∧ cptsToUtf8 cs = some b'.1 ∧ ((c, id), r) ∈ x.toSuffixId

lemma TailLinked.step (h : Blocks m blocks) {done rest : List Block} {b : Block} {x x' : Index}
    (hb : blocks = done ++ b :: rest) (hx : Indexed done x) (hlinked : TailLinked done x) (hstep : indexStep x b = some x') :
    TailLinked (done ++ [b]) x' := by
  intro b₁ r c cs hat hcs
  rcases at_append_iff.1 hat with hold | ⟨rfl, rfl⟩
  · obtain ⟨b', id, hid, hrem, hmem⟩ := hlinked b₁ r c cs hold hcs
    refine ⟨b', id, hid.append b, hrem, ?_⟩
    cases hb' : cptsFromUtf8 b.1 with
    | nil =>
      simp only [indexStep, hb'] at hstep
      cases hstep
      exact hmem
    | cons d ds =>
      obtain ⟨_, _, _, _, rfl⟩ := hx.new_link h hb hstep hb'
      exact mem_cons_of_mem _ hmem
  · obtain ⟨b', id, hid, hrem, rfl⟩ := hx.new_link h hb hstep hcs
    refine ⟨b', id, hid.append _, hrem, ?_⟩
    rw [← hx.num]
    exact mem_cons_self

lemma Blocks.linked (h : Blocks m blocks) {x : Index} (hx : blocks.foldlM indexStep {} = some x) : TailLinked blocks x := by
  refine (@foldlM_inv _ _ indexStep (fun done x => Indexed done x ∧ TailLinked done x) blocks {} x ?_ ?_ hx).2
  · have hnone : ∀ b r, ¬ At [] b r := by
      rintro b r ⟨before, after, heq, -⟩
      cases before <;> cases heq
    exact ⟨⟨rfl, fun b r hat => (hnone b r hat).elim, fun _ _ _ hmem => by cases hmem⟩,
      fun b r _ _ hat => (hnone b r hat).elim⟩
  · intro done b rest s s' hl hP hf
    exact ⟨Indexed.step h hl hP.1 hf, TailLinked.step h hl hP.1 hP.2 hf⟩

lemma Blocks.canonical (h : Blocks m blocks) {b : Block} (hb : b ∈ blocks) : Canonical b.1 := by
  rcases h.mem_names.1 (mem_map_of_mem hb) with hmem | hnil
  · exact h.closed.canonical b.1 hmem
  · rw [hnil]
    rfl

lemma Blocks.eq_of_name (h : Blocks m blocks) {b b' : Block} (hb : b ∈ blocks) (hb' : b' ∈ blocks) (heq : b.1 = b'.1) :
    b = b' :=
  inj_on_of_nodup_map h.nodup hb hb' heq

lemma mem_piecesOf {suffix : Str} {pieces : List (Nat × Str)} (h : piecesOf m suffix = some pieces) {n : Nat}
    {piece : Str} (hpos : 0 < n) (hle : n ≤ (cptsFromUtf8 suffix).length)
    (henc : cptsToUtf8 ((cptsFromUtf8 suffix).take n) = some piece) (hhas : piece ∈ m.keys) : (n, piece) ∈ pieces := by
  obtain ⟨all, hall, hpieces⟩ := Option.bind_eq_some_iff.1 h
  cases hpieces
  refine mem_filter.2 ⟨?_, has_iff.2 hhas⟩
  have hmem : n - 1 ∈ (List.range (cptsFromUtf8 suffix).length).reverse := by
    rw [mem_reverse, mem_range]
    omega
  obtain ⟨p, hp, hval⟩ := mapM_eq_some hall (n - 1) hmem
  rw [Nat.sub_add_cancel hpos, henc] at hval
  cases hval
  exact hp

lemma piecesOf_sorted {suffix : Str} {pieces : List (Nat × Str)} (h : piecesOf m suffix = some pieces) :
    pieces.Pairwise fun p q => q.1 < p.1 := by
  obtain ⟨all, hall, hpieces⟩ := Option.bind_eq_some_iff.1 h
  cases hpieces
  apply List.Pairwise.filter
  have hlengths : all.map Prod.fst = (List.range (cptsFromUtf8 suffix).length).reverse.map Nat.succ := by
    refine map_of_mapM ?_ hall
    intro i p hp
    obtain ⟨piece, -, hp⟩ := Option.bind_eq_some_iff.1 hp
    cases hp
    rfl
  have hsorted : (all.map Prod.fst).Pairwise fun n k => k < n := by
    rw [hlengths, pairwise_map, pairwise_reverse]
    exact pairwise_lt_range.imp Nat.succ_lt_succ
  exact pairwise_map.1 hsorted

/-- The suffix at a row is the longest one that the text goes on with. -/
def Longest (blocks : List Block) (cs : List UInt32) (r : Nat) : Prop :=
  ∃ b, At blocks b r ∧ cptsFromUtf8 b.1 <+: cs ∧
    ∀ b' ∈ blocks, cptsFromUtf8 b'.1 <+: cs → (cptsFromUtf8 b'.1).length ≤ (cptsFromUtf8 b.1).length

lemma lookup_of_mem {α β : Type} [BEq α] [LawfulBEq α] {k : α} {y : β} {l : List (α × β)} (h : (k, y) ∈ l) :
    ∃ y', l.lookup k = some y' := by
  cases hl : l.lookup k with
  | some y' => exact ⟨y', rfl⟩
  | none =>
    have hne := lookup_eq_none_iff.1 hl _ h
    rw [bne_self_eq_false] at hne
    cases hne

section
variable {c : UInt32} {cs ds : List UInt32} {b : Block} {n id r : Nat}

lemma Blocks.row_pos (h : Blocks m blocks) (hat : At blocks b r) (hcs : cptsFromUtf8 b.1 = c :: cs) : 0 < r := by
  rcases Nat.eq_zero_or_pos r with rfl | hpos
  · obtain ⟨rest, hrest⟩ := h.head
    have hzero : At blocks ([], []) 0 := ⟨[], rest, hrest, rfl⟩
    rw [hat.inj hzero] at hcs
    cases hcs
  · exact hpos

lemma PlamoOk.link_at (h : PlamoOk a v m blocks x t) (hat : At blocks b id) (henc : cptsToUtf8 (cs.take n) = some b.1)
    (hlookup : t.toSuffixId.lookup (c, id) = some r) : ∃ b', At blocks b' r ∧ cptsFromUtf8 b'.1 = c :: cs.take n := by
  rw [h.links] at hlookup
  obtain ⟨b₁, b₂, ds, hat₁, hcs, hds, hat₂⟩ := h.indexed.links c id r (mem_of_lookup hlookup)
  rw [hat₂.inj hat] at hds
  rw [cptsToUtf8_inj hds henc] at hcs
  exact ⟨b₁, hat₁, hcs⟩

lemma PlamoOk.lookup_tail (h : PlamoOk a v m blocks x t) (hlinked : TailLinked blocks x) {b' : Block} (hb' : b' ∈ blocks)
    (hcs : cptsFromUtf8 b'.1 = c :: cs) (hat : At blocks b id) (henc : cptsToUtf8 cs = some b.1) :
    ∃ r, t.toSuffixId.lookup (c, id) = some r := by
  obtain ⟨r, hr⟩ := exists_at hb'
  obtain ⟨b₁, id₁, hid, hrem, hmem⟩ := hlinked b' r c cs hr hcs
  rw [henc] at hrem
  have hname := h.sound.eq_of_name hat.mem hid.mem (Option.some.inj hrem)
  have hids := h.indexed.ids b id hat
  rw [hname, h.indexed.ids b₁ id₁ hid] at hids
  cases hids
  rw [h.links]
  exact lookup_of_mem hmem

/-- The pieces that are left to try: they are in front of the text, the longest first, and no longer suffix than theirs
can be reached. -/
structure Tries (blocks : List Block) (c : UInt32) (cs : List UInt32) (ps : List (Nat × Str)) : Prop where
  sorted : ps.Pairwise fun p q => q.1 < p.1
  front : ∀ p ∈ ps, p.1 ≤ cs.length ∧ cptsToUtf8 (cs.take p.1) = some p.2 ∧ ∃ b ∈ blocks, b.1 = p.2
  all : ∀ b ∈ blocks, ∀ ds, cptsFromUtf8 b.1 = c :: ds → ds <+: cs → ds = [] ∨ ∃ p ∈ ps, p.1 = ds.length

lemma Tries.tail {p : Nat × Str} {ps : List (Nat × Str)} (h : Tries blocks c cs (p :: ps))
    (hnone : ∀ b ∈ blocks, cptsFromUtf8 b.1 ≠ c :: cs.take p.1) : Tries blocks c cs ps := by
  refine ⟨(pairwise_cons.1 h.sorted).2, fun q hq => h.front q (mem_cons_of_mem _ hq), ?_⟩
  intro b hb ds hds hpre
  rcases h.all b hb ds hds hpre with hnil | ⟨q, hq, hlen⟩
  · exact .inl hnil
  · rcases mem_cons.1 hq with rfl | hq
    · rw [prefix_iff_eq_take.1 hpre, ← hlen] at hds
      exact absurd hds (hnone b hb)
    · exact .inr ⟨q, hq, hlen⟩

lemma longest_of_link (hat : At blocks b r) (hcs : cptsFromUtf8 b.1 = c :: cs.take n)
    (hall : ∀ b' ∈ blocks, ∀ ds, cptsFromUtf8 b'.1 = c :: ds → ds <+: cs → ds.length ≤ (cs.take n).length) :
    Longest blocks (c :: cs) r := by
  refine ⟨b, hat, ?_, ?_⟩
  · rw [hcs]
    exact (prefix_cons_inj c).2 (List.take_prefix n cs)
  · intro b' hb' hpre
    cases hds : cptsFromUtf8 b'.1 with
    | nil => exact Nat.zero_le _
    | cons d ds =>
      rw [hds] at hpre
      obtain ⟨rfl, htail⟩ := cons_prefix_cons.1 hpre
      rw [hcs]
      exact Nat.succ_le_succ (hall b' hb' ds hds htail)

lemma PlamoOk.nextSuffix_longest (h : PlamoOk a v m blocks x t) (hlinked : TailLinked blocks x)
    (hscore : ∀ p, (pieceRow a v m x.ids p).score ≠ unknownScore) {after : List TableRow} :
    ∀ {ps : List (Nat × Str)} (current : Nat), Tries blocks c cs ps → Longest blocks (c :: cs)
        (Tokenizer.nextSuffix t c current (ps.map (pieceRow a v m x.ids) ++ sentinelRow :: after)) := by
  intro ps
  induction ps with
  | nil =>
    intro current htries
    obtain ⟨rest, hrest⟩ := h.sound.head
    have hzero : At blocks ([], []) 0 := ⟨[], rest, hrest, rfl⟩
    have hshort : ∀ b' ∈ blocks, ∀ ds, cptsFromUtf8 b'.1 = c :: ds → ds <+: cs → ds = [] := by
      intro b' hb' ds hds hpre
      rcases htries.all b' hb' ds hds hpre with hnil | ⟨p, hp, -⟩
      · exact hnil
      · cases hp
    rw [map_nil, nil_append, Tokenizer.nextSuffix, if_pos (.inr rfl)]
    cases hl : t.toSuffixId.lookup (c, sentinelRow.pieceId) with
    | some r =>
      obtain ⟨b', hat', hcs⟩ := @PlamoOk.link_at F a v m blocks x t c cs ([], []) 0 _ r h hzero rfl hl
      refine longest_of_link hat' hcs ?_
      intro b'' hb'' ds hds hpre
      rw [hshort b'' hb'' ds hds hpre]
      exact Nat.zero_le _
    | none =>
      refine ⟨([], []), hzero, nil_prefix, ?_⟩
      intro b' hb' hpre
      cases hds : cptsFromUtf8 b'.1 with
      | nil => exact le_refl _
      | cons d ds =>
        rw [hds] at hpre
        obtain ⟨rfl, htail⟩ := cons_prefix_cons.1 hpre
        rw [hshort b' hb' ds hds htail] at hds
        obtain ⟨r, hr⟩ := h.lookup_tail hlinked hb' hds hzero rfl
        rw [sentinelRow] at hl
        rw [hr] at hl
        cases hl
  | cons p ps ih =>
    intro current htries
    obtain ⟨hle, henc, bp, hbp, hname⟩ := htries.front p mem_cons_self
    obtain ⟨id, hid⟩ := exists_at hbp
    have hids := h.indexed.ids bp id hid
    rw [hname] at hids
    have hpiece : (pieceRow a v m x.ids p).pieceId = id := by
      simp only [pieceRow, hids, Option.getD_some]
    rw [← hname] at henc
    rw [map_cons, cons_append, Tokenizer.nextSuffix]
    simp only [hpiece]
    cases hl : t.toSuffixId.lookup (c, id) with
    | some r =>
      obtain ⟨b', hat', hcs⟩ := h.link_at hid henc hl
      rw [if_pos (.inl (h.sound.row_pos hat' hcs))]
      refine longest_of_link hat' hcs ?_
      intro b'' hb'' ds hds hpre
      rw [length_take, min_eq_left hle]
      rcases htries.all b'' hb'' ds hds hpre with rfl | ⟨q, hq, hlen⟩
      · exact Nat.zero_le _
      · rw [← hlen]
        rcases mem_cons.1 hq with rfl | hq
        · exact le_refl _
        · exact le_of_lt ((pairwise_cons.1 htries.sorted).1 q hq)
    | none =>
      rw [Option.getD_none, if_neg (not_or.2 ⟨lt_irrefl 0, hscore p⟩)]
      refine ih 0 (htries.tail ?_)
      intro b' hb' hds
      obtain ⟨r, hr⟩ := h.lookup_tail hlinked hb' hds hid henc
      rw [hr] at hl
      cases hl

lemma Blocks.tries (h : Blocks m blocks) (hb : b ∈ blocks) (hpre : cptsFromUtf8 b.1 <+: cs)
    (hlongest : ∀ b' ∈ blocks, cptsFromUtf8 b'.1 <+: cs → (cptsFromUtf8 b'.1).length ≤ (cptsFromUtf8 b.1).length)
    (c : UInt32) : Tries blocks c cs b.2 := by
  have htake : ∀ {n}, n ≤ (cptsFromUtf8 b.1).length → cs.take n = (cptsFromUtf8 b.1).take n := by
    intro n hn
    obtain ⟨rest, rfl⟩ := hpre
    rw [take_append_of_le_length hn]
  refine ⟨piecesOf_sorted (h.pieces b hb), ?_, ?_⟩
  · intro p hp
    obtain ⟨-, hle, henc, hmem⟩ := h.piece hb hp
    exact ⟨le_trans hle hpre.length_le, by rw [htake hle]; exact henc, hmem⟩
  · intro b' hb' ds hds hpre'
    cases ds with
    | nil => exact .inl rfl
    | cons d ds =>
      have hcanon := h.canonical hb'
      rw [Canonical, hds] at hcanon
      obtain ⟨-, rest, -, hrest, -⟩ := cptsToUtf8_cons hcanon
      have hkey : b'.1 ∈ m.keys := by
        rcases h.mem_names.1 (mem_map_of_mem hb') with hmem | hnil
        · exact hmem
        · rw [hnil] at hds
          cases hds
      -- the tail is a suffix itself, so that it is a piece of the longest one
      have htail : rest ∈ m.keys := by
        rcases h.closed.tail b'.1 hkey rest ⟨c, d :: ds, hds, hrest⟩ with rfl | hmem
        · cases cptsToUtf8_nil_iff.1 hrest
        · exact hmem
      obtain ⟨b'', hb'', hname⟩ := mem_map.1 (h.mem_names.2 (.inl htail))
      have hcpts : cptsFromUtf8 b''.1 = d :: ds := by rw [hname, cptsFromUtf8_encode hrest]
      have hlen := hlongest b'' hb'' (by rw [hcpts]; exact hpre')
      rw [hcpts] at hlen
      refine .inr ⟨((d :: ds).length, rest), mem_piecesOf (h.pieces b hb) (Nat.succ_pos _) hlen ?_ htail, rfl⟩
      rw [← htake hlen, ← prefix_iff_eq_take.1 hpre']
      exact hrest

/-- At every position, the present suffix is the longest one that the text goes on with. -/
theorem PlamoOk.sweep_longest (h : PlamoOk a v m blocks x t) (hlinked : TailLinked blocks x)
    (hscore : ∀ p, (pieceRow a v m x.ids p).score ≠ unknownScore) :
    ∀ cs : List UInt32, Longest blocks cs (sweep t cs).1 := by
  intro cs
  induction cs with
  | nil =>
    obtain ⟨rest, hrest⟩ := h.sound.head
    refine ⟨([], []), ⟨[], rest, hrest, rfl⟩, nil_prefix, ?_⟩
    intro b' _ hpre
    exact hpre.length_le
  | cons c cs ih =>
    obtain ⟨b, hat, hpre, hlongest⟩ := ih
    obtain ⟨after, hdrop⟩ := @drop_table F m blocks b _ a v x.ids hat
    rw [sweep, h.table, hdrop, blockRows, append_assoc]
    exact h.nextSuffix_longest hlinked hscore _ (h.sound.tries hat.mem hpre hlongest c)

end

end Mallana.Tokenizer
