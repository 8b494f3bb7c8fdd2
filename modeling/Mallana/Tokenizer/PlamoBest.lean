import Mallana.Tokenizer.Lossless
import Mallana.Tokenizer.PlamoBytes
import Mallana.Tokenizer.PlamoLongest
import Mallana.Tokenizer.UgmBest

/-!
# The segmentation that PLaMo-2 finds

The tokens of a text are those of a segmentation into tokens and characters with the highest score, and their pieces are
the text. The cell at a position has the cost of the best segmentation of what follows: its rows are those of the longest
suffix, so that no token is left out.
-/

namespace Mallana.Tokenizer

open List Option

variable {F : Type} {a : Arith F} {v : Vocab F} {m : SuffixScores F} {blocks : List Block} {x : Index} {t : Plamo}

/-- A part of a segmentation: a token, or a character by its bytes. -/
inductive Part where
  | token (id : Nat)
  | character (c : UInt32)

/-- The text and the score of a part; a byte token is no part. -/
inductive PlamoPart (a : Arith F) (v : Vocab F) : Part → Str → Int → Prop where
  | token {id : Nat} {d : TokenData F} {score : Int} : v.idToToken[id]? = some d → d.built.byte = false →
      a.round d.score = some score → PlamoPart a v (.token id) d.text score
  | character {c : UInt32} {bytes : Str} : cptToUtf8 c = some bytes → PlamoPart a v (.character c) bytes unknownScore

/-- The segmentations of a text, with their scores. -/
inductive Segmentation (a : Arith F) (v : Vocab F) : Str → List Part → Int → Prop where
  | nil : Segmentation a v [] [] 0
  | cons {part : Part} {piece text : Str} {parts : List Part} {score total : Int} : PlamoPart a v part piece score →
      Segmentation a v text parts total → Segmentation a v (piece ++ text) (part :: parts) (score + total)

/-- The tokens of a part; a character has the tokens of its bytes. -/
def Part.tokens (t : Plamo) : Part → List Int
  | .token id => [(id : Int)]
  | .character c => ((cptToUtf8 c).getD []).map fun b => t.bytes.getD b.toNat 0

/-- Valid texts whose scores lie between the two scores of the table that stand for something else. No attribute of a byte
token is changed on loading. -/
structure PlamoVocab (a : Arith F) (v : Vocab F) : Prop where
  type : v.type = .plamo2
  texts : ∀ d ∈ v.idToToken, Canonical d.text
  scores : ∀ d ∈ v.idToToken, d.built.byte = false →
    ∃ score, a.round d.score = some score ∧ unknownScore < score ∧ score < -unknownScore
  kept : ∀ d ∈ v.idToToken, byteFrame d.text = true → d.attr.byte = d.built.byte

def Scored (done : List (TokenData F)) (m : SuffixScores F) : Prop :=
  ∀ s y, (s, some y) ∈ m ↔ ∃ d ∈ done, d.built.byte = false ∧ d.text = s ∧ d.score = y

lemma mem_setScore {s text : Str} {score y : F} :
    (s, some y) ∈ setScore m text score ↔ (s = text ∧ y = score) ∨ (s ≠ text ∧ (s, some y) ∈ m) := by
  unfold setScore
  split
  · rename_i hhas
    rw [List.mem_map]
    constructor
    · rintro ⟨p, hp, heq⟩
      split at heq
      · cases heq
        exact .inl ⟨rfl, rfl⟩
      · rename_i hne
        cases heq
        exact .inr ⟨hne, hp⟩
    · rintro (⟨rfl, rfl⟩ | ⟨hne, hmem⟩)
      · obtain ⟨p, hp, heq⟩ := List.mem_map.1 (has_iff.1 hhas)
        exact ⟨p, hp, if_pos heq⟩
      · exact ⟨_, hmem, if_neg hne⟩
  · rename_i hhas
    rw [mem_append, mem_singleton]
    constructor
    · rintro (hmem | heq)
      · refine .inr ⟨?_, hmem⟩
        rintro rfl
        exact hhas (has_iff.2 (List.mem_map.2 ⟨_, hmem, rfl⟩))
      · cases heq
        exact .inl ⟨rfl, rfl⟩
    · rintro (⟨rfl, rfl⟩ | ⟨-, hmem⟩)
      · exact .inr rfl
      · exact .inl hmem

lemma mem_addSuffixes {s : Str} {y : F} : ∀ {ts : List Str} {m : SuffixScores F},
    (s, some y) ∈ ts.foldl addSuffix m ↔ (s, some y) ∈ m := by
  intro ts
  induction ts with
  | nil =>
    intro m
    rfl
  | cons u ts ih =>
    intro m
    rw [foldl_cons, ih, addSuffix]
    split
    · rfl
    · rw [mem_append, mem_singleton]
      constructor
      · rintro (hmem | heq)
        · exact hmem
        · cases heq
      · exact .inl

lemma Scored.addToken {done : List (TokenData F)} {d : TokenData F} {m' : SuffixScores F} (h : Scored done m)
    (hnew : ∀ e ∈ done, e.text ≠ d.text) (hm : addToken m d = some m') : Scored (done ++ [d]) m' := by
  intro s y
  have split : (∃ e ∈ done ++ [d], e.built.byte = false ∧ e.text = s ∧ e.score = y) ↔
      (∃ e ∈ done, e.built.byte = false ∧ e.text = s ∧ e.score = y) ∨
        (d.built.byte = false ∧ d.text = s ∧ d.score = y) := by
    simp only [mem_append, mem_singleton, or_and_right, exists_or, exists_eq_left]
  rw [split, ← h s y]
  unfold Tokenizer.addToken at hm
  split at hm
  · rename_i hbyte
    cases hm
    simp [hbyte]
  · rename_i hbyte
    obtain ⟨suffixes, -, hm⟩ := bind_eq_some_iff.1 hm
    cases hm
    rw [mem_addSuffixes, mem_setScore]
    constructor
    · rintro (⟨rfl, rfl⟩ | ⟨-, hmem⟩)
      · exact .inr ⟨by simpa using hbyte, rfl, rfl⟩
      · exact .inl hmem
    · rintro (hmem | ⟨-, rfl, rfl⟩)
      · obtain ⟨e, he, -, rfl, -⟩ := (h s y).1 hmem
        exact .inr ⟨hnew e he, hmem⟩
      · exact .inl ⟨rfl, rfl⟩

lemma scored_suffixScores (h : suffixScores v = some m) : Scored v.idToToken m := by
  refine @foldlM_inv _ _ addToken Scored v.idToToken [] m ?_ ?_ h
  · intro s y
    simp
  · intro done d rest m m' hl hm hstep
    refine hm.addToken ?_ hstep
    intro e he heq
    have hnodup := v.text_nodup
    rw [hl, map_append, map_cons] at hnodup
    exact (nodup_append.1 hnodup).2.2 _ (List.mem_map_of_mem he) _ mem_cons_self heq

/-- What `plamoBuild` makes of a vocabulary. -/
structure PlamoBuilt (a : Arith F) (v : Vocab F) (m : SuffixScores F) (blocks : List Block) (x : Index) (t : Plamo) :
    Prop extends PlamoOk a v m blocks x t where
  linked : TailLinked blocks x
  scored : Scored v.idToToken m
  bytes : plamoBytes v = some t.bytes

lemma plamoBuilt_of_build (hv : PlamoVocab a v) (h : plamoBuild a v = some t) :
    ∃ m blocks x, PlamoBuilt a v m blocks x t := by
  obtain ⟨m, hm, h⟩ := bind_eq_some_iff.1 h
  obtain ⟨bytes, hbytes, h⟩ := bind_eq_some_iff.1 h
  obtain ⟨blocks, hblocks, h⟩ := bind_eq_some_iff.1 h
  obtain ⟨x, hx, h⟩ := bind_eq_some_iff.1 h
  cases h
  have sound := blocks_of_plamoBlocks (closed_suffixScores (fun d hd _ => hv.texts d hd) hm) hblocks
  exact ⟨m, blocks, x, ⟨sound, sound.indexed hx, rfl, rfl⟩, sound.linked hx, scored_suffixScores hm, hbytes⟩

section
variable (h : PlamoBuilt a v m blocks x t) (hv : PlamoVocab a v)
include h

lemma PlamoBuilt.lookup_score {d : TokenData F} (hd : d ∈ v.idToToken) (hbyte : d.built.byte = false) :
    m.lookup d.text = some (some d.score) := by
  have hmem := (h.scored d.text d.score).2 ⟨d, hd, hbyte, rfl, rfl⟩
  obtain ⟨y, hy⟩ := lookup_of_mem hmem
  have heq := inj_on_of_nodup_map h.sound.closed.nodup (mem_of_lookup hy) hmem rfl
  cases heq
  exact hy

lemma PlamoBuilt.key {d : TokenData F} (hd : d ∈ v.idToToken) (hbyte : d.built.byte = false) : d.text ∈ m.keys :=
  List.mem_map.2 ⟨_, (h.scored d.text d.score).2 ⟨d, hd, hbyte, rfl, rfl⟩, rfl⟩

include hv

lemma PlamoBuilt.pieceRow_cases (p : Nat × Str) : (pieceRow a v m x.ids p).score = invalidScore ∨
    ∃ id score, PlamoPart a v (.token id) p.2 score ∧ (pieceRow a v m x.ids p).score = score ∧
      (pieceRow a v m x.ids p).tokenId = id ∧ unknownScore < score := by
  simp only [pieceRow]
  cases hl : m.lookup p.2 with
  | none => exact .inl rfl
  | some y =>
    cases y with
    | none => exact .inl rfl
    | some y =>
      obtain ⟨d, hd, hbyte, htext, rfl⟩ := (h.scored p.2 y).1 (mem_of_lookup hl)
      obtain ⟨score, hround, hlow, -⟩ := hv.scores d hd hbyte
      obtain ⟨id, hid, hget⟩ := textToToken_text hd
      rw [← htext]
      refine .inr ⟨id, score, .token hget hbyte hround, ?_, hid, hlow⟩
      simp only [bind_some, id_eq, hround, getD_some]

lemma PlamoBuilt.pieceRow_known (p : Nat × Str) : (pieceRow a v m x.ids p).score ≠ unknownScore := by
  rcases h.pieceRow_cases hv p with hinvalid | ⟨_, score, -, hscore, -, hlow⟩
  · rw [hinvalid]
    decide
  · rw [hscore]
    exact (Int.ne_of_lt hlow).symm

end

lemma PlamoPart.encodes (hv : PlamoVocab a v) {part : Part} {piece : Str} {score : Int}
    (h : PlamoPart a v part piece score) : Canonical piece ∧ cptsFromUtf8 piece ≠ [] := by
  have hne : ∀ {text : Str}, Canonical text → text ≠ [] → cptsFromUtf8 text ≠ [] := by
    intro text hcanon hne hnil
    rw [Canonical, hnil] at hcanon
    exact hne (Option.some.inj hcanon).symm
  cases h with
  | token hget _ _ =>
    have hmem := mem_of_getElem? hget
    exact ⟨hv.texts _ hmem, hne (hv.texts _ hmem) (v.text_ne _ hmem)⟩
  | character henc =>
    have hbytes := cptsToUtf8_cons_some henc (cptsToUtf8_nil_iff.2 rfl)
    rw [append_nil] at hbytes
    have hcanon : Canonical piece := by rw [Canonical, cptsFromUtf8_encode hbytes, hbytes]
    exact ⟨hcanon, hne hcanon (cptToUtf8_ne_nil henc)⟩

lemma cptsFromUtf8_character {c : UInt32} {bytes : Str} (h : cptToUtf8 c = some bytes) : cptsFromUtf8 bytes = [c] := by
  have hbytes := cptsToUtf8_cons_some h (cptsToUtf8_nil_iff.2 rfl)
  rw [append_nil] at hbytes
  exact cptsFromUtf8_encode hbytes

lemma improve_le_cell (cells : List Cell) (cell : Cell) (row : TableRow) :
    (improve cells cell row).score ≤ cell.score := by
  rcases improve_cases cells cell row with heq | ⟨-, hlt⟩
  · rw [heq]
  · exact Int.le_of_lt hlt

lemma improve_le_row {cells : List Cell} {row : TableRow} (h : invalidScore < row.score) (cell : Cell) :
    (improve cells cell row).score ≤ (cells.getD (row.pieceLength - 1) noPath).score - row.score := by
  simp only [improve]
  split
  · exact Int.le_refl _
  · rename_i hnot
    exact Int.not_lt.1 fun hlt => hnot ⟨h, hlt⟩

lemma bestCell_le_cell (cells : List Cell) : ∀ {rows : List TableRow} (cell : Cell),
    (bestCell cells cell rows).score ≤ cell.score := by
  intro rows
  induction rows with
  | nil =>
    intro cell
    exact Int.le_refl _
  | cons row rows ih =>
    intro cell
    rw [bestCell]
    split
    · exact improve_le_cell cells cell row
    · exact Int.le_trans (ih _) (improve_le_cell cells cell row)

lemma bestCell_last (cells : List Cell) (cell : Cell) (after : List TableRow) :
    bestCell cells cell (sentinelRow :: after) = improve cells cell sentinelRow := if_pos rfl

def Reached (front : List TableRow) (row : TableRow) : Prop := row ∈ front ∨ row = sentinelRow

lemma bestCell_le_row {cells : List Cell} {after : List TableRow} :
    ∀ {front : List TableRow} (cell : Cell), (∀ row ∈ front, row.score ≠ unknownScore) →
      ∀ row, Reached front row → invalidScore < row.score →
        (bestCell cells cell (front ++ sentinelRow :: after)).score ≤
          (cells.getD (row.pieceLength - 1) noPath).score - row.score := by
  intro front
  induction front with
  | nil =>
    intro cell _ row hrow hvalid
    rcases hrow with hrow | rfl
    · cases hrow
    · rw [nil_append, bestCell_last]
      exact improve_le_row hvalid cell
  | cons first front ih =>
    intro cell hknown row hrow hvalid
    rw [cons_append, bestCell, if_neg (hknown first mem_cons_self)]
    have hrest := fun row' hrow' => hknown row' (mem_cons_of_mem first hrow')
    rcases hrow with hrow | rfl
    · rcases mem_cons.1 hrow with rfl | hrow
      · exact Int.le_trans (bestCell_le_cell cells _) (improve_le_row hvalid cell)
      · exact ih _ hrest row (.inl hrow) hvalid
    · exact ih _ hrest _ (.inr rfl) hvalid

def rowCell (cells : List Cell) (row : TableRow) : Cell :=
  ⟨(cells.getD (row.pieceLength - 1) noPath).score - row.score, row.pieceLength, row.tokenId⟩

lemma bestCell_from {cells : List Cell} {after : List TableRow} :
    ∀ {front : List TableRow} (cell : Cell), bestCell cells cell (front ++ sentinelRow :: after) = cell ∨
      ∃ row, Reached front row ∧ invalidScore < row.score ∧
        bestCell cells cell (front ++ sentinelRow :: after) = rowCell cells row := by
  have here : ∀ (cell : Cell) (row : TableRow), improve cells cell row = cell ∨
      (invalidScore < row.score ∧ improve cells cell row = rowCell cells row) := by
    intro cell row
    simp only [improve]
    split
    · rename_i h
      exact .inr ⟨h.1, rfl⟩
    · exact .inl rfl
  intro front
  induction front with
  | nil =>
    intro cell
    rw [nil_append, bestCell_last]
    rcases here cell sentinelRow with heq | ⟨hvalid, heq⟩
    · exact .inl heq
    · exact .inr ⟨sentinelRow, .inr rfl, hvalid, heq⟩
  | cons first front ih =>
    intro cell
    have hhead : improve cells cell first = cell ∨ ∃ row, Reached (first :: front) row ∧ invalidScore < row.score ∧
        improve cells cell first = rowCell cells row := by
      rcases here cell first with heq | ⟨hvalid, heq⟩
      · exact .inl heq
      · exact .inr ⟨first, .inl mem_cons_self, hvalid, heq⟩
    rw [cons_append, bestCell]
    split
    · exact hhead
    · rcases ih (improve cells cell first) with heq | ⟨row, hrow, hvalid, heq⟩
      · rw [heq]
        exact hhead
      · exact .inr ⟨row, hrow.imp (mem_cons_of_mem _) id, hvalid, heq⟩

def cost (t : Plamo) (cs : List UInt32) : Int := ((sweep t cs).2.headD noPath).score

lemma getD_sweep (t : Plamo) {cs : List UInt32} {k : Nat} (hk : k ≤ cs.length) :
    ((sweep t cs).2.getD k noPath).score = cost t (cs.drop k) := by
  rw [cost, ← sweep_drop t hk, getD_eq_getElem?_getD, ← head?_drop, headD_eq_head?_getD]

section
variable (h : PlamoBuilt a v m blocks x t) (hv : PlamoVocab a v) {c : UInt32} {cs : List UInt32}
include h hv

lemma PlamoBuilt.longest_rows (cs : List UInt32) : ∃ b after, b ∈ blocks ∧ cptsFromUtf8 b.1 <+: cs ∧
    (∀ b' ∈ blocks, cptsFromUtf8 b'.1 <+: cs → (cptsFromUtf8 b'.1).length ≤ (cptsFromUtf8 b.1).length) ∧
    t.table.drop (sweep t cs).1 = b.2.map (pieceRow a v m x.ids) ++ sentinelRow :: after := by
  obtain ⟨b, hat, hpre, hlongest⟩ := h.sweep_longest h.linked (h.pieceRow_known hv) cs
  obtain ⟨after, hdrop⟩ := @drop_table F m blocks b _ a v x.ids hat
  refine ⟨b, after, hat.mem, hpre, hlongest, ?_⟩
  rw [h.table, hdrop, blockRows, append_assoc]
  rfl

lemma PlamoBuilt.cost_le {part : Part} {piece : Str} {score : Int} (hpart : PlamoPart a v part piece score)
    (hpre : cptsFromUtf8 piece <+: c :: cs) :
    cost t (c :: cs) ≤ cost t ((c :: cs).drop (cptsFromUtf8 piece).length) - score := by
  obtain ⟨b, after, hb, hfront, hlongest, hrows⟩ := h.longest_rows hv (c :: cs)
  have hpos := length_pos_of_ne_nil (hpart.encodes hv).2
  have hle := hpre.length_le
  rw [length_cons] at hle
  -- a row of the longest suffix stands for the part
  suffices row : ∃ row, Reached (b.2.map (pieceRow a v m x.ids)) row ∧ row.score = score ∧ invalidScore < row.score ∧
      row.pieceLength = (cptsFromUtf8 piece).length by
    obtain ⟨row, hrow, rfl, hvalid, hlen⟩ := row
    have hknown : ∀ row ∈ b.2.map (pieceRow a v m x.ids), row.score ≠ unknownScore := by
      intro row hrow
      obtain ⟨p, -, rfl⟩ := List.mem_map.1 hrow
      exact h.pieceRow_known hv p
    have hbest := @bestCell_le_row (sweep t cs).2 after _ noPath hknown row hrow hvalid
    rw [hlen, getD_sweep t (by omega)] at hbest
    have hcost : cost t (c :: cs) =
        (bestCell (sweep t cs).2 noPath (t.table.drop (sweep t (c :: cs)).1)).score := rfl
    rw [List.drop_cons hpos, hcost, hrows]
    exact hbest
  cases hpart with
  | @token id d score hget hbyte hround =>
    have hd := mem_of_getElem? hget
    have hkey := h.key hd hbyte
    obtain ⟨b', hb', hname⟩ := List.mem_map.1 (h.sound.mem_names.2 (.inl hkey))
    have hshort := hlongest b' hb' (by rw [hname]; exact hpre)
    rw [hname] at hshort
    have htake : (cptsFromUtf8 b.1).take (cptsFromUtf8 d.text).length = cptsFromUtf8 d.text :=
      (prefix_iff_eq_take.1 (prefix_of_prefix_length_le hpre hfront hshort)).symm
    have hmem : ((cptsFromUtf8 d.text).length, d.text) ∈ b.2 := by
      refine mem_piecesOf (h.sound.pieces b hb) hpos hshort ?_ hkey
      rw [htake]
      exact hv.texts d hd
    obtain ⟨score', hround', hlow, -⟩ := hv.scores d hd hbyte
    rw [hround] at hround'
    cases hround'
    have hscore : (pieceRow a v m x.ids ((cptsFromUtf8 d.text).length, d.text)).score = score := by
      simp only [pieceRow, h.lookup_score hd hbyte, bind_some, id_eq, hround, getD_some]
    refine ⟨_, .inl (List.mem_map_of_mem hmem), hscore, ?_, rfl⟩
    rw [hscore]
    exact Int.lt_trans (by decide) hlow
  | character henc =>
    rw [cptsFromUtf8_character henc]
    exact ⟨sentinelRow, .inr rfl, rfl, by decide, rfl⟩

lemma PlamoBuilt.cost_part {text : Str} (henc : cptsToUtf8 (c :: cs) = some text) (hshort : (c :: cs).length < 2 ^ 31) :
    ∃ part piece score cell, PlamoPart a v part piece score ∧ cptsFromUtf8 piece <+: c :: cs ∧
      cost t (c :: cs) = cost t ((c :: cs).drop (cptsFromUtf8 piece).length) - score ∧
      (sweep t (c :: cs)).2 = cell :: (sweep t cs).2 ∧ cell.tokenLength = (cptsFromUtf8 piece).length ∧
      (if 0 ≤ cell.tokenId then [cell.tokenId] else byteTokens t c) = part.tokens t := by
  obtain ⟨b, after, hb, hfront, hlongest, hrows⟩ := h.longest_rows hv (c :: cs)
  have hcells : (sweep t (c :: cs)).2 =
      bestCell (sweep t cs).2 noPath (b.2.map (pieceRow a v m x.ids) ++ sentinelRow :: after) :: (sweep t cs).2 := by
    rw [← hrows]
    rfl
  obtain ⟨row, hrow, hvalid, hbest⟩ : ∃ row, Reached (b.2.map (pieceRow a v m x.ids)) row ∧ invalidScore < row.score ∧
      bestCell (sweep t cs).2 noPath (b.2.map (pieceRow a v m x.ids) ++ sentinelRow :: after) =
        rowCell (sweep t cs).2 row := by
    rcases @bestCell_from (sweep t cs).2 after _ noPath with hsame | hrow
    · -- an unknown character is cheaper than no path
      have hbound := (h.swept hshort).1.bounded.2 0 (Nat.zero_le _)
      have hmax : noPath.score = 1152921504606846976 := rfl
      rw [hcells, hsame, getD_cons_zero, hmax] at hbound
      rw [Nat.sub_zero] at hbound
      omega
    · exact hrow
  -- the row stands for a part
  suffices part : ∃ part piece score, PlamoPart a v part piece score ∧ cptsFromUtf8 piece <+: c :: cs ∧
      row.score = score ∧ row.pieceLength = (cptsFromUtf8 piece).length ∧
      (if 0 ≤ row.tokenId then [row.tokenId] else byteTokens t c) = part.tokens t by
    obtain ⟨part, piece, score, hpart, hpre, rfl, hlen, htokens⟩ := part
    refine ⟨part, piece, row.score, rowCell (sweep t cs).2 row, hpart, hpre, ?_, ?_, hlen, htokens⟩
    · have hpos := length_pos_of_ne_nil (hpart.encodes hv).2
      have hle := hpre.length_le
      rw [length_cons] at hle
      rw [List.drop_cons hpos, ← getD_sweep t (by omega), ← hlen, cost, hcells, hbest]
      rfl
    · rw [hcells, hbest]
  rcases hrow with hrow | rfl
  · obtain ⟨p, hp, rfl⟩ := List.mem_map.1 hrow
    obtain ⟨-, hle, hpiece, -⟩ := h.sound.piece hb hp
    have hcpts : cptsFromUtf8 p.2 = (cptsFromUtf8 b.1).take p.1 := cptsFromUtf8_encode hpiece
    rcases h.pieceRow_cases hv p with hinvalid | ⟨id, score, hpart, hscore, hid, -⟩
    · rw [hinvalid] at hvalid
      exact absurd hvalid (Int.lt_irrefl _)
    · refine ⟨.token id, p.2, score, hpart, ?_, hscore, ?_, ?_⟩
      · rw [hcpts]
        exact (List.take_prefix _ _).trans hfront
      · rw [hcpts, length_take, min_eq_left hle]
        rfl
      · rw [hid, if_pos (Int.natCast_nonneg id)]
        rfl
  · obtain ⟨bytes, -, hbytes, -, -⟩ := cptsToUtf8_cons henc
    refine ⟨.character c, bytes, unknownScore, .character hbytes, ?_, rfl, ?_, ?_⟩
    · rw [cptsFromUtf8_character hbytes]
      exact (prefix_cons_inj c).2 nil_prefix
    · rw [cptsFromUtf8_character hbytes]
      rfl
    · rw [if_neg (by decide), byteTokens_eq t hbytes, Part.tokens, hbytes]
      rfl

end

lemma cptsToUtf8_append_some {cs ds : List UInt32} {tail : Str} (htail : cptsToUtf8 ds = some tail) :
    ∀ {head : Str}, cptsToUtf8 cs = some head → cptsToUtf8 (cs ++ ds) = some (head ++ tail) := by
  induction cs with
  | nil =>
    intro head h
    cases h
    exact htail
  | cons c cs ih =>
    intro head h
    obtain ⟨first, rest, hfirst, hrest, rfl⟩ := cptsToUtf8_cons h
    rw [append_assoc]
    exact cptsToUtf8_cons_some hfirst (ih hrest)

lemma length_le_of_encode : ∀ {cs : List UInt32} {text : Str}, cptsToUtf8 cs = some text → cs.length ≤ text.length := by
  intro cs
  induction cs with
  | nil =>
    intro text _
    exact Nat.zero_le _
  | cons c cs ih =>
    intro text h
    obtain ⟨first, rest, hfirst, hrest, rfl⟩ := cptsToUtf8_cons h
    have hpos := length_pos_of_ne_nil (cptToUtf8_ne_nil hfirst)
    have hle := ih hrest
    rw [length_cons, length_append]
    omega

section
variable (h : PlamoBuilt a v m blocks x t) (hv : PlamoVocab a v)
include h hv

lemma PlamoBuilt.segmentation_le {text : Str} {parts : List Part} {total : Int}
    (hseg : Segmentation a v text parts total) : ∃ cs, cptsToUtf8 cs = some text ∧ total ≤ -cost t cs := by
  induction hseg with
  | nil => exact ⟨[], rfl, Int.le_refl 0⟩
  | @cons part piece text parts score total hpart hseg ih =>
    obtain ⟨cs, hcs, hle⟩ := ih
    obtain ⟨hcanon, hne⟩ := hpart.encodes hv
    refine ⟨cptsFromUtf8 piece ++ cs, cptsToUtf8_append_some hcs hcanon, ?_⟩
    cases hpiece : cptsFromUtf8 piece with
    | nil => exact absurd hpiece hne
    | cons c ds =>
      have hcost := @PlamoBuilt.cost_le F a v m blocks x t h hv c (ds ++ cs) _ _ _ hpart (by rw [hpiece]; exact prefix_append _ _)
      rw [hpiece, ← cons_append, drop_left] at hcost
      omega

lemma PlamoBuilt.decodePath_segmentation : ∀ {fuel : Nat} {cs : List UInt32} {text : Str}, cs.length ≤ fuel →
    cs.length < 2 ^ 31 → cptsToUtf8 cs = some text → ∃ parts, Segmentation a v text parts (-cost t cs) ∧
        decodePath t fuel cs (sweep t cs).2 = parts.flatMap (Part.tokens t) := by
  intro fuel
  induction fuel with
  | zero =>
    intro cs text hfuel _ henc
    cases length_eq_zero_iff.1 (Nat.le_zero.1 hfuel)
    cases henc
    exact ⟨[], .nil, rfl⟩
  | succ fuel ih =>
    intro cs text hfuel hshort henc
    cases cs with
    | nil =>
      cases henc
      exact ⟨[], .nil, rfl⟩
    | cons c cs =>
      obtain ⟨part, piece, score, cell, hpart, hpre, hcost, hcells, hlen, htokens⟩ := h.cost_part hv henc hshort
      obtain ⟨hcanon, hne⟩ := hpart.encodes hv
      have hpos := length_pos_of_ne_nil hne
      -- the text is the piece and what the rest of the code points encode
      have hsplit := take_append_drop (cptsFromUtf8 piece).length (c :: cs)
      rw [← prefix_iff_eq_take.1 hpre] at hsplit
      rw [← hsplit] at henc
      obtain ⟨head, tail, hhead, htail, rfl⟩ := cptsToUtf8_append henc
      rw [hcanon] at hhead
      cases hhead
      have hrest : ((c :: cs).drop (cptsFromUtf8 piece).length).length ≤ fuel := by
        rw [length_drop]
        omega
      obtain ⟨parts, hseg, hdecode⟩ := ih hrest (by rw [length_drop]; omega) htail
      refine ⟨part :: parts, ?_, ?_⟩
      · have htotal : -cost t (c :: cs) = score + -cost t ((c :: cs).drop (cptsFromUtf8 piece).length) := by
          omega
        rw [htotal]
        exact .cons hpart hseg
      · have hdrop : (cell :: (sweep t cs).2).drop cell.tokenLength =
            (sweep t ((c :: cs).drop (cptsFromUtf8 piece).length)).2 := by
          rw [← hcells, hlen]
          exact sweep_drop t hpre.length_le
        rw [hcells, decodePath, htokens, hdrop, hlen, hdecode, flatMap_cons]

lemma PlamoBuilt.encode_best {text : Str} (htext : Canonical text) (hbom : ¬ [0xEF, 0xBB, 0xBF] <+: text)
    (hshort : text.length < 2 ^ 31) :
    ∃ parts total, Segmentation a v text parts total ∧ plamoEncode t text = parts.flatMap (Part.tokens t) ∧
      ∀ parts' total', Segmentation a v text parts' total' → total' ≤ total := by
  have hdata : plamoData text = cptsFromUtf8 text := by
    unfold plamoData
    cases hcs : cptsFromUtf8 text with
    | nil => rfl
    | cons c cs =>
      refine if_neg ?_
      rintro rfl
      rw [Canonical, hcs] at htext
      obtain ⟨head, tail, hhead, -, rfl⟩ := cptsToUtf8_cons htext
      cases hhead
      exact hbom (prefix_append _ _)
  have hlen := lt_of_le_of_lt (length_le_of_encode htext) hshort
  obtain ⟨parts, hseg, hdecode⟩ := h.decodePath_segmentation hv (le_refl _) hlen htext
  refine ⟨parts, _, hseg, ?_, ?_⟩
  · rw [plamoEncode, hdata]
    exact hdecode
  · intro parts' total' hseg'
    obtain ⟨cs, hcs, hle⟩ := h.segmentation_le hv hseg'
    rw [cptsFromUtf8_encode hcs]
    exact hle

end

section
variable (hv : PlamoVocab a v)
include hv

lemma pieceOf_plamo {k : Nat} {d : TokenData F} (hget : v.idToToken[k]? = some d) :
    pieceOf v true false k = plamoPiece false d := by
  have hnat : ¬ (k : Int) < 0 := by omega
  simp [pieceOf, hv.type, hnat, hget]

lemma pieceOf_text {k : Nat} {d : TokenData F} (hget : v.idToToken[k]? = some d) (hbyte : d.built.byte = false) :
    pieceOf v true false k = some d.text := by
  rw [pieceOf_plamo hv hget, plamoPiece, if_neg]
  · rfl
  · intro hcond
    have hframe : d.attr.byte = true ∧ byteFrame d.text = true := by
      simp only [Bool.and_assoc] at hcond
      simpa only [byteFrame, Bool.and_assoc, Bool.and_eq_true] using hcond
    rw [hv.kept d (mem_of_getElem? hget) hframe.2, hbyte] at hframe
    cases hframe.1

lemma pieceOf_number {k : Nat} {d : TokenData F} {b : UInt8} (hget : v.idToToken[k]? = some d)
    (hnum : Numbered d b.toNat) : pieceOf v true false k = some [b] := by
  have hattr := hv.kept d (mem_of_getElem? hget) hnum.2.1
  have hframe := hnum.2.1
  unfold byteFrame at hframe
  rw [pieceOf_plamo hv hget, plamoPiece, if_pos, stoiHex_hexNumber hnum.2.2]
  · have hlow : lowByte (b.toNat : Int) = b := by
      have hlt := UInt8.toNat_lt b
      have hmod : ((b.toNat : Int) % 256).toNat = b.toNat := by omega
      rw [lowByte, hmod, UInt8.ofNat_toNat]
    rw [map_some, hlow]
  · rw [hattr, hnum.1, Bool.true_and]
    exact hframe

lemma piecesFrom_bytes (hbytes : plamoBytes v = some t.bytes) : ∀ bytes : Str,
    piecesFrom v true false (bytes.map fun b => t.bytes.getD b.toNat 0) = some bytes := by
  intro bytes
  induction bytes with
  | nil => rfl
  | cons b bytes ih =>
    obtain ⟨k, d, hk, hget, hnum⟩ := plamoBytes_numbered hbytes (UInt8.toNat_lt b)
    rw [map_cons, piecesFrom, hk, pieceOf_number hv hget hnum, ih]
    rfl

lemma PlamoPart.pieces (hbytes : plamoBytes v = some t.bytes) {part : Part} {piece : Str} {score : Int}
    (h : PlamoPart a v part piece score) :
    part.tokens t ≠ [] ∧ piecesFrom v true false (part.tokens t) = some piece := by
  cases h with
  | token hget hbyte _ =>
    refine ⟨cons_ne_nil _ _, ?_⟩
    rw [Part.tokens, piecesFrom, pieceOf_text hv hget hbyte]
    exact congrArg some (append_nil _)
  | character henc =>
    rw [Part.tokens, henc, getD_some]
    refine ⟨?_, piecesFrom_bytes hv hbytes piece⟩
    intro hnil
    exact cptToUtf8_ne_nil henc (map_eq_nil_iff.1 hnil)

lemma Segmentation.pieces (hbytes : plamoBytes v = some t.bytes) {text : Str} {parts : List Part} {total : Int}
    (h : Segmentation a v text parts total) : piecesFrom v true false (parts.flatMap (Part.tokens t)) = some text := by
  induction h with
  | nil => rfl
  | cons hpart _ ih =>
    obtain ⟨hne, hpiece⟩ := hpart.pieces hv hbytes
    rw [flatMap_cons]
    exact piecesFrom_append hne hpiece ih

end

lemma foldlM_some {α σ : Type} {f : σ → α → Option σ} : ∀ {l : List α} (s : σ),
    (∀ s, ∀ y ∈ l, ∃ s', f s y = some s') → ∃ r, l.foldlM f s = some r := by
  intro l
  induction l with
  | nil =>
    intro s _
    exact ⟨s, rfl⟩
  | cons y l ih =>
    intro s hf
    obtain ⟨s', hs'⟩ := hf s y mem_cons_self
    obtain ⟨r, hr⟩ := ih s' fun s z hz => hf s z (mem_cons_of_mem y hz)
    refine ⟨r, ?_⟩
    rw [foldlM_cons, hs']
    exact hr

lemma mapM_some {α β : Type} {f : α → Option β} : ∀ {l : List α}, (∀ y ∈ l, ∃ z, f y = some z) →
    ∃ zs, l.mapM f = some zs := by
  intro l
  induction l with
  | nil =>
    intro _
    exact ⟨[], rfl⟩
  | cons y l ih =>
    intro hf
    obtain ⟨z, hz⟩ := hf y mem_cons_self
    obtain ⟨zs, hzs⟩ := ih fun w hw => hf w (mem_cons_of_mem y hw)
    refine ⟨z :: zs, ?_⟩
    rw [mapM_cons, hz, hzs]
    rfl

lemma Canonical.parts {text : Str} (h : Canonical text) (i : Nat) :
    (∃ head, cptsToUtf8 ((cptsFromUtf8 text).take i) = some head) ∧
      ∃ tail, cptsToUtf8 ((cptsFromUtf8 text).drop i) = some tail := by
  rw [Canonical, ← take_append_drop i (cptsFromUtf8 text)] at h
  obtain ⟨head, tail, hhead, htail, -⟩ := cptsToUtf8_append h
  exact ⟨⟨head, hhead⟩, tail, htail⟩

lemma suffixScores_some (htexts : ∀ d ∈ v.idToToken, Canonical d.text) : ∃ m, suffixScores v = some m := by
  refine foldlM_some [] ?_
  intro m d hd
  unfold addToken
  split
  · exact ⟨m, rfl⟩
  · obtain ⟨suffixes, hsuffixes⟩ := @mapM_some _ _ (fun i => cptsToUtf8 ((cptsFromUtf8 d.text).drop i))
      (List.range' 1 ((cptsFromUtf8 d.text).length - 1)) fun i _ => ((htexts d hd).parts i).2
    rw [properSuffixes, hsuffixes]
    exact ⟨_, rfl⟩

lemma plamoBytes_some (hb : ByteTokens v) : ∃ bytes, plamoBytes v = some bytes := by
  have hstep : ∀ bytes, ∀ e ∈ v.idToToken.zipIdx, ∃ bytes', addByte bytes e = some bytes' := by
    intro bytes e he
    have hmem : e.1 ∈ v.idToToken := mem_of_getElem? (mem_zipIdx_iff_getElem?.mp he)
    unfold addByte
    dsimp only
    split
    · rename_i hcond
      have hframe : e.1.built.byte = true ∧ byteFrame e.1.text = true := by
        simpa only [byteFrame, Bool.and_assoc, Bool.and_eq_true] using hcond
      obtain ⟨n, hn⟩ := hb.numbered e.1 hmem hframe.1 hframe.2
      rw [hn.2.2]
      exact ⟨_, rfl⟩
    · exact ⟨bytes, rfl⟩
  obtain ⟨bytes, hfold⟩ := foldlM_some (List.replicate 256 0) hstep
  have htable := byteTable_fold hfold
  refine ⟨bytes, ?_⟩
  rw [plamoBytes, hfold, bind_eq_bind, bind_some, if_neg]
  intro hany
  obtain ⟨id, hid, hzero⟩ := List.any_eq_true.1 hany
  obtain ⟨n, hn, rfl⟩ := getElem_of_mem hid
  have hlt : n < 256 := by rw [← htable.length]; exact hn
  obtain ⟨k, d, hpos, hget, hnum⟩ := hb.all n hlt
  refine htable.found n hlt ⟨(d, k), mem_zipIdx_iff_getElem?.mpr hget, hpos, hnum⟩ ?_
  rw [getD_eq_getElem?_getD, getElem?_eq_getElem hn]
  exact eq_of_beq hzero

lemma plamoBlocks_some (hc : Closed m.keys) : ∃ blocks, plamoBlocks m = some blocks := by
  refine mapM_some ?_
  intro s hs
  have hcanon : Canonical s := by
    rw [sortedSuffixes, mem_insertionSort, mem_append, mem_singleton] at hs
    rcases hs with hs | rfl
    · exact hc.canonical s hs
    · rfl
  have hpieces : ∀ i ∈ (List.range (cptsFromUtf8 s).length).reverse, ∃ p : Nat × Str,
      ((cptsToUtf8 ((cptsFromUtf8 s).take (i + 1))).bind fun piece => some (i + 1, piece)) = some p := by
    intro i _
    obtain ⟨piece, hpiece⟩ := (hcanon.parts (i + 1)).1
    exact ⟨(i + 1, piece), by rw [hpiece]; rfl⟩
  obtain ⟨pieces, hmap⟩ := mapM_some hpieces
  refine ⟨(s, pieces.filter fun p => m.has p.2), ?_⟩
  simp only [piecesOf, bind_eq_bind, hmap, bind_some, map_some]

/-- The constructor returns if every byte has its token. -/
theorem plamoBuild_some (hv : PlamoVocab a v) (hb : ByteTokens v) : ∃ t, plamoBuild a v = some t := by
  obtain ⟨m, hm⟩ := suffixScores_some hv.texts
  obtain ⟨bytes, hbytes⟩ := plamoBytes_some hb
  have hclosed := closed_suffixScores (fun d hd _ => hv.texts d hd) hm
  obtain ⟨blocks, hblocks⟩ := plamoBlocks_some hclosed
  have sound := blocks_of_plamoBlocks hclosed hblocks
  obtain ⟨x, hx⟩ : ∃ x, blocks.foldlM indexStep {} = some x := by
    refine @foldlM_some _ _ indexStep blocks {} ?_
    intro x b hb
    have hcanon := sound.canonical hb
    unfold indexStep
    dsimp only
    split
    · exact ⟨_, rfl⟩
    · rename_i c cs hcs
      rw [Canonical, hcs] at hcanon
      obtain ⟨-, remaining, -, hrem, -⟩ := cptsToUtf8_cons hcanon
      rw [hrem, bind_eq_bind, bind_some]
      split
      · exact ⟨_, rfl⟩
      · exact ⟨_, rfl⟩
  refine ⟨⟨bytes, x.toSuffixId, blocks.flatMap (blockRows a v m x.ids)⟩, ?_⟩
  simp only [plamoBuild, hm, hbytes, hblocks, hx, bind_eq_bind, bind_some]

/-- The finite values of type `float`. -/
def IsFloat (y : ℚ) : Prop := ∃ mantissa exponent : ℤ, |mantissa| < 2 ^ 24 ∧ y = mantissa * 2 ^ exponent

lemma IsFloat.neg {y : ℚ} (h : IsFloat y) : IsFloat (-y) := by
  obtain ⟨mantissa, exponent, hlt, rfl⟩ := h
  refine ⟨-mantissa, exponent, by rwa [abs_neg], ?_⟩
  rw [Int.cast_neg, neg_mul]

lemma IsFloat.gap {y : ℚ} (h : IsFloat y) (hlt : y < 1000) : y * 10000 + 1 / 2 < 10000000 := by
  obtain ⟨mantissa, exponent, hmantissa, rfl⟩ := h
  have hm : (mantissa : ℚ) < 2 ^ 24 := by exact_mod_cast (abs_lt.1 hmantissa).2
  obtain hlow | hhigh := Int.lt_or_le exponent (-14)
  · -- the value is below 512
    have hpos : (0 : ℚ) < 2 ^ exponent := zpow_pos (by norm_num) exponent
    have hpow : (2 : ℚ) ^ exponent ≤ 2 ^ (-15 : ℤ) := zpow_le_zpow_right₀ (by norm_num) (by omega)
    have hval : (mantissa : ℚ) * 2 ^ exponent ≤ 2 ^ 24 * 2 ^ exponent := by
      exact mul_le_mul_of_nonneg_right hm.le hpos.le
    have hsmall : (2 : ℚ) ^ 24 * 2 ^ exponent ≤ 2 ^ 24 * 2 ^ (-15 : ℤ) := mul_le_mul_of_nonneg_left hpow (by norm_num)
    have heq : (2 : ℚ) ^ 24 * 2 ^ (-15 : ℤ) = 512 := by norm_num
    linarith
  · -- the value is a multiple of the distance of the values from 512 on
    obtain ⟨k, hk⟩ := Int.eq_ofNat_of_zero_le (show 0 ≤ exponent + 14 by omega)
    have hpow : (2 : ℚ) ^ exponent = 2 ^ k / 16384 := by
      have hexp : exponent = (k : ℤ) - 14 := by omega
      rw [hexp, zpow_sub₀ (by norm_num), zpow_natCast]
      norm_num
    have hint : (mantissa : ℚ) * 2 ^ exponent = ((mantissa * 2 ^ k : ℤ) : ℚ) / 16384 := by
      rw [hpow]
      push_cast
      exact (mul_div_assoc _ _ _).symm
    rw [hint] at hlt ⊢
    have hbound : mantissa * 2 ^ k < 16384000 := by
      have hq : ((mantissa * 2 ^ k : ℤ) : ℚ) < ((16384000 : ℤ) : ℚ) := by
        push_cast at hlt ⊢
        linarith
      exact_mod_cast hq
    have hstep : ((mantissa * 2 ^ k : ℤ) : ℚ) ≤ 16383999 := by exact_mod_cast Int.le_of_lt_add_one hbound
    linarith

lemma round_float {y : ℚ} (h : IsFloat y) (hlow : -1000 < y) (hhigh : y < 1000) :
    ∃ score, exactScores.round y = some score ∧ unknownScore < score ∧ score < -unknownScore := by
  have bounds : ∀ {y : ℚ}, IsFloat y → 0 ≤ y → y < 1000 →
      0 ≤ (y * 10000 + 1 / 2).floor ∧ (y * 10000 + 1 / 2).floor < 10000000 := by
    intro y h hpos hlt
    refine ⟨Rat.le_floor_iff.2 ?_, Rat.floor_lt_iff.2 (h.gap hlt)⟩
    push_cast
    positivity
  refine ⟨_, rfl, ?_⟩
  have hunknown : unknownScore = -10000000 := rfl
  split
  · rename_i hpos
    obtain ⟨h0, h1⟩ := bounds h hpos hhigh
    omega
  · rename_i hneg
    obtain ⟨h0, h1⟩ := bounds h.neg (by linarith) (by linarith)
    omega

/-- The texts are valid UTF-8, the scores lie between -1000 and 1000, and no attribute of a byte token is changed on
loading. -/
structure FloatVocab (v : Vocab ℚ) : Prop where
  type : v.type = .plamo2
  texts : ∀ d ∈ v.idToToken, Canonical d.text
  scores : ∀ d ∈ v.idToToken, IsFloat d.score ∧ -1000 < d.score ∧ d.score < 1000
  kept : ∀ d ∈ v.idToToken, byteFrame d.text = true → d.attr.byte = d.built.byte

/-- If every byte has its token, then there is a tokenizer; the pieces of its tokens are the text, and they are the tokens
of a segmentation with the highest score. -/
theorem plamoEncode_best {v : Vocab ℚ} (hv : FloatVocab v) :
    (ByteTokens v → ∃ t, plamoBuild exactScores v = some t) ∧
    ∀ t, plamoBuild exactScores v = some t → ∀ text, Canonical text → ¬ [0xEF, 0xBB, 0xBF] <+: text →
      text.length < 2 ^ 31 → piecesFrom v true false (plamoEncode t text) = some text ∧
      ∃ parts total, Segmentation exactScores v text parts total ∧
        plamoEncode t text = parts.flatMap (Part.tokens t) ∧
        ∀ parts' total', Segmentation exactScores v text parts' total' → total' ≤ total := by
  have hvocab : PlamoVocab exactScores v := by
    refine ⟨hv.type, hv.texts, ?_, hv.kept⟩
    intro d hd _
    obtain ⟨hfloat, hlow, hhigh⟩ := hv.scores d hd
    exact round_float hfloat hlow hhigh
  refine ⟨plamoBuild_some hvocab, ?_⟩
  intro t ht text htext hbom hshort
  obtain ⟨m, blocks, x, h⟩ := plamoBuilt_of_build hvocab ht
  obtain ⟨parts, total, hseg, hencode, hbest⟩ := h.encode_best hvocab htext hbom hshort
  refine ⟨?_, parts, total, hseg, hencode, hbest⟩
  rw [hencode]
  exact hseg.pieces hvocab h.bytes

def plamoByte (b : UInt8) : TokenData ℚ := ⟨byteText b, 0, { byte := true }, { byte := true }⟩

def plamoBytesOf : List (TokenData ℚ) := (List.range 256).map fun n => plamoByte (UInt8.ofNat n)

/-- The texts `ab` and `a`. -/
def plamoLetters : List (TokenData ℚ) :=
  [⟨[97, 98], -3 / 2, { normal := true }, { normal := true }⟩, ⟨[97], -1, { normal := true }, { normal := true }⟩]

lemma mem_plamoBytesOf {d : TokenData ℚ} (h : d ∈ plamoBytesOf) : ∃ b, d = plamoByte b := by
  obtain ⟨n, -, rfl⟩ := List.mem_map.1 h
  exact ⟨_, rfl⟩

lemma plamoByte_numbered (b : UInt8) : Numbered (plamoByte b) b.toNat := by
  refine ⟨rfl, ?_, ?_⟩
  · exact forall_byte (fun b => byteFrame (byteText b) = true) (by decide +kernel) b
  · exact forall_byte (fun b => stoiHex (span (byteText b) 3 2) = some b.toNat) (by decide +kernel) b

lemma nodup_plamoTexts : ((plamoLetters ++ plamoBytesOf).map TokenData.text).Nodup := by
  rw [map_append, nodup_append]
  refine ⟨by decide, ?_, ?_⟩
  · rw [plamoBytesOf, List.map_map]
    exact nodup_map_bytes byteText_inj
  · intro text htext text' htext' heq
    obtain ⟨d, hd, rfl⟩ := List.mem_map.1 htext'
    obtain ⟨b, rfl⟩ := mem_plamoBytesOf hd
    have hlen : ∀ text ∈ plamoLetters.map TokenData.text, text.length < 3 := by decide
    have hshort := hlen text htext
    rw [heq] at hshort
    exact absurd hshort (by decide : ¬ 6 < 3)

def plamoLetterVocab : Vocab ℚ :=
  .plain .plamo2 (plamoLetters ++ plamoBytesOf) (-1) [] nofun nodup_plamoTexts <| by
    intro d hd
    rcases mem_append.1 hd with hd | hd
    · exact (by decide : ∀ d ∈ plamoLetters, d.text ≠ []) d hd
    · obtain ⟨b, rfl⟩ := mem_plamoBytesOf hd
      exact cons_ne_nil _ _

lemma floatVocab_letters : FloatVocab plamoLetterVocab where
  type := rfl
  texts := by
    intro d hd
    rcases mem_append.1 hd with hd | hd
    · exact (by decide : ∀ d ∈ plamoLetters, cptsToUtf8 (cptsFromUtf8 d.text) = some d.text) d hd
    · obtain ⟨b, rfl⟩ := mem_plamoBytesOf hd
      exact forall_byte (fun b => cptsToUtf8 (cptsFromUtf8 (byteText b)) = some (byteText b)) (by decide +kernel) b
  scores := by
    intro d hd
    rcases mem_append.1 hd with hd | hd
    · rcases mem_cons.1 hd with rfl | hd
      · refine ⟨⟨-3, -1, by decide, ?_⟩, ?_, ?_⟩ <;> norm_num
      · cases mem_singleton.1 hd
        refine ⟨⟨-1, 0, by decide, ?_⟩, ?_, ?_⟩ <;> norm_num
    · obtain ⟨b, rfl⟩ := mem_plamoBytesOf hd
      refine ⟨⟨0, 0, by decide, ?_⟩, ?_, ?_⟩ <;> norm_num [plamoByte]
  kept := by
    intro d hd _
    rcases mem_append.1 hd with hd | hd
    · exact (by decide : ∀ d ∈ plamoLetters, d.attr.byte = d.built.byte) d hd
    · obtain ⟨b, rfl⟩ := mem_plamoBytesOf hd
      rfl

lemma byteTokens_letters : ByteTokens plamoLetterVocab where
  all := by
    intro n hn
    refine ⟨n + 2, plamoByte (UInt8.ofNat n), Nat.succ_pos _, ?_, ?_⟩
    · have hget : (plamoLetters ++ plamoBytesOf)[n + plamoLetters.length]? = plamoBytesOf[n]? := by
        rw [getElem?_append_right (Nat.le_add_left _ _), Nat.add_sub_cancel]
      refine hget.trans ?_
      rw [plamoBytesOf, getElem?_map, getElem?_range hn]
      rfl
    · have hnum := plamoByte_numbered (UInt8.ofNat n)
      rwa [UInt8.toNat_ofNat', Nat.mod_eq_of_lt hn] at hnum
  numbered := by
    intro d hd hbyte _
    rcases mem_append.1 hd with hd | hd
    · rw [(by decide : ∀ d ∈ plamoLetters, d.built.byte = false) d hd] at hbyte
      cases hbyte
    · obtain ⟨b, rfl⟩ := mem_plamoBytesOf hd
      exact ⟨_, plamoByte_numbered b⟩

/-- The tokens of `abc` give `abc`. -/
theorem plamoEncode_letters : ∃ t, plamoBuild exactScores plamoLetterVocab = some t ∧
    piecesFrom plamoLetterVocab true false (plamoEncode t [97, 98, 99]) = some [97, 98, 99] := by
  obtain ⟨hbuild, hbest⟩ := plamoEncode_best floatVocab_letters
  obtain ⟨t, ht⟩ := hbuild byteTokens_letters
  exact ⟨t, ht, (hbest t ht [97, 98, 99] (by rfl) (by decide) (by decide)).1⟩

end Mallana.Tokenizer
