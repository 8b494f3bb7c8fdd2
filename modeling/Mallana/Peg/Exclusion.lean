import Mallana.Peg.Basic
import Mallana.Peg.CharClass
import Mallana.Schema.Rejected

/-!
# The grammar of what stands before a delimiter

`gbnf_excluding_pattern` of `common/peg-parser.cpp` reads a pattern off the trie of the delimiters: at each node that is
no word, a character that does not lead on. The trie has no failure links, so the pattern derives the texts without a
delimiter only where every node but the root is a word.
-/

namespace Mallana.Peg

open Lib Tokenizer Grammar Schema List Option

/-- The characters that lead on from a node, in the order of `std::map`. -/
def nextChars (t : Trie UInt32 Unit) : List UInt32 := (t.children.map Prod.fst).mergeSort fun c d => c ≤ d

/-- `trie::collect_prefix_and_next` -/
def collectPrefixAndNext : Nat → Trie UInt32 Unit → List UInt32 → List (List UInt32 × List UInt32)
  | 0, _, _ => []
  | fuel + 1, t, pre =>
    (if t.value.isNone && !t.children.isEmpty then [(pre, nextChars t)] else []) ++ (nextChars t).flatMap fun c =>
        match t.child c with
        | none => []
        | some s => collectPrefixAndNext fuel s (pre ++ [c])

def wordChars (word : Str) : List UInt32 := wordCodepoints word.length word

def trieDepth (words : List Str) : Nat := (words.map fun word => (wordChars word).length).foldl max 0 + 1

/-- The text of a prefix and the characters that do not follow it. -/
def pieceText (piece : List UInt32 × List UInt32) : Option Str :=
  (cptsToUtf8 piece.1).map fun text =>
    (if piece.1 = [] then [] else formatLiteral text ++ [32]) ++ excludedText piece.2

/-- `gbnf_excluding_pattern`; `none` is an exception. -/
def gbnfExcludingPattern (strings : List Str) : Option Str :=
  ((collectPrefixAndNext (trieDepth strings) (matcher strings) []).mapM pieceText).map fun texts =>
    40 :: List.intercalate [32, 124, 32] texts ++ [41, 42]

def Scalar (c : UInt32) : Prop := c.toNat < 0x110000 ∧ ¬ (0xD800 ≤ c.toNat ∧ c.toNat < 0xE000)

instance (c : UInt32) : Decidable (Scalar c) := inferInstanceAs (Decidable (_ ∧ _))

def Valid (word : Str) : Prop := (∀ c ∈ wordChars word, Scalar c) ∧ cptsToUtf8 (wordChars word) = some word

instance (word : Str) : Decidable (Valid word) := @instDecidableAnd _ _ (decidableBAll _ _) _

/-- The grammar with the pattern derives the texts in which no delimiter occurs. -/
def Excludes (strings : List Str) : Prop :=
  ∃ pattern L, gbnfExcludingPattern strings = some pattern ∧ Accepts (cString pattern) L ∧
    ∀ s, (∀ c ∈ s, Scalar c) → (s ∈ L ↔ ∀ word ∈ strings, ¬ wordChars word <:+: s)

/-- Every prefix of a delimiter is a delimiter, and none begins with a hyphen. -/
def Stops (strings : List Str) : Prop :=
  (∀ word ∈ strings, ∀ path, path ≠ [] → path <+: wordChars word → ∃ w ∈ strings, wordChars w = path) ∧
    ∀ word ∈ strings, (wordChars word).head? ≠ some 45

section
variable {t s : Trie UInt32 Unit} {c : UInt32} {path pre next : List UInt32} {words : List Str} {fuel : Nat}

lemma mem_nextChars : c ∈ nextChars t ↔ (t.child c).isSome := by
  rw [nextChars, mem_mergeSort, Trie.child, isSome_map, find?_isSome]
  simp

lemma mem_collectPrefixAndNext : (path, next) ∈ collectPrefixAndNext fuel t pre ↔
    ∃ rest s, rest.length < fuel ∧ path = pre ++ rest ∧ t.descend rest = some s ∧ s.value = none ∧
      s.children ≠ [] ∧ next = nextChars s := by
  induction fuel generalizing t pre with
  | zero => simp [collectPrefixAndNext]
  | succ fuel ih =>
    rw [collectPrefixAndNext, mem_append, mem_flatMap]
    constructor
    · rintro (h | ⟨c, hc, h⟩)
      · split at h
        · rename_i hnode
          rw [Bool.and_eq_true, isNone_iff_eq_none, Bool.not_eq_true', isEmpty_eq_false_iff] at hnode
          cases mem_singleton.1 h
          exact ⟨[], t, Nat.succ_pos _, (append_nil _).symm, rfl, hnode.1, hnode.2, rfl⟩
        · cases h
      · cases hchild : t.child c with
        | none =>
          rw [hchild] at h
          cases h
        | some s =>
          rw [hchild] at h
          obtain ⟨rest, u, hlen, rfl, hdescend, hvalue, hchildren, rfl⟩ := ih.1 h
          refine ⟨c :: rest, u, Nat.succ_lt_succ hlen, by simp, ?_, hvalue, hchildren, rfl⟩
          rw [Trie.descend, hchild]
          exact hdescend
    · rintro ⟨rest, u, hlen, rfl, hdescend, hvalue, hchildren, rfl⟩
      cases rest with
      | nil =>
        cases hdescend
        left
        rw [if_pos (by simp [hvalue, hchildren]), append_nil]
        exact mem_singleton.2 rfl
      | cons c rest =>
        right
        rw [Trie.descend] at hdescend
        cases hchild : t.child c with
        | none =>
          rw [hchild] at hdescend
          cases hdescend
        | some s =>
          rw [hchild] at hdescend
          refine ⟨c, mem_nextChars.2 (by rw [hchild]; rfl), ?_⟩
          rw [hchild]
          exact ih.2 ⟨rest, u, Nat.lt_of_succ_lt_succ hlen, by simp, hdescend, hvalue, hchildren, rfl⟩

lemma isSome_descend_matcher :
    ((matcher words).descend path).isSome ↔ path = [] ∨ ∃ word ∈ words, path <+: wordChars word := by
  rw [matcher, Trie.isSome_descend_ofList]
  simp [wordChars]

lemma isSome_find_matcher : ((matcher words).find path).isSome ↔ ∃ word ∈ words, wordChars word = path := by
  rw [matcher, Trie.isSome_find_ofList]
  simp [wordChars]

lemma le_foldl_max {l : List Nat} {n k : Nat} (h : n ∈ l ∨ n ≤ k) : n ≤ l.foldl max k := by
  induction l generalizing k with
  | nil => exact h.resolve_left not_mem_nil
  | cons m l ih =>
    rw [foldl_cons]
    apply ih
    obtain h | h := h
    · obtain rfl | h := mem_cons.1 h
      · exact .inr (le_max_right _ _)
      · exact .inl h
    · exact .inr (h.trans (le_max_left _ _))

lemma lt_trieDepth {word : Str} (h : word ∈ words) : (wordChars word).length < trieDepth words :=
  Nat.lt_succ_of_le (le_foldl_max (.inl (List.mem_map_of_mem (f := fun word => (wordChars word).length) h)))

lemma mem_nextChars_matcher (h : (matcher words).descend path = some s) :
    c ∈ nextChars s ↔ ∃ word ∈ words, path ++ [c] <+: wordChars word := by
  have hnext : (s.child c).isSome ↔ ((matcher words).descend (path ++ [c])).isSome := by
    rw [Trie.descend_append, h, bind_some, Trie.descend]
    cases s.child c with
    | none => simp
    | some u => simp [Trie.descend]
  rw [mem_nextChars, hnext, isSome_descend_matcher]
  exact or_iff_right (by simp)

lemma children_ne_nil : s.children ≠ [] ↔ ∃ c, c ∈ nextChars s := by
  constructor
  · intro h
    obtain ⟨p, hp⟩ := exists_mem_of_ne_nil _ h
    refine ⟨p.1, ?_⟩
    rw [nextChars, mem_mergeSort]
    exact List.mem_map_of_mem hp
  · rintro ⟨c, hc⟩ hnil
    rw [nextChars, hnil] at hc
    simp at hc

lemma mem_pieces : (path, next) ∈ collectPrefixAndNext (trieDepth words) (matcher words) [] ↔
    (¬ ∃ word ∈ words, wordChars word = path) ∧ (∃ c, ∃ word ∈ words, path ++ [c] <+: wordChars word) ∧
      ∃ s, (matcher words).descend path = some s ∧ next = nextChars s := by
  have hvalue : ∀ {s}, (matcher words).descend path = some s →
      (s.value = none ↔ ¬ ∃ word ∈ words, wordChars word = path) := by
    intro s hs
    rw [← isSome_find_matcher, Trie.find_eq_descend, hs, bind_some, not_isSome_iff_eq_none]
  rw [mem_collectPrefixAndNext]
  constructor
  · rintro ⟨rest, s, _, rfl, hs, hnone, hchildren, rfl⟩
    obtain ⟨c, hc⟩ := children_ne_nil.1 hchildren
    exact ⟨(hvalue hs).1 hnone, ⟨c, (mem_nextChars_matcher hs).1 hc⟩, s, hs, rfl⟩
  · rintro ⟨hword, ⟨c, hc⟩, s, hs, rfl⟩
    refine ⟨path, s, ?_, rfl, hs, (hvalue hs).2 hword, children_ne_nil.2 ⟨c, (mem_nextChars_matcher hs).2 hc⟩, rfl⟩
    obtain ⟨word, hmem, hpre⟩ := hc
    have hlen := hpre.length_le
    have hdepth := lt_trieDepth hmem
    rw [length_append] at hlen
    omega

end

def pieceWords (piece : List UInt32 × List UInt32) : Language UInt32 := {piece.1} * excludedWords piece.2

def unionWords (pieces : List (List UInt32 × List UInt32)) : Language UInt32 := {w | ∃ x ∈ pieces, w ∈ pieceWords x}

/-- A piece that the parser does not read: its prefix is cut at a zero, or its class has a hyphen. -/
def Broken (piece : List UInt32 × List UInt32) : Prop := 0 ∈ piece.1 ∨ 45 ∈ piece.2

section
variable {piece : List UInt32 × List UInt32} {pieces : List (List UInt32 × List UInt32)} {text t s rest : Str}
  {texts : List Str} {cs : List UInt32} {tokenize : List UInt8 → Option UInt32}

lemma zero_notMem_encoded {c : UInt32} {bytes : Str} (h : cptToUtf8 c = some bytes) (hc : c ≠ 0) : 0 ∉ bytes := by
  have hlead : ∀ y < 64, UInt8.ofNat (0x80 + y) ≠ 0 ∧ UInt8.ofNat (0xc0 + y) ≠ 0 := by decide
  have htail : ∀ {y}, y < 64 → (0 : UInt8) ≠ UInt8.ofNat (0x80 + y) := fun hy => (hlead _ hy).1.symm
  cases cptToUtf8_encodes h with
  | @one a ha =>
    intro hmem
    have hzero : ∀ a < 128, UInt8.ofNat a = 0 → a = 0 := by decide
    rw [hzero a ha (mem_singleton.1 hmem).symm] at hc
    exact hc rfl
  | @two a b ha hb =>
    have hfirst : (0 : UInt8) ≠ UInt8.ofNat (0xc0 + a) := (hlead a (by omega)).2.symm
    simp only [mem_cons, not_mem_nil, or_false, not_or]
    exact ⟨hfirst, htail hb⟩
  | @three a b d ha hb hd =>
    have hfirst : (0 : UInt8) ≠ UInt8.ofNat (0xe0 + a) := by
      rw [show 0xe0 + a = 0xc0 + (32 + a) by omega]
      exact (hlead (32 + a) (by omega)).2.symm
    simp only [mem_cons, not_mem_nil, or_false, not_or]
    exact ⟨hfirst, htail hb, htail hd⟩
  | @four a b d e ha hb hd he =>
    have hfirst : (0 : UInt8) ≠ UInt8.ofNat (0xf0 + a) := by
      rw [show 0xf0 + a = 0xc0 + (48 + a) by omega]
      exact (hlead (48 + a) (by omega)).2.symm
    simp only [mem_cons, not_mem_nil, or_false, not_or]
    exact ⟨hfirst, htail hb, htail hd, htail he⟩

lemma zero_notMem_text (h : cptsToUtf8 cs = some text) (hcs : 0 ∉ cs) : 0 ∉ text := by
  induction cs generalizing text with
  | nil =>
    cases h
    exact not_mem_nil
  | cons c cs ih =>
    obtain ⟨hc, hcs⟩ := not_or.1 fun h' => hcs (mem_cons.2 h')
    obtain ⟨head, tail, hhead, htail, rfl⟩ := cptsToUtf8_cons h
    rw [mem_append, not_or]
    exact ⟨zero_notMem_encoded hhead (Ne.symm hc), ih htail hcs⟩

lemma zero_notMem_hexText (n k : Nat) : 0 ∉ hexText n k := by
  have hdigit : ∀ d < 16, Tokenizer.hexDigit (UInt8.ofNat d) ≠ 0 := by decide
  induction n with
  | zero => exact not_mem_nil
  | succ n ih =>
    rw [hexText, mem_cons, not_or]
    exact ⟨(hdigit _ (Nat.mod_lt _ (by decide))).symm, ih⟩

lemma zero_notMem_escape (c : UInt32) : 0 ∉ gbnfEscapeCharClass c := by
  unfold gbnfEscapeCharClass
  split
  · rename_i h
    obtain rfl | rfl | rfl | rfl := h <;> decide
  split
  · decide
  split
  · decide
  split
  · decide
  split
  · rename_i h
    have hlow : 32 ≤ c.toNat := UInt32.le_iff_toNat_le.1 h.1
    have hhigh : c.toNat ≤ 126 := UInt32.le_iff_toNat_le.1 h.2
    rw [mem_singleton]
    intro heq
    have := congrArg UInt8.toNat heq
    rw [UInt32.toNat_toUInt8, Nat.mod_eq_of_lt (by omega)] at this
    change 0 = c.toNat at this
    omega
  split
  · simp [zero_notMem_hexText]
  split
  · simp [zero_notMem_hexText]
  · simp [zero_notMem_hexText]

lemma zero_notMem_excludedText : 0 ∉ excludedText cs := by
  rw [excludedText]
  simp [zero_notMem_escape]

lemma solid_excludedText : Solid (excludedText cs ++ rest) := by
  intro c hc
  cases hc
  decide

lemma solid_quoted : Solid (34 :: rest) := by
  intro c hc
  cases hc
  decide

lemma runs_last {k : Nat} {u : Str} {L : Language UInt32} (h : RunsKind tokenize .item k u L) (hs : Blank s) :
    RunsKind tokenize .seq k (u ++ s) L := by
  have hseq := @runs_cons tokenize k 0 s [] u L 1 hs (fun _ hrest => hrest) h runs_nil
  rw [append_nil, mul_one] at hseq
  exact hseq

lemma runs_piece (h : pieceText piece = some t) (hne : piece.2 ≠ []) (hread : ¬ Broken piece) (hs : Blank s) :
    RunsKind tokenize .seq 0 (t ++ s) (pieceWords piece) := by
  obtain ⟨text, htext, rfl⟩ := map_eq_some_iff.1 h
  have hclass := runs_last (runs_atom (@runs_excluded piece.2 tokenize hne fun h => hread (.inr h))) hs
  obtain ⟨pre, next⟩ := piece
  dsimp only at htext hclass ⊢
  split
  · rename_i hpre
    subst hpre
    have hwords : pieceWords ([], next) = excludedWords next := by
      rw [pieceWords]
      exact one_mul _
    rw [hwords, nil_append]
    exact hclass
  · have hpiece := runs_cons blank_one (fun _ _ => by
      rw [append_assoc]
      exact solid_excludedText) (runs_lit htext) hclass
    have hassoc : formatLiteral text ++ [32] ++ excludedText next ++ s =
        formatLiteral text ++ [32] ++ (excludedText next ++ s) := append_assoc _ _ _
    rw [hassoc]
    exact hpiece

lemma solid_piece (h : pieceText piece = some t) : Solid (t ++ rest) := by
  obtain ⟨text, _, rfl⟩ := map_eq_some_iff.1 h
  split
  · exact solid_excludedText
  · rw [formatLiteral]
    exact solid_quoted

lemma zero_notMem_piece (h : pieceText piece = some t) (hzero : 0 ∉ piece.1) : 0 ∉ t := by
  obtain ⟨text, htext, rfl⟩ := map_eq_some_iff.1 h
  rw [mem_append, not_or]
  refine ⟨?_, zero_notMem_excludedText⟩
  split
  · exact not_mem_nil
  · rw [mem_append, not_or]
    exact ⟨zero_notMem_formatLiteral (zero_notMem_text htext hzero), by decide⟩

def Written (pieces : List (List UInt32 × List UInt32)) (texts : List Str) : Prop :=
  List.Forall₂ (fun piece t => pieceText piece = some t) pieces texts

lemma written_of_mapM (h : pieces.mapM pieceText = some texts) : Written pieces texts := by
  induction pieces generalizing texts with
  | nil =>
    cases h
    exact .nil
  | cons piece pieces ih =>
    rw [mapM_cons] at h
    obtain ⟨t, ht, h⟩ := bind_eq_some_iff.1 h
    obtain ⟨ts, hts, h⟩ := bind_eq_some_iff.1 h
    cases h
    exact .cons ht (ih hts)

/-- ` | ` -/
def bar : Str := [32, 124, 32]

lemma unionWords_cons : unionWords (piece :: pieces) = pieceWords piece + unionWords pieces := by
  ext w
  rw [Language.mem_add]
  constructor
  · rintro ⟨x, hx, hw⟩
    obtain rfl | hx := mem_cons.1 hx
    · exact .inl hw
    · exact .inr ⟨x, hx, hw⟩
  · rintro (hw | ⟨x, hx, hw⟩)
    · exact ⟨piece, mem_cons_self, hw⟩
    · exact ⟨x, mem_cons_of_mem _ hx, hw⟩

lemma unionWords_singleton : unionWords [piece] = pieceWords piece := by
  have hnil : unionWords [] = 0 := by
    ext w
    exact ⟨fun ⟨x, hx, _⟩ => (not_mem_nil hx).elim, fun h => (Language.notMem_zero w h).elim⟩
  rw [unionWords_cons, hnil, add_zero]

lemma intercalate_cons {u : Str} :
    List.intercalate bar (t :: u :: texts) = t ++ [32] ++ 124 :: [32] ++ List.intercalate bar (u :: texts) := by
  rw [intercalate_cons_cons, bar]
  simp

lemma solid_pieces (h : Written pieces texts) (hpieces : pieces ≠ []) :
    Solid (List.intercalate bar texts ++ rest) := by
  cases h with
  | nil => exact absurd rfl hpieces
  | @cons piece t pieces texts ht hts =>
    cases texts with
    | nil =>
      rw [intercalate_singleton]
      exact solid_piece ht
    | cons u texts =>
      rw [intercalate_cons]
      simp only [append_assoc]
      exact solid_piece ht

section
variable (h : Written pieces texts) (hpieces : pieces ≠ []) (hne : ∀ x ∈ pieces, x.2 ≠ [])
  (hread : ∀ x ∈ pieces, ¬ Broken x)
include h hpieces hne hread

lemma runs_pieces :
    RunsKind tokenize .alts 0 (List.intercalate bar texts) (unionWords pieces) := by
  induction h with
  | nil => exact absurd rfl hpieces
  | @cons piece t pieces texts ht hts ih =>
    have hfirst := fun {s : Str} => @runs_piece piece t s tokenize ht (hne piece mem_cons_self)
      (hread piece mem_cons_self)
    cases hts with
    | nil =>
      have hone := runs_one (hfirst blank_nil)
      rw [append_nil] at hone
      rw [intercalate_singleton, unionWords_singleton]
      exact hone
    | @cons piece' u pieces texts hu hts =>
      have hrest := ih (cons_ne_nil _ _) (fun x hx => hne x (mem_cons_of_mem _ hx))
        fun x hx => hread x (mem_cons_of_mem _ hx)
      rw [intercalate_cons, unionWords_cons]
      exact runs_more blank_one (fun _ _ => solid_pieces (.cons hu hts) (cons_ne_nil _ _)) (hfirst blank_one) hrest

lemma runs_pattern :
    RunsKind tokenize .alts 2 (40 :: List.intercalate bar texts ++ [41, 42]) (powers (unionWords pieces) 0 none) := by
  have halts := @runs_pieces pieces texts tokenize h hpieces hne hread
  have hgroup := runs_group blank_nil (fun _ _ => solid_pieces h hpieces) halts
  have hstar := runs_rep .star ⟨fun i hi => (nomatch hi), by decide⟩ hgroup
  have htext : 40 :: List.intercalate bar texts ++ [41, 42] =
      40 :: [] ++ List.intercalate bar texts ++ [41] ++ [42] ++ [] := by simp
  rw [htext]
  exact runs_one (runs_last hstar blank_nil)

end

lemma zero_notMem_pieces (h : Written pieces texts) (hzero : ∀ x ∈ pieces, 0 ∉ x.1) :
    0 ∉ List.intercalate bar texts := by
  induction h with
  | nil => simp [List.intercalate]
  | @cons piece t pieces texts ht hts ih =>
    have hfirst := zero_notMem_piece ht (hzero piece mem_cons_self)
    have hrest := ih fun x hx => hzero x (mem_cons_of_mem _ hx)
    cases texts with
    | nil =>
      rw [intercalate_singleton]
      exact hfirst
    | cons u texts =>
      rw [intercalate_cons]
      simp only [mem_append, mem_cons, not_mem_nil, or_false, not_or]
      exact ⟨⟨⟨hfirst, by decide⟩, ⟨by decide, by decide⟩⟩, hrest⟩

lemma cString_eq (h : 0 ∉ t) : cString t = t := by
  have hcut := @cString_append t [] h
  rw [append_nil] at hcut
  rw [hcut]
  exact append_nil t

lemma pattern_accepts (h : Written pieces texts) (hpieces : pieces ≠ []) (hne : ∀ x ∈ pieces, x.2 ≠ [])
    (hread : ∀ x ∈ pieces, ¬ Broken x) :
    Accepts (cString (40 :: List.intercalate bar texts ++ [41, 42])) (powers (unionWords pieces) 0 none) := by
  have hzero := zero_notMem_pieces h fun x hx hmem => hread x hx (.inl hmem)
  rw [cString_eq (by simp [hzero])]
  refine runs_accepts (fun tokenize => runs_pattern h hpieces hne hread) ?_ (by decide)
  intro c hc
  cases hc
  decide

lemma literal_open (h : cptsToUtf8 cs = some text) (fuel : Nat) (rule : GrRule) :
    GrParser.literal fuel (escaped text) rule = none := by
  induction cs generalizing text fuel rule with
  | nil =>
    cases h
    cases fuel <;> rfl
  | cons c cs ih =>
    obtain ⟨head, tail, hhead, htail, rfl⟩ := cptsToUtf8_cons h
    obtain ⟨hquote, hchar⟩ := parseChar_escaped (cptToUtf8_encodes hhead) (escaped tail)
    cases fuel with
    | zero => rfl
    | succ fuel =>
      rw [escaped_append, GrParser.literal, if_neg hquote, hchar, bind_eq_bind, bind_some]
      exact ih htail _ _

lemma cptsToUtf8_append {ds : List UInt32} (h : cptsToUtf8 (cs ++ ds) = some text) :
    ∃ a b, cptsToUtf8 cs = some a ∧ cptsToUtf8 ds = some b ∧ text = a ++ b := by
  induction cs generalizing text with
  | nil => exact ⟨[], text, rfl, h, rfl⟩
  | cons c cs ih =>
    obtain ⟨head, tail, hhead, htail, rfl⟩ := cptsToUtf8_cons h
    obtain ⟨a, b, ha, hb, rfl⟩ := ih htail
    exact ⟨head ++ a, b, cptsToUtf8_cons_some hhead ha, hb, (append_assoc _ _ _).symm⟩

lemma seqFails_zero (h : cptsToUtf8 cs = some text) (hzero : 0 ∈ cs) :
    SeqFails tokenize (cString (formatLiteral text ++ rest)) := by
  obtain ⟨front, back, rfl, hfront⟩ := eq_append_cons_of_mem hzero
  obtain ⟨a, b, ha, hb, rfl⟩ := cptsToUtf8_append h
  obtain ⟨head, tail, hhead, _, rfl⟩ := cptsToUtf8_cons hb
  have hnul : cptToUtf8 0 = some [0] := rfl
  cases hnul.symm.trans hhead
  have hcut : cString (formatLiteral (a ++ ([0] ++ tail)) ++ rest) = 34 :: escaped a := by
    have hsplit : formatLiteral (a ++ ([0] ++ tail)) ++ rest =
        (34 :: escaped a) ++ 0 :: (escaped tail ++ [34] ++ rest) := by
      rw [formatLiteral, escaped_append, escaped_append]
      have hnul : escaped [0] = [0] := rfl
      rw [hnul]
      simp
    have hnone : 0 ∉ 34 :: escaped a := by
      have := zero_notMem_formatLiteral (zero_notMem_text ha hfront)
      rw [formatLiteral, mem_append, not_or] at this
      exact this.1
    rw [hsplit, cString_append hnone]
    exact append_nil _
  rw [hcut]
  refine SeqFails.step fun alternates fuel ruleName isNested rule l c p => ?_
  change (GrParser.literal fuel (escaped a) rule).bind _ = _
  rw [literal_open ha]
  rfl

lemma seqFails_hyphen (h : 45 ∈ cs) : SeqFails tokenize (excludedText cs ++ rest) := by
  refine SeqFails.step fun alternates fuel ruleName isNested rule l c p => ?_
  rw [seqStep_excluded rfl, charClass_hyphen h]
  rfl

lemma seqFails_piece (h : pieceText piece = some t) (hbroken : Broken piece) :
    SeqFails tokenize (cString (t ++ rest)) := by
  obtain ⟨text, htext, rfl⟩ := map_eq_some_iff.1 h
  obtain ⟨pre, next⟩ := piece
  dsimp only at htext ⊢
  by_cases hzero : 0 ∈ pre
  · rw [if_neg (ne_nil_of_mem hzero)]
    simp only [append_assoc]
    exact seqFails_zero htext hzero
  · have hhyphen : 45 ∈ next := hbroken.resolve_left hzero
    split
    · rw [nil_append, cString_append zero_notMem_excludedText]
      exact seqFails_hyphen hhyphen
    · rw [append_assoc, cString_append (by
        rw [mem_append, not_or]
        exact ⟨zero_notMem_formatLiteral (zero_notMem_text htext hzero), by decide⟩),
        cString_append zero_notMem_excludedText]
      exact (seqFails_hyphen hhyphen).behind (runs_lit htext) blank_one solid_excludedText

lemma solid_cString (h : Solid t) : Solid (cString t) := by
  cases t with
  | nil => exact h
  | cons c t =>
    intro d hd
    rw [cString, takeWhile_cons] at hd
    split at hd
    · exact h d hd
    · cases hd

section
variable (h : Written pieces texts) (hne : ∀ x ∈ pieces, x.2 ≠ []) (hbroken : ∃ x ∈ pieces, Broken x)
include h hne hbroken

lemma altsFail_pieces :
    AltsFail tokenize (cString (List.intercalate bar texts ++ rest)) := by
  induction h with
  | nil =>
    obtain ⟨x, hx, _⟩ := hbroken
    cases hx
  | @cons piece t pieces texts ht hts ih =>
    by_cases hfirst : Broken piece
    · cases texts with
      | nil =>
        rw [intercalate_singleton]
        exact (seqFails_piece ht hfirst).alts
      | cons u texts =>
        rw [intercalate_cons]
        simp only [append_assoc]
        exact (seqFails_piece ht hfirst).alts
    · obtain ⟨x, hx, hxbroken⟩ := hbroken
      have hlater : ∃ x ∈ pieces, Broken x := by
        obtain rfl | hx := mem_cons.1 hx
        · exact absurd hxbroken hfirst
        · exact ⟨x, hx, hxbroken⟩
      have hrest := ih (fun x hx => hne x (mem_cons_of_mem _ hx)) hlater
      cases hts with
      | nil =>
        obtain ⟨x, hx, _⟩ := hlater
        cases hx
      | @cons piece' u pieces texts hu hts =>
        have hzero : 0 ∉ t ++ [32] ++ 124 :: [32] := by
          have := zero_notMem_piece ht fun hmem => hfirst (.inl hmem)
          simp [this]
        rw [intercalate_cons, append_assoc, cString_append hzero]
        exact hrest.behind (runs_piece ht (hne piece mem_cons_self) hfirst blank_one) blank_one
          (solid_cString (solid_pieces (.cons hu hts) (cons_ne_nil _ _)))

lemma pattern_rejected
    (L : Language UInt32) : ¬ Accepts (cString (40 :: List.intercalate bar texts ++ [41, 42])) L := by
  intro haccepts
  obtain ⟨x, hx, hxbroken⟩ := hbroken
  have hcut : cString (40 :: List.intercalate bar texts ++ [41, 42]) =
      40 :: cString (List.intercalate bar texts ++ [41, 42]) := @cString_append [40] _ (by decide)
  have hfail := @altsFail_pieces pieces [41, 42] texts (fun _ => none) h hne ⟨x, hx, hxbroken⟩
  have hsolid := solid_cString (@solid_pieces pieces [41, 42] texts h (ne_nil_of_mem hx))
  obtain ⟨p, _, _, _, hparse, _⟩ := haccepts (fun _ => none) _ (le_refl _)
  rw [hcut] at hparse
  rw [hfail.parse hsolid (le_refl _)] at hparse
  cases hparse

end

end

section
variable {strings : List Str} {word : Str} {path next : List UInt32} {c : UInt32} {texts : List Str}
  {pieces : List (List UInt32 × List UInt32)} {w : List UInt32}

lemma mem_pieceWords : w ∈ pieceWords (path, next) ↔ ∃ c, c ∉ next ∧ w = path ++ [c] := by
  rw [pieceWords, Language.mem_mul]
  constructor
  · rintro ⟨u, hu, v, ⟨c, rfl, hc⟩, rfl⟩
    exact ⟨c, of_decide_eq_true hc, congrArg (· ++ [c]) hu⟩
  · rintro ⟨c, hc, rfl⟩
    exact ⟨path, rfl, [c], ⟨c, rfl, decide_eq_true hc⟩, rfl⟩

lemma mem_star {L : Language UInt32} : w ∈ powers L 0 none ↔ ∃ ws : List (List UInt32), w = ws.flatten ∧ ∀ y ∈ ws, y ∈ L := by
  constructor
  · rintro ⟨i, _, _, hw⟩
    obtain ⟨ws, hflat, _, hall⟩ := Language.mem_pow.1 hw
    exact ⟨ws, hflat, hall⟩
  · rintro ⟨ws, hflat, hall⟩
    exact ⟨ws.length, Nat.zero_le _, fun k hk => (nomatch hk), Language.mem_pow.2 ⟨ws, hflat, rfl, hall⟩⟩

lemma Valid.ne_nil (h : Valid word) (hne : word ≠ []) : wordChars word ≠ [] := by
  intro hnil
  have htext := h.2
  rw [hnil] at htext
  exact hne (Option.some.inj htext).symm

def piecesOf (strings : List Str) : List (List UInt32 × List UInt32) :=
  collectPrefixAndNext (trieDepth strings) (matcher strings) []

lemma piecesOf_next (x : List UInt32 × List UInt32) (hx : x ∈ piecesOf strings) : x.2 ≠ [] := by
  obtain ⟨path, next⟩ := x
  obtain ⟨_, ⟨c, hc⟩, s, hs, rfl⟩ := mem_pieces.1 hx
  exact ne_nil_of_mem ((mem_nextChars_matcher hs).2 hc)

lemma mem_root : c ∈ nextChars (matcher strings) ↔ ∃ word ∈ strings, [c] <+: wordChars word := by
  have hroot : (matcher strings).descend [] = some (matcher strings) := rfl
  exact mem_nextChars_matcher hroot

lemma piecesOf_nil (h : ([], next) ∈ piecesOf strings) : next = nextChars (matcher strings) := by
  obtain ⟨_, _, s, hs, rfl⟩ := mem_pieces.1 h
  cases hs
  rfl

lemma singleton_notMem (hc : c ∈ nextChars (matcher strings)) : [c] ∉ powers (unionWords (piecesOf strings)) 0 none := by
  rw [mem_star]
  rintro ⟨ws, hflat, hall⟩
  obtain ⟨y, hy, hcy⟩ := mem_flatten.1 (hflat ▸ mem_singleton_self c)
  obtain ⟨⟨path, next⟩, hpiece, hword⟩ := hall y hy
  obtain ⟨d, hd, rfl⟩ := mem_pieceWords.1 hword
  have hsub : (path ++ [d]).Sublist [c] := hflat ▸ sublist_flatten_of_mem hy
  have hlen := hsub.length_le
  rw [length_append, length_singleton, length_singleton] at hlen
  obtain rfl := length_eq_zero_iff.1 (by omega : path.length = 0)
  cases mem_singleton.1 hcy
  rw [piecesOf_nil hpiece] at hd
  exact hd hc

lemma exists_root (hne : strings ≠ []) (hvalid : ∀ word ∈ strings, word ≠ [] ∧ Valid word) :
    ([], nextChars (matcher strings)) ∈ piecesOf strings := by
  obtain ⟨word, hword⟩ := exists_mem_of_ne_nil _ hne
  have hchars := (hvalid word hword).2.ne_nil (hvalid word hword).1
  obtain ⟨c, cs, hcs⟩ := exists_cons_of_ne_nil hchars
  refine mem_pieces.2 ⟨?_, ⟨c, word, hword, ⟨cs, hcs.symm⟩⟩, _, rfl, rfl⟩
  rintro ⟨w, hw, hnil⟩
  exact (hvalid w hw).2.ne_nil (hvalid w hw).1 hnil

lemma exists_piece (hword : word ∈ strings) (hpath : path <+: wordChars word)
    (hno : ¬ ∃ w ∈ strings, wordChars w = path) : ∃ next, (path, next) ∈ piecesOf strings := by
  obtain ⟨rest, hrest⟩ := hpath
  cases rest with
  | nil =>
    rw [append_nil] at hrest
    exact absurd ⟨word, hword, hrest.symm⟩ hno
  | cons c rest =>
    have hpath : ((matcher strings).descend path).isSome :=
      isSome_descend_matcher.2 (.inr ⟨word, hword, _, hrest⟩)
    obtain ⟨s, hs⟩ := isSome_iff_exists.1 hpath
    exact ⟨_, mem_pieces.2 ⟨hno, ⟨c, word, hword, rest, by rw [← hrest]; simp⟩, s, hs, rfl⟩⟩

lemma Excludes.stops (h : Excludes strings) (hne : strings ≠ [])
    (hvalid : ∀ word ∈ strings, word ≠ [] ∧ Valid word) : Stops strings := by
  obtain ⟨pattern, L, hpattern, haccepts, hexact⟩ := h
  obtain ⟨texts, htexts, rfl⟩ := map_eq_some_iff.1 hpattern
  have hwritten := written_of_mapM htexts
  have hroot := exists_root hne hvalid
  have hread : ∀ x ∈ piecesOf strings, ¬ Broken x := fun x hx hbroken =>
    pattern_rejected hwritten piecesOf_next ⟨x, hx, hbroken⟩ L haccepts
  have hL := haccepts.unique (pattern_accepts hwritten (ne_nil_of_mem hroot) piecesOf_next hread)
  have hmem : ∀ {path next c}, (path, next) ∈ piecesOf strings → c ∉ next → path ++ [c] ∈ L := by
    intro path next c hx hc
    rw [hL, mem_star]
    exact ⟨[path ++ [c]], by simp, forall_mem_singleton.2 ⟨_, hx, mem_pieceWords.2 ⟨c, hc, rfl⟩⟩⟩
  constructor
  · intro word hword path hpath hstarts
    by_contra hno
    obtain ⟨c, rest, rfl⟩ := exists_cons_of_ne_nil hpath
    have hscalar : ∀ d ∈ c :: rest, Scalar d := fun d hd => (hvalid word hword).2.1 d (hstarts.subset hd)
    by_cases hone : ∃ w ∈ strings, wordChars w = [c]
    · -- the piece of the prefix has a word that begins with a delimiter
      obtain ⟨w, hw, hwc⟩ := hone
      obtain ⟨next, hpiece⟩ := exists_piece hword hstarts hno
      have hin := hmem hpiece fun hyphen => hread _ hpiece (.inr hyphen)
      refine (hexact _ (fun d hd => ?_)).1 hin w hw ?_
      · obtain hd | hd := mem_append.1 hd
        · exact hscalar d hd
        · cases mem_singleton.1 hd
          exact ⟨by decide, by decide⟩
      · rw [hwc]
        exact ⟨[], rest ++ [45], by simp⟩
    · -- the first character alone is not derived
      have hin : [c] ∈ L := by
        refine (hexact [c] (fun d hd => hscalar d (by simp_all))).2 fun w hw hinside => ?_
        obtain hnil | hsingle := sublist_singleton.1 hinside.sublist
        · exact (hvalid w hw).2.ne_nil (hvalid w hw).1 hnil
        · exact hone ⟨w, hw, hsingle⟩
      rw [hL] at hin
      refine singleton_notMem (mem_root.2 ⟨word, hword, ?_⟩) hin
      exact (prefix_append [c] rest).trans hstarts
  · intro word hword hhead
    have hhyphen : 45 ∈ nextChars (matcher strings) := by
      refine mem_root.2 ⟨word, hword, ?_⟩
      obtain ⟨rest, hrest⟩ := head?_eq_some_iff.1 hhead
      exact ⟨rest, hrest.symm⟩
    exact hread _ hroot (.inr hhyphen)

lemma exists_texts (hvalid : ∀ word ∈ strings, word ≠ [] ∧ Valid word) :
    ∃ texts, (piecesOf strings).mapM pieceText = some texts := by
  have hpiece : ∀ x ∈ piecesOf strings, ∃ t, pieceText x = some t := by
    rintro ⟨path, next⟩ hx
    obtain ⟨_, ⟨c, word, hword, rest, hrest⟩, _⟩ := mem_pieces.1 hx
    have htext := (hvalid word hword).2.2
    rw [← hrest, append_assoc] at htext
    obtain ⟨a, _, ha, _⟩ := cptsToUtf8_append htext
    exact ⟨_, map_eq_some_iff.2 ⟨a, ha, rfl⟩⟩
  generalize piecesOf strings = l at hpiece
  induction l with
  | nil => exact ⟨[], rfl⟩
  | cons x l ih =>
    obtain ⟨t, ht⟩ := hpiece x mem_cons_self
    obtain ⟨ts, hts⟩ := ih fun y hy => hpiece y (mem_cons_of_mem _ hy)
    refine ⟨t :: ts, ?_⟩
    rw [mapM_cons, ht, hts]
    rfl

lemma Stops.excludes (h : Stops strings) (hne : strings ≠ []) (hvalid : ∀ word ∈ strings, word ≠ [] ∧ Valid word) :
    Excludes strings := by
  obtain ⟨texts, htexts⟩ := exists_texts hvalid
  have hwritten := written_of_mapM htexts
  have hroot := exists_root hne hvalid
  have honly : ∀ x ∈ piecesOf strings, x = ([], nextChars (matcher strings)) := by
    rintro ⟨path, next⟩ hx
    obtain rfl | hpath := eq_or_ne path []
    · rw [piecesOf_nil hx]
    · obtain ⟨hno, ⟨c, word, hword, hstarts⟩, _⟩ := mem_pieces.1 hx
      exact absurd (h.1 word hword path hpath ((prefix_append _ _).trans hstarts)) hno
  have hread : ∀ x ∈ piecesOf strings, ¬ Broken x := by
    intro x hx hbroken
    rw [honly x hx] at hbroken
    obtain hzero | hhyphen := hbroken
    · cases hzero
    · obtain ⟨word, hword, rest, hrest⟩ := mem_root.1 hhyphen
      exact h.2 word hword (by rw [← hrest]; rfl)
  refine ⟨_, _, map_eq_some_iff.2 ⟨texts, htexts, rfl⟩,
    pattern_accepts hwritten (ne_nil_of_mem hroot) piecesOf_next hread, fun s _ => ?_⟩
  have hderived : s ∈ powers (unionWords (piecesOf strings)) 0 none ↔ ∀ c ∈ s, c ∉ nextChars (matcher strings) := by
    rw [mem_star]
    constructor
    · rintro ⟨ws, rfl, hall⟩ c hc
      obtain ⟨y, hy, hcy⟩ := mem_flatten.1 hc
      obtain ⟨x, hx, hword⟩ := hall y hy
      rw [honly x hx] at hword
      obtain ⟨d, hd, rfl⟩ := mem_pieceWords.1 hword
      cases mem_singleton.1 hcy
      exact hd
    · intro hall
      refine ⟨s.map fun c => [c], (flatMap_singleton' s).symm, fun y hy => ?_⟩
      obtain ⟨c, hc, rfl⟩ := List.mem_map.1 hy
      exact ⟨_, hroot, mem_pieceWords.2 ⟨c, hall c hc, rfl⟩⟩
  rw [hderived]
  constructor
  · intro hall word hword hinside
    obtain ⟨c, rest, hcs⟩ := exists_cons_of_ne_nil ((hvalid word hword).2.ne_nil (hvalid word hword).1)
    refine hall c (hinside.subset (hcs ▸ mem_cons_self)) (mem_root.2 ⟨word, hword, rest, hcs.symm⟩)
  · intro hno c hc hnext
    obtain ⟨word, hword, hstarts⟩ := mem_root.1 hnext
    obtain ⟨w, hw, hwc⟩ := h.1 word hword [c] (cons_ne_nil _ _) hstarts
    refine hno w hw (hwc ▸ ?_)
    obtain ⟨a, b, rfl⟩ := append_of_mem hc
    exact ⟨a, b, by simp⟩

end

/-- The pattern derives exactly the texts without a delimiter if and only if every prefix of a delimiter is a delimiter
and none begins with a hyphen. -/
theorem gbnfExcludingPattern_iff {strings : List Str} (hne : strings ≠ [])
    (hvalid : ∀ word ∈ strings, word ≠ [] ∧ Valid word) : Excludes strings ↔ Stops strings :=
  ⟨fun h => h.stops hne hvalid, fun h => h.excludes hne hvalid⟩

/-- The delimiters `a` and `é`. -/
theorem gbnfExcludingPattern_letters : Excludes [[97], [195, 169]] ↔ Stops [[97], [195, 169]] :=
  gbnfExcludingPattern_iff (by decide) (by decide)

/-- With the delimiter `ab` the pattern does not derive the text `a`. -/
theorem gbnfExcludingPattern_pair : ¬ Excludes [[97, 98]] := by
  intro h
  have hstops := h.stops (by decide) (by decide)
  obtain ⟨w, hw, hchars⟩ := hstops.1 [97, 98] mem_cons_self [97] (cons_ne_nil _ _) (by decide)
  cases mem_singleton.1 hw
  exact absurd hchars (by decide)

end Mallana.Peg
