import Mathlib.Data.List.Nodup
import Mallana.Tokenizer.Tokenize

/-!
# The partition by special tokens, as it edits its list

`tokenizer_st_partition` works on a singly linked list: new nodes are put behind an iterator, and the node that was
divided is erased by its distance from the head. Here the nodes of the list have an identity, an iterator is the identity
of a node, and each operation of `std::forward_list` is a definition of its own. What the loops leave in the list is the
partition of `Tokenize.lean` (`stPartition_eq`), which loses nothing of the text and leaves no special token in it.
-/

namespace Mallana.Tokenizer

open List Option

/-- A node of the list. -/
structure FragmentNode where
  id : Nat
  fragment : Fragment

/-- `std::forward_list<fragment_buffer_variant>`; `fresh` is the identity of the next node. -/
structure FragmentList where
  nodes : List FragmentNode := []
  fresh : Nat := 0

namespace FragmentList

def fragments (buffer : FragmentList) : List Fragment := buffer.nodes.map FragmentNode.fragment

/-- `begin()`; `none` is `end()`. -/
def begin? (buffer : FragmentList) : Option Nat := buffer.nodes.head?.map FragmentNode.id

/-- `std::distance(buffer.begin(), it)`. -/
def distance (buffer : FragmentList) (it : Nat) : Nat := buffer.nodes.findIdx fun node => node.id = it

/-- `it++`. -/
def next? (buffer : FragmentList) (it : Nat) : Option Nat :=
  buffer.nodes[buffer.distance it + 1]?.map FragmentNode.id

/-- `*it`. -/
def get? (buffer : FragmentList) (it : Nat) : Option Fragment :=
  (buffer.nodes.find? fun node => node.id = it).map FragmentNode.fragment

/-- `emplace_after(it, ...)` followed by `it++`: the list and the iterator of the new node. -/
def emplaceAfter (buffer : FragmentList) (it : Nat) (fragment : Fragment) : FragmentList × Nat :=
  ({ nodes := buffer.nodes.insertIdx (buffer.distance it + 1) ⟨buffer.fresh, fragment⟩, fresh := buffer.fresh + 1 },
    buffer.fresh)

/-- `erase_after` of `before_begin()`, or of the node that is `source - 1` behind `begin()`. -/
def eraseSource (buffer : FragmentList) (source : Nat) : FragmentList :=
  if source = 0 then { buffer with nodes := buffer.nodes.tail }
  else { buffer with nodes := buffer.nodes.eraseIdx (source - 1 + 1) }

end FragmentList

/-- The constructor of a text fragment: `none` if one of its assertions fails. -/
def mkRawText (raw : Str) (offset length : Nat) : Option Fragment :=
  if 1 ≤ length ∧ offset + length ≤ raw.length then some (.rawText offset length) else none

/-- A text fragment is put behind an iterator unless it is empty. -/
def emplaceRaw (raw : Str) (buffer : FragmentList) (it offset length : Nat) : Option (FragmentList × Nat) :=
  if 0 < length then (mkRawText raw offset length).map (buffer.emplaceAfter it) else some (buffer, it)

/-- `left_reminder_length`. -/
def leftLength (raw : Str) (a : Attr) (offset pos : Nat) : Nat :=
  if a.lstrip then lstripLen raw offset (pos - offset) else pos - offset

/-- If the match is further than the base offset, there is some text to the left of it. -/
def emplaceLeft (raw : Str) (a : Attr) (buffer : FragmentList) (it offset pos : Nat) : Option (FragmentList × Nat) :=
  if offset < pos then emplaceRaw raw buffer it offset (leftLength raw a offset pos) else some (buffer, it)

/-- `right_reminder_offset` and `right_reminder_length` for a match that ends at `stop`. -/
def rightPart (raw : Str) (a : Attr) (stop length : Nat) : Nat × Nat :=
  if a.rstrip then rstripBy raw stop length else (stop, length)

section
variable (raw text : Str) (id : Nat) (a : Attr)

/-- The loop over the occurrences of a special token in the fragment at `it`. -/
def matchLoop : Nat → FragmentList → Nat → Nat → Nat → Option (FragmentList × Nat)
  | 0, _, _, _, _ => none
  | fuel + 1, buffer, it, offset, length =>
    match findIn raw text offset (offset + length) with
    | none => some (buffer, it)
    | some pos => do
      let source := buffer.distance it
      let left ← emplaceLeft raw a buffer it offset pos
      let special := left.1.emplaceAfter left.2 (.token id)
      if pos + text.length < offset + length then
        let part := rightPart raw a (pos + text.length) (length - ((pos - offset) + text.length))
        let right ← emplaceRaw raw special.1 special.2 part.1 part.2
        -- repeat for the right side
        matchLoop fuel (right.1.eraseSource source) right.2 part.1 part.2
      else some (special.1.eraseSource source, special.2)

def fragmentLoop : Nat → FragmentList → Option Nat → Option FragmentList
  | _, buffer, none => some buffer
  | 0, _, some _ => none
  | fuel + 1, buffer, some it => do
    match buffer.get? it with
    | some (.rawText offset length) =>
      let r ← matchLoop raw text id a fuel buffer it offset length
      fragmentLoop fuel r.1 (r.1.next? r.2)
    | _ => fragmentLoop fuel buffer (buffer.next? it)

end

variable {F : Type}

def TokenData.Enabled (data : TokenData F) (parseSpecial : Bool) : Prop :=
  parseSpecial = true ∨ data.attr.control = false ∧ data.attr.unknown = false

/-- `llama_vocab::impl::tokenizer_st_partition` for one special token. -/
def stPartitionToken (v : Vocab F) (raw : Str) (parseSpecial : Bool) (fuel : Nat) (buffer : FragmentList) (id : Nat) :
    Option FragmentList :=
  match v.idToToken[id]? with
  | none => some buffer
  | some data =>
    -- control and unknown tokens are ignored when `parse_special == false`
    if !parseSpecial && (data.attr.control || data.attr.unknown) then some buffer
    else fragmentLoop raw data.text id data.attr fuel buffer buffer.begin?

/-- `llama_vocab::impl::tokenizer_st_partition`. -/
def stPartition (v : Vocab F) (raw : Str) (parseSpecial : Bool) (fuel : Nat) (buffer : FragmentList) :
    Option FragmentList :=
  v.cacheSpecialTokens.foldlM (stPartitionToken v raw parseSpecial fuel) buffer

/-- The list that `llama_vocab::impl::tokenize` begins with. -/
def textBuffer (raw : Str) : FragmentList :=
  if raw = [] then {} else { nodes := [⟨0, .rawText 0 raw.length⟩], fresh := 1 }

/-- The list is `l ++ post`, and the iterator is at the last node of `l`. -/
structure Cursor (buffer : FragmentList) (it : Nat) (l post : List FragmentNode) : Prop where
  nodes : buffer.nodes = l ++ post
  last : l.getLast?.map FragmentNode.id = some it
  nodup : (buffer.nodes.map FragmentNode.id).Nodup
  fresh : ∀ node ∈ buffer.nodes, node.id < buffer.fresh

def rawOf (offset length : Nat) : List Fragment := if length = 0 then [] else [.rawText offset length]

lemma lstripLen_le (raw : Str) (offset n : Nat) : lstripLen raw offset n ≤ n := by
  induction n with
  | zero => exact le_refl _
  | succ n ih =>
    rw [lstripLen]
    split
    · exact Nat.le_succ_of_le ih
    · exact le_refl _

lemma insertIdx_middle {α : Type} (pre post : List α) (x : α) :
    (pre ++ post).insertIdx pre.length x = pre ++ x :: post := by
  induction pre with
  | nil => rfl
  | cons y pre ih =>
    rw [cons_append, length_cons, insertIdx_succ_cons, ih]
    rfl

section
variable {buffer : FragmentList} {it : Nat} {l pre mid post : List FragmentNode} {src : FragmentNode}

lemma Cursor.exists_last (h : Cursor buffer it l post) : ∃ pre src, l = pre ++ [src] ∧ src.id = it := by
  obtain ⟨src, hlast, hid⟩ := map_eq_some_iff.1 h.last
  obtain ⟨pre, rfl⟩ := getLast?_eq_some_iff.1 hlast
  exact ⟨pre, src, rfl, hid⟩

section
variable (h : Cursor buffer it (pre ++ [src]) post)
include h

lemma Cursor.ne : src.id = it ∧ ∀ node ∈ pre, node.id ≠ it := by
  have hid : src.id = it := by simpa using h.last
  refine ⟨hid, fun node hnode heq => ?_⟩
  have hnodup := h.nodup
  rw [h.nodes, append_assoc, map_append, nodup_append] at hnodup
  refine hnodup.2.2 node.id (List.mem_map_of_mem hnode) src.id ?_ (by rw [heq, hid])
  simp

lemma Cursor.distance : buffer.distance it = pre.length := by
  obtain ⟨hid, hne⟩ := h.ne
  unfold FragmentList.distance
  rw [h.nodes, append_assoc, findIdx_append]
  have hpre : pre.findIdx (fun node => decide (node.id = it)) = pre.length := by
    apply findIdx_eq_length.2
    intro node hnode
    exact decide_eq_false (hne node hnode)
  rw [hpre, if_neg (lt_irrefl _), singleton_append, findIdx_cons, decide_eq_true hid, cond_true, zero_add]

lemma Cursor.get? : buffer.get? it = some src.fragment := by
  obtain ⟨hid, hne⟩ := h.ne
  unfold FragmentList.get?
  rw [h.nodes, append_assoc, find?_append]
  have hpre : pre.find? (fun node => decide (node.id = it)) = none := by
    apply find?_eq_none.2
    intro node hnode
    simpa using hne node hnode
  rw [hpre]
  simp [hid]

end

lemma Cursor.next? (h : Cursor buffer it l post) : buffer.next? it = post.head?.map FragmentNode.id := by
  obtain ⟨pre, src, rfl, -⟩ := h.exists_last
  unfold FragmentList.next?
  rw [h.distance, h.nodes, getElem?_append_right (by simp)]
  simp [head?_eq_getElem?]

lemma Cursor.emplaceAfter (h : Cursor buffer it l post) (fragment : Fragment) :
    ∃ node : FragmentNode, node.fragment = fragment ∧
      Cursor (buffer.emplaceAfter it fragment).1 (buffer.emplaceAfter it fragment).2 (l ++ [node]) post := by
  obtain ⟨pre, src, rfl, -⟩ := h.exists_last
  have hnodes : (buffer.emplaceAfter it fragment).1.nodes =
      (pre ++ [src]) ++ [⟨buffer.fresh, fragment⟩] ++ post := by
    unfold FragmentList.emplaceAfter
    rw [h.distance, h.nodes]
    have hlen : pre.length + 1 = (pre ++ [src]).length := by simp
    rw [hlen, insertIdx_middle]
    simp
  refine ⟨_, rfl, hnodes, by simp [FragmentList.emplaceAfter], ?_, ?_⟩
  · rw [hnodes]
    have hperm : (pre ++ [src] ++ [(⟨buffer.fresh, fragment⟩ : FragmentNode)] ++ post).Perm
        (⟨buffer.fresh, fragment⟩ :: buffer.nodes) := by
      rw [h.nodes, append_assoc]
      exact perm_middle
    apply ((hperm.map FragmentNode.id).nodup_iff).2
    rw [map_cons, nodup_cons]
    refine ⟨fun hmem => ?_, h.nodup⟩
    obtain ⟨node, hnode, heq⟩ := List.mem_map.1 hmem
    exact absurd heq (ne_of_lt (h.fresh node hnode))
  · intro node hnode
    rw [hnodes] at hnode
    change node.id < buffer.fresh + 1
    by_cases hold : node ∈ buffer.nodes
    · have := h.fresh node hold
      omega
    · rw [h.nodes] at hold
      have : node = ⟨buffer.fresh, fragment⟩ := by
        simp only [mem_append, mem_singleton] at hnode hold
        tauto
      rw [this]
      exact Nat.lt_succ_self _

lemma Cursor.eraseSource (h : Cursor buffer it (pre ++ src :: mid) post) (hmid : mid ≠ []) :
    Cursor (buffer.eraseSource pre.length) it (pre ++ mid) post := by
  have hnodes : (buffer.eraseSource pre.length).nodes = pre ++ mid ++ post := by
    unfold FragmentList.eraseSource
    split
    · rename_i hzero
      obtain rfl := length_eq_zero_iff.1 hzero
      simp [h.nodes]
    · rename_i hne
      have hlen : pre.length - 1 + 1 = pre.length := by omega
      simp only [hlen, h.nodes, append_assoc]
      rw [eraseIdx_append_of_length_le (le_refl _)]
      simp
  have hfresh : (buffer.eraseSource pre.length).fresh = buffer.fresh := by
    unfold FragmentList.eraseSource
    split <;> rfl
  have hsub : List.Sublist (buffer.eraseSource pre.length).nodes buffer.nodes := by
    rw [hnodes, h.nodes]
    simp
  refine ⟨hnodes, ?_, h.nodup.sublist (hsub.map _), fun node hnode => ?_⟩
  · have hlast := h.last
    rw [getLast?_append_of_ne_nil _ (cons_ne_nil _ _), getLast?_cons_of_ne_nil hmid] at hlast
    rw [getLast?_append_of_ne_nil _ hmid]
    exact hlast
  · rw [hfresh]
    exact h.fresh node (hsub.subset hnode)

lemma Cursor.emplaceRaw {raw : Str} (h : Cursor buffer it l post) {offset length : Nat} (hle : offset + length ≤ raw.length) :
    ∃ r new, emplaceRaw raw buffer it offset length = some r ∧ Cursor r.1 r.2 (l ++ new) post ∧
      new.map FragmentNode.fragment = rawOf offset length := by
  unfold Tokenizer.emplaceRaw
  rcases Nat.eq_zero_or_pos length with rfl | hpos
  · exact ⟨_, [], rfl, by simpa using h, rfl⟩
  · rw [if_pos hpos, mkRawText, if_pos ⟨hpos, hle⟩]
    obtain ⟨node, hnode, hc⟩ := h.emplaceAfter (.rawText offset length)
    refine ⟨_, [node], rfl, hc, ?_⟩
    rw [map_singleton, hnode, rawOf, if_neg (by omega)]

lemma leftLength_le (raw : Str) (a : Attr) (offset pos : Nat) : leftLength raw a offset pos ≤ pos - offset := by
  unfold leftLength
  split
  · exact lstripLen_le raw offset _
  · exact le_refl _

lemma Cursor.emplaceLeft {raw : Str} (a : Attr) {offset pos : Nat} (h : Cursor buffer it l post) (hle : pos ≤ raw.length) :
    ∃ r new, Tokenizer.emplaceLeft raw a buffer it offset pos = some r ∧ Cursor r.1 r.2 (l ++ new) post ∧
      new.map FragmentNode.fragment = rawOf offset (leftLength raw a offset pos) := by
  have hlen := leftLength_le raw a offset pos
  unfold Tokenizer.emplaceLeft
  split
  · exact h.emplaceRaw (by omega)
  · refine ⟨(buffer, it), [], rfl, by simpa using h, ?_⟩
    rw [rawOf, if_pos (by omega)]
    rfl

end

lemma rstripBy_spec (raw : Str) (n offset : Nat) :
    (rstripBy raw offset n).1 + (rstripBy raw offset n).2 = offset + n ∧ (rstripBy raw offset n).2 ≤ n := by
  induction n generalizing offset with
  | zero => exact ⟨rfl, le_refl _⟩
  | succ n ih =>
    rw [rstripBy]
    split
    · obtain ⟨hsum, hle⟩ := ih (offset + 1)
      exact ⟨by omega, by omega⟩
    · exact ⟨rfl, le_refl _⟩

lemma findIn_bounds {text pat : Str} {lo hi pos : Nat} (h : findIn text pat lo hi = some pos) (hpat : pat ≠ []) :
    lo ≤ pos ∧ pos + pat.length ≤ hi := by
  have hmem := mem_range'_1.1 (mem_of_find?_eq_some h)
  have hpos := length_pos_of_ne_nil hpat
  omega

lemma findIn_match {text pat : Str} {lo hi pos : Nat} (h : findIn text pat lo hi = some pos) :
    span text pos pat.length = pat := by
  have heq := find?_some h
  exact eq_of_beq heq

lemma findIn_empty {text pat : Str} {lo : Nat} (hpat : pat ≠ []) : findIn text pat lo (lo + 0) = none := by
  cases h : findIn text pat lo (lo + 0) with
  | none => rfl
  | some pos =>
    have hbounds := findIn_bounds h hpat
    have hpos := length_pos_of_ne_nil hpat
    omega

section
variable {raw text : Str} {id : Nat} {a : Attr}

lemma rightPart_spec (raw : Str) (a : Attr) (stop rest : Nat) :
    (rightPart raw a stop rest).1 + (rightPart raw a stop rest).2 = stop + rest ∧ (rightPart raw a stop rest).2 ≤ rest := by
  unfold rightPart
  split
  · exact rstripBy_spec raw rest stop
  · exact ⟨rfl, le_refl _⟩

lemma splitFragment_match {fuel offset length pos : Nat} (h : findIn raw text offset (offset + length) = some pos) :
    splitFragment raw id text a (fuel + 1) offset length = rawOf offset (leftLength raw a offset pos) ++ .token id ::
      (if pos + text.length < offset + length then
        splitFragment raw id text a fuel (rightPart raw a (pos + text.length) (length - ((pos - offset) + text.length))).1
          (rightPart raw a (pos + text.length) (length - ((pos - offset) + text.length))).2 else []) := by
  rw [splitFragment]
  simp only [h]
  split
  · rfl
  · rfl

lemma matchLoop_eq (htext : text ≠ []) {fuel' : Nat} :
    ∀ {buffer : FragmentList} {it offset length : Nat} {pre post : List FragmentNode} {src : FragmentNode},
      Cursor buffer it (pre ++ [src]) post → (0 < length → src.fragment = .rawText offset length) →
      offset + length ≤ raw.length → length ≤ fuel' →
      ∃ r l, (∀ fuel, length < fuel → matchLoop raw text id a fuel buffer it offset length = some r) ∧
        Cursor r.1 r.2 l post ∧ l.map FragmentNode.fragment = pre.map FragmentNode.fragment ++
          ((if length = 0 then [src.fragment] else []) ++ splitFragment raw id text a fuel' offset length) := by
  have unfolds : ∀ {fuel k : Nat}, k < fuel → ∃ n, fuel = n + 1 := fun h => ⟨_, (Nat.succ_pred_eq_of_pos (by omega)).symm⟩
  induction fuel' with
  | zero =>
    intro buffer it offset length pre post src h hsrc hle hfuel'
    obtain rfl : length = 0 := by omega
    refine ⟨(buffer, it), pre ++ [src], fun fuel hfuel => ?_, h, by simp [splitFragment]⟩
    obtain ⟨fuel, rfl⟩ := unfolds hfuel
    rw [matchLoop, findIn_empty htext]
  | succ fuel' ih =>
    intro buffer it offset length pre post src h hsrc hle hfuel'
    have hpos := length_pos_of_ne_nil htext
    cases hfind : findIn raw text offset (offset + length) with
    | none =>
      refine ⟨(buffer, it), pre ++ [src], fun fuel hfuel => ?_, h, ?_⟩
      · obtain ⟨fuel, rfl⟩ := unfolds hfuel
        rw [matchLoop, hfind]
      · simp only [splitFragment, hfind, map_append, map_singleton]
        split
        · rfl
        · rw [hsrc (by omega)]
          rfl
    | some pos =>
      obtain ⟨hlo, hhi⟩ := findIn_bounds hfind htext
      obtain ⟨left, new, hleft, hcl, hnew⟩ := @Cursor.emplaceLeft _ _ _ _ raw a offset pos h (by omega)
      obtain ⟨special, hid, hspecial⟩ := hcl.emplaceAfter (.token id)
      have hempty : length ≠ 0 := by omega
      rw [splitFragment_match hfind, if_neg hempty]
      by_cases hend : pos + text.length < offset + length
      · obtain ⟨hsum, hrest⟩ := rightPart_spec raw a (pos + text.length) (length - ((pos - offset) + text.length))
        obtain ⟨right, new', hright, hcr, hnew'⟩ := @Cursor.emplaceRaw _ _ _ _ raw hspecial
          (rightPart raw a (pos + text.length) (length - ((pos - offset) + text.length))).1
          (rightPart raw a (pos + text.length) (length - ((pos - offset) + text.length))).2 (by omega)
        -- one round of the loop
        have round : ∀ fuel, matchLoop raw text id a (fuel + 1) buffer it offset length =
            matchLoop raw text id a fuel (right.1.eraseSource pre.length) right.2
              (rightPart raw a (pos + text.length) (length - ((pos - offset) + text.length))).1
              (rightPart raw a (pos + text.length) (length - ((pos - offset) + text.length))).2 := by
          intro fuel
          rw [matchLoop]
          simp only [hfind, bind_eq_bind, hleft, bind_some, h.distance, if_pos hend, hright]
        rw [if_pos hend]
        generalize rightPart raw a (pos + text.length) (length - ((pos - offset) + text.length)) = part at *
        -- the source node is in front of what was put behind it
        have herased : Cursor (right.1.eraseSource pre.length) right.2 (pre ++ (new ++ special :: new')) post := by
          refine @Cursor.eraseSource _ _ _ _ _ src ?_ (by simp)
          simpa using hcr
        have runs : ∀ {r : FragmentList × Nat}, (∀ fuel, part.2 < fuel → matchLoop raw text id a fuel
            (right.1.eraseSource pre.length) right.2 part.1 part.2 = some r) →
            ∀ fuel, length < fuel → matchLoop raw text id a fuel buffer it offset length = some r := by
          intro r hr fuel hfuel
          obtain ⟨fuel, rfl⟩ := unfolds hfuel
          rw [round]
          exact hr fuel (by omega)
        rcases Nat.eq_zero_or_pos part.2 with hzero | hpart
        · rw [rawOf, if_pos hzero, map_eq_nil_iff] at hnew'
          subst hnew'
          obtain ⟨r, l, hrun, hc, hl⟩ := @ih _ _ part.1 part.2 (pre ++ new) _ special
            (by simpa using herased) (by omega) (by omega) (by omega)
          refine ⟨r, l, runs hrun, hc, ?_⟩
          rw [hl, hid, if_pos hzero, map_append, hnew]
          simp
        · rw [rawOf, if_neg (by omega)] at hnew'
          obtain ⟨node, tl, rfl, hnode, htl⟩ := map_eq_cons_iff.1 hnew'
          obtain rfl := map_eq_nil_iff.1 htl
          obtain ⟨r, l, hrun, hc, hl⟩ := @ih _ _ part.1 part.2 (pre ++ (new ++ [special])) _ node
            (by simpa using herased) (fun _ => hnode) (by omega) (by omega)
          refine ⟨r, l, runs hrun, hc, ?_⟩
          rw [hl, if_neg (by omega), map_append, map_append, hnew, map_singleton, hid]
          simp
      · refine ⟨((left.1.emplaceAfter left.2 (.token id)).1.eraseSource pre.length,
          (left.1.emplaceAfter left.2 (.token id)).2), pre ++ (new ++ [special]), fun fuel hfuel => ?_, ?_, ?_⟩
        · obtain ⟨fuel, rfl⟩ := unfolds hfuel
          rw [matchLoop]
          simp only [hfind, bind_eq_bind, hleft, bind_some, h.distance, if_neg hend]
        · refine @Cursor.eraseSource _ _ _ _ _ src ?_ (by simp)
          simpa using hspecial
        · simp [hnew, hid, hend]

def Fragment.Fits (raw : Str) : Fragment → Prop
  | .token _ => True
  | .rawText offset length => 0 < length ∧ offset + length ≤ raw.length

/-- The nodes are told apart by their identities. -/
structure FragmentList.Ok (buffer : FragmentList) : Prop where
  nodup : (buffer.nodes.map FragmentNode.id).Nodup
  fresh : ∀ node ∈ buffer.nodes, node.id < buffer.fresh

lemma Cursor.ok {buffer : FragmentList} {it : Nat} {l post : List FragmentNode} (h : Cursor buffer it l post) : buffer.Ok :=
  ⟨h.nodup, h.fresh⟩

def splitOf (raw text : Str) (id : Nat) (a : Attr) : Fragment → List Fragment
  | .token t => [.token t]
  | .rawText offset length => splitFragment raw id text a length offset length

lemma fragmentLoop_eq (htext : text ≠ []) {rest : List FragmentNode} :
    ∀ {done : List FragmentNode} {buffer : FragmentList}, buffer.nodes = done ++ rest → buffer.Ok →
      (∀ node ∈ rest, node.fragment.Fits raw) → ∃ r : FragmentList, (∀ fuel, rest.length + raw.length + 1 ≤ fuel →
          fragmentLoop raw text id a fuel buffer (rest.head?.map FragmentNode.id) = some r) ∧ r.Ok ∧
        r.fragments = done.map FragmentNode.fragment ++ (rest.map FragmentNode.fragment).flatMap (splitOf raw text id a) := by
  induction rest with
  | nil =>
    intro done buffer hnodes hok hfits
    refine ⟨buffer, fun fuel hfuel => by rw [head?_nil, map_none, fragmentLoop], hok, ?_⟩
    rw [FragmentList.fragments, hnodes]
    simp
  | cons node rest ih =>
    intro done buffer hnodes hok hfits
    obtain ⟨hnode, hrest⟩ := forall_mem_cons.1 hfits
    have hcur : Cursor buffer node.id (done ++ [node]) rest :=
      ⟨by simpa using hnodes, by simp, hok.nodup, hok.fresh⟩
    have unfolds : ∀ {fuel : Nat}, (node :: rest).length + raw.length + 1 ≤ fuel →
        ∃ n, fuel = n + 1 ∧ rest.length + raw.length + 1 ≤ n := by
      intro fuel hfuel
      rw [length_cons] at hfuel
      exact ⟨fuel - 1, by omega, by omega⟩
    cases hf : node.fragment with
    | token t =>
      obtain ⟨r, hrun, hr, heq⟩ := @ih (done ++ [node]) _ hcur.nodes hok hrest
      refine ⟨r, fun fuel hfuel => ?_, hr, ?_⟩
      · obtain ⟨fuel, rfl, hle⟩ := unfolds hfuel
        rw [head?_cons, map_some, fragmentLoop, hcur.get?, hf]
        simp only [hcur.next?]
        exact hrun fuel hle
      · rw [heq]
        simp [hf, splitOf]
    | rawText offset length =>
      rw [hf] at hnode
      obtain ⟨hpos, hle⟩ := hnode
      obtain ⟨r₁, l, hrun₁, hc, hl⟩ := @matchLoop_eq _ _ id a htext length _ _ _ _ _ _ _ hcur
        (fun _ => hf) hle (le_refl _)
      obtain ⟨r, hrun, hr, heq⟩ := @ih l _ hc.nodes hc.ok hrest
      refine ⟨r, fun fuel hfuel => ?_, hr, ?_⟩
      · obtain ⟨fuel, rfl, hle'⟩ := unfolds hfuel
        rw [head?_cons, map_some, fragmentLoop, hcur.get?, hf]
        simp only [hrun₁ fuel (by omega), bind_eq_bind, bind_some, hc.next?]
        exact hrun fuel hle'
      · rw [heq, hl, if_neg (by omega)]
        simp [hf, splitOf]

lemma fits_splitFragment (htext : text ≠ []) {fuel : Nat} : ∀ {offset length : Nat}, offset + length ≤ raw.length →
      ∀ f ∈ splitFragment raw id text a fuel offset length, f.Fits raw := by
  have whole : ∀ {offset length : Nat}, offset + length ≤ raw.length → ∀ f ∈ rawOf offset length, f.Fits raw := by
    intro offset length hle f hf
    unfold rawOf at hf
    split at hf
    · cases hf
    · cases mem_singleton.1 hf
      exact ⟨by omega, hle⟩
  induction fuel with
  | zero =>
    intro offset length hle
    exact whole hle
  | succ fuel ih =>
    intro offset length hle
    cases hfind : findIn raw text offset (offset + length) with
    | none =>
      rw [splitFragment, hfind]
      exact whole hle
    | some pos =>
      obtain ⟨hlo, hhi⟩ := findIn_bounds hfind htext
      have hleft := leftLength_le raw a offset pos
      obtain ⟨hsum, hrest⟩ := rightPart_spec raw a (pos + text.length) (length - ((pos - offset) + text.length))
      rw [splitFragment_match hfind]
      intro f hf
      rcases mem_append.1 hf with hf | hf
      · exact whole (by omega) f hf
      · rcases mem_cons.1 hf with rfl | hf
        · trivial
        · split at hf
          · exact ih (by omega) f hf
          · cases hf

end

section
variable {v : Vocab F} {raw : Str} {parseSpecial : Bool}

lemma partitionBy_eq {buffer : List Fragment} {id : Nat} {data : TokenData F} (hdata : v.idToToken[id]? = some data) :
    partitionBy v raw parseSpecial buffer id =
      if !parseSpecial && (data.attr.control || data.attr.unknown) then buffer
      else buffer.flatMap (splitOf raw data.text id data.attr) := by
  unfold partitionBy
  simp only [hdata]
  congr 2

lemma fits_partitionBy {buffer : List Fragment} (h : ∀ f ∈ buffer, f.Fits raw) (id : Nat) :
    ∀ f ∈ partitionBy v raw parseSpecial buffer id, f.Fits raw := by
  cases hdata : v.idToToken[id]? with
  | none =>
    unfold partitionBy
    rw [hdata]
    exact h
  | some data =>
    rw [partitionBy_eq hdata]
    split
    · exact h
    · intro f hf
      obtain ⟨g, hg, hf⟩ := mem_flatMap.1 hf
      cases g with
      | token t =>
        cases mem_singleton.1 hf
        trivial
      | rawText offset length =>
        exact fits_splitFragment (v.text_ne data (mem_of_getElem? hdata)) (h _ hg).2 f hf

lemma stPartitionToken_eq {buffer : FragmentList} (hok : buffer.Ok) (hfits : ∀ f ∈ buffer.fragments, f.Fits raw) (id : Nat) :
    ∃ N r, (∀ fuel, N ≤ fuel → stPartitionToken v raw parseSpecial fuel buffer id = some r) ∧ r.Ok ∧
      r.fragments = partitionBy v raw parseSpecial buffer.fragments id := by
  cases hdata : v.idToToken[id]? with
  | none =>
    refine ⟨0, buffer, fun _ _ => ?_, hok, ?_⟩
    · rw [stPartitionToken, hdata]
    · rw [partitionBy, hdata]
  | some data =>
    have htext := v.text_ne data (mem_of_getElem? hdata)
    obtain ⟨r, hrun, hr, heq⟩ := @fragmentLoop_eq _ _ id data.attr htext _ [] _ rfl hok
      fun node hnode => hfits _ (List.mem_map_of_mem hnode)
    by_cases hskip : (!parseSpecial && (data.attr.control || data.attr.unknown)) = true
    · refine ⟨0, buffer, fun _ _ => ?_, hok, ?_⟩
      · simp only [stPartitionToken, hdata, if_pos hskip]
      · rw [partitionBy_eq hdata, if_pos hskip]
    · refine ⟨buffer.nodes.length + raw.length + 1, r, fun fuel hfuel => ?_, hr, ?_⟩
      · simp only [stPartitionToken, hdata, if_neg hskip]
        exact hrun fuel hfuel
      · rw [partitionBy_eq hdata, if_neg hskip]
        exact heq

lemma fragments_textBuffer (raw : Str) :
    (textBuffer raw).fragments = if raw = [] then [] else [.rawText 0 raw.length] := by
  unfold textBuffer
  split <;> rfl

lemma ok_textBuffer (raw : Str) : (textBuffer raw).Ok := by
  unfold textBuffer
  split
  · exact ⟨nodup_nil, fun _ h => by cases h⟩
  · refine ⟨nodup_singleton 0, fun node hnode => ?_⟩
    cases mem_singleton.1 hnode
    exact zero_lt_one

lemma fits_textBuffer (raw : Str) : ∀ f ∈ (textBuffer raw).fragments, f.Fits raw := by
  intro f hf
  rw [fragments_textBuffer] at hf
  split at hf
  · cases hf
  · cases mem_singleton.1 hf
    exact ⟨length_pos_of_ne_nil (by assumption), by omega⟩

/-- The loops end, no assertion fails, and the list that they leave is the partition. -/
theorem stPartition_eq (v : Vocab F) (raw : Str) (parseSpecial : Bool) :
    ∃ N r, (∀ fuel, N ≤ fuel → stPartition v raw parseSpecial fuel (textBuffer raw) = some r) ∧
      r.fragments = tokenizerStPartition v raw parseSpecial := by
  suffices fold : ∀ (ids : List Nat) (buffer : FragmentList), buffer.Ok → (∀ f ∈ buffer.fragments, f.Fits raw) →
      ∃ N r, (∀ fuel, N ≤ fuel → ids.foldlM (stPartitionToken v raw parseSpecial fuel) buffer = some r) ∧
        r.fragments = ids.foldl (partitionBy v raw parseSpecial) buffer.fragments by
    obtain ⟨N, r, hrun, heq⟩ := fold v.cacheSpecialTokens (textBuffer raw) (ok_textBuffer raw) (fits_textBuffer raw)
    exact ⟨N, r, hrun, by rw [heq, fragments_textBuffer, tokenizerStPartition]⟩
  intro ids
  induction ids with
  | nil =>
    intro buffer _ _
    exact ⟨0, buffer, fun _ _ => rfl, rfl⟩
  | cons id ids ih =>
    intro buffer hok hfits
    obtain ⟨N₁, r₁, hrun₁, hok₁, heq₁⟩ := @stPartitionToken_eq _ v _ parseSpecial _ hok hfits id
    obtain ⟨N₂, r, hrun, heq⟩ := ih r₁ hok₁ (by rw [heq₁]; exact fits_partitionBy hfits id)
    refine ⟨max N₁ N₂, r, fun fuel hfuel => ?_, ?_⟩
    · rw [foldlM_cons, hrun₁ fuel (by omega)]
      exact hrun fuel (by omega)
    · rw [heq, heq₁, foldl_cons]

end

def Fragment.str (v : Vocab F) (raw : Str) : Fragment → Str
  | .token id => ((v.idToToken[id]?).map TokenData.text).getD []
  | .rawText offset length => span raw offset length

def Fragment.Free (raw text : Str) : Fragment → Prop
  | .token _ => True
  | .rawText offset length => ¬ text <:+: span raw offset length

lemma span_infix_span {raw : Str} {o l offset length : Nat} (hlo : offset ≤ o) (hhi : o + l ≤ offset + length) :
    span raw o l <:+: span raw offset length := by
  refine ⟨span raw offset (o - offset), span raw (o + l) (offset + length - (o + l)), ?_⟩
  have h1 := span_add raw offset (o - offset) l
  have h2 := span_add raw offset (o - offset + l) (offset + length - (o + l))
  have e1 : offset + (o - offset) = o := by omega
  have e2 : offset + (o - offset + l) = o + l := by omega
  have e3 : o - offset + l + (offset + length - (o + l)) = length := by omega
  rw [e1] at h1
  rw [e2, e3, h1] at h2
  exact h2.symm

lemma exists_span_of_infix {raw pat : Str} {offset length : Nat} (h : pat <:+: span raw offset length)
    (hle : offset + length ≤ raw.length) :
    ∃ m, offset ≤ m ∧ m + pat.length ≤ offset + length ∧ span raw m pat.length = pat := by
  obtain ⟨front, back, heq⟩ := h
  have hlen := congrArg List.length heq
  rw [length_span hle, length_append, length_append] at hlen
  refine ⟨offset + front.length, by omega, by omega, ?_⟩
  have hsum : length = front.length + (pat.length + back.length) := by omega
  have hsplit : span raw offset front.length ++ (span raw (offset + front.length) pat.length ++
      span raw (offset + front.length + pat.length) back.length) = front ++ (pat ++ back) := by
    rw [← span_add, ← span_add, ← hsum, ← heq, append_assoc]
  have hfront := (append_inj hsplit (length_span (by omega))).2
  exact (append_inj hfront (length_span (by omega))).1

lemma findIn_first {raw pat : Str} {lo hi m : Nat} (hlo : lo ≤ m) (hhi : m + pat.length ≤ hi)
    (hm : span raw m pat.length = pat) : ∃ pos, findIn raw pat lo hi = some pos ∧ pos ≤ m := by
  have hmem : m ∈ List.range' lo (hi + 1 - pat.length - lo) := by
    apply mem_range'_1.2
    omega
  cases hfind : findIn raw pat lo hi with
  | none => exact absurd (beq_iff_eq.2 hm) (find?_eq_none.1 hfind m hmem)
  | some pos =>
    refine ⟨pos, rfl, ?_⟩
    obtain ⟨-, as, bs, heq, hno⟩ := find?_eq_some_iff_append.1 hfind
    have hsorted : (as ++ pos :: bs).Pairwise (· < ·) := by
      rw [← heq]
      exact pairwise_lt_range'
    rw [heq] at hmem
    rcases mem_append.1 hmem with hmem | hmem
    · exact absurd (beq_iff_eq.2 hm) (by simpa using hno m hmem)
    · rcases mem_cons.1 hmem with rfl | hmem
      · exact le_refl _
      · exact le_of_lt ((pairwise_cons.1 (pairwise_append.1 hsorted).2.1).1 m hmem)

section
variable {v : Vocab F} {raw text : Str} {id : Nat} {a : Attr}

lemma splitFragment_plainMatch (hl : a.lstrip = false) (hr : a.rstrip = false) {fuel offset length pos : Nat}
    (h : findIn raw text offset (offset + length) = some pos) :
    splitFragment raw id text a (fuel + 1) offset length = rawOf offset (pos - offset) ++ .token id ::
      (if pos + text.length < offset + length then
        splitFragment raw id text a fuel (pos + text.length) (length - ((pos - offset) + text.length)) else []) := by
  rw [splitFragment_match h, leftLength, rightPart, hl, hr]
  rfl

lemma flatMap_rawOf (offset length : Nat) : (rawOf offset length).flatMap (Fragment.str v raw) = span raw offset length := by
  unfold rawOf
  split
  · rename_i hzero
    rw [hzero]
    rfl
  · simp [Fragment.str]

section
variable (htext : text ≠ []) (hl : a.lstrip = false) (hr : a.rstrip = false)
include htext hl hr

lemma flatMap_splitFragment
    (hid : Fragment.str v raw (.token id) = text) {fuel : Nat} : ∀ {offset length : Nat}, length ≤ fuel →
      (splitFragment raw id text a fuel offset length).flatMap (Fragment.str v raw) = span raw offset length := by
  induction fuel with
  | zero =>
    intro offset length hfuel
    obtain rfl : length = 0 := by omega
    rfl
  | succ fuel ih =>
    intro offset length hfuel
    cases hfind : findIn raw text offset (offset + length) with
    | none =>
      rw [splitFragment, hfind]
      exact flatMap_rawOf offset length
    | some pos =>
      obtain ⟨hlo, hhi⟩ := findIn_bounds hfind htext
      have hpos := length_pos_of_ne_nil htext
      have hmatch := findIn_match hfind
      have hrest : (if pos + text.length < offset + length then splitFragment raw id text a fuel (pos + text.length)
          (length - ((pos - offset) + text.length)) else []).flatMap (Fragment.str v raw) =
          span raw (pos + text.length) (length - ((pos - offset) + text.length)) := by
        split
        · exact ih (by omega)
        · have hzero : length - ((pos - offset) + text.length) = 0 := by omega
          rw [hzero]
          rfl
      rw [splitFragment_plainMatch hl hr hfind, flatMap_append, flatMap_cons, flatMap_rawOf, hid, hrest]
      have h1 := span_add raw offset (pos - offset) (text.length + (length - ((pos - offset) + text.length)))
      have h2 := span_add raw pos text.length (length - ((pos - offset) + text.length))
      have e1 : offset + (pos - offset) = pos := by omega
      have e2 : pos - offset + (text.length + (length - ((pos - offset) + text.length))) = length := by omega
      rw [e1, e2, h2, hmatch] at h1
      exact h1.symm

lemma free_splitFragment {fuel : Nat} : ∀ {offset length : Nat}, length ≤ fuel → offset + length ≤ raw.length →
      ∀ f ∈ splitFragment raw id text a fuel offset length, f.Free raw text := by
  have whole : ∀ {offset length : Nat}, offset + length ≤ raw.length → findIn raw text offset (offset + length) = none →
      ∀ f ∈ rawOf offset length, f.Free raw text := by
    intro offset length hle hnone f hf
    unfold rawOf at hf
    split at hf
    · cases hf
    · cases mem_singleton.1 hf
      intro hocc
      obtain ⟨m, hlo, hhi, hm⟩ := exists_span_of_infix hocc hle
      obtain ⟨pos, hfind, -⟩ := findIn_first hlo hhi hm
      rw [hnone] at hfind
      cases hfind
  induction fuel with
  | zero =>
    intro offset length hfuel hle
    obtain rfl : length = 0 := by omega
    intro f hf
    cases hf
  | succ fuel ih =>
    intro offset length hfuel hle
    cases hfind : findIn raw text offset (offset + length) with
    | none =>
      rw [splitFragment, hfind]
      exact whole hle hfind
    | some pos =>
      obtain ⟨hlo, hhi⟩ := findIn_bounds hfind htext
      have hpos := length_pos_of_ne_nil htext
      rw [splitFragment_plainMatch hl hr hfind]
      intro f hf
      rcases mem_append.1 hf with hf | hf
      · -- an occurrence on the left would have been found first
        refine whole (by omega) ?_ f hf
        cases hleft : findIn raw text offset (offset + (pos - offset)) with
        | none => rfl
        | some q =>
          obtain ⟨hq, hq'⟩ := findIn_bounds hleft htext
          obtain ⟨p, hfind', hp⟩ := @findIn_first _ _ _ (offset + length) _ hq (by omega) (findIn_match hleft)
          rw [hfind] at hfind'
          cases hfind'
          omega
      · rcases mem_cons.1 hf with rfl | hf
        · trivial
        · split at hf
          · exact ih (by omega) (by omega) f hf
          · cases hf

lemma free_of_free {pat : Str} {fuel : Nat} : ∀ {offset length : Nat}, ¬ pat <:+: span raw offset length →
      ∀ f ∈ splitFragment raw id text a fuel offset length, f.Free raw pat := by
  have part : ∀ {o l offset length : Nat}, offset ≤ o → o + l ≤ offset + length → ¬ pat <:+: span raw offset length →
      ∀ f ∈ rawOf o l, f.Free raw pat := by
    intro o l offset length hlo hhi hno f hf
    unfold rawOf at hf
    split at hf
    · cases hf
    · cases mem_singleton.1 hf
      intro hocc
      exact hno (hocc.trans (span_infix_span hlo hhi))
  induction fuel with
  | zero =>
    intro offset length hno
    exact part (le_refl _) (le_refl _) hno
  | succ fuel ih =>
    intro offset length hno
    cases hfind : findIn raw text offset (offset + length) with
    | none =>
      rw [splitFragment, hfind]
      exact part (le_refl _) (le_refl _) hno
    | some pos =>
      obtain ⟨hlo, hhi⟩ := findIn_bounds hfind htext
      rw [splitFragment_plainMatch hl hr hfind]
      intro f hf
      rcases mem_append.1 hf with hf | hf
      · exact part (le_refl _) (by omega) hno f hf
      · rcases mem_cons.1 hf with rfl | hf
        · trivial
        · split at hf
          · refine ih (fun hocc => hno (hocc.trans (span_infix_span ?_ ?_))) f hf <;> omega
          · cases hf

end

def StripsNothing (v : Vocab F) : Prop :=
  ∀ id ∈ v.cacheSpecialTokens, ∀ data ∈ v.idToToken[id]?, data.attr.lstrip = false ∧ data.attr.rstrip = false

/-- What holds of the fragments when the tokens `ids` were looked for. -/
structure Partitioned (v : Vocab F) (raw : Str) (parseSpecial : Bool) (ids : List Nat) (buffer : List Fragment) : Prop where
  str : buffer.flatMap (Fragment.str v raw) = raw
  fits : ∀ f ∈ buffer, f.Fits raw
  free : ∀ id ∈ ids, ∀ data ∈ v.idToToken[id]?, data.Enabled parseSpecial → ∀ f ∈ buffer, f.Free raw data.text

lemma TokenData.enabled_iff (data : TokenData F) (parseSpecial : Bool) :
    data.Enabled parseSpecial ↔ ¬ (!parseSpecial && (data.attr.control || data.attr.unknown)) = true := by
  unfold TokenData.Enabled
  cases parseSpecial <;> cases data.attr.control <;> cases data.attr.unknown <;> simp

/-- One special token splits every raw fragment. -/
lemma Partitioned.step {parseSpecial : Bool} {ids : List Nat} {buffer : List Fragment}
    (h : Partitioned v raw parseSpecial ids buffer)
    (hstrip : ∀ data ∈ v.idToToken[id]?, data.attr.lstrip = false ∧ data.attr.rstrip = false) :
    Partitioned v raw parseSpecial (ids ++ [id]) (partitionBy v raw parseSpecial buffer id) := by
  cases hdata : v.idToToken[id]? with
  | none =>
    rw [partitionBy, hdata]
    refine ⟨h.str, h.fits, fun id' hid' data hd => ?_⟩
    rcases mem_append.1 hid' with hid' | hid'
    · exact h.free id' hid' data hd
    · cases mem_singleton.1 hid'
      rw [hdata] at hd
      cases hd
  | some data =>
    have htext := v.text_ne data (mem_of_getElem? hdata)
    obtain ⟨hl, hr⟩ := hstrip data hdata
    have hfits := @fits_partitionBy _ v _ parseSpecial _ h.fits id
    rw [partitionBy_eq hdata] at hfits ⊢
    by_cases hskip : (!parseSpecial && (data.attr.control || data.attr.unknown)) = true
    · rw [if_pos hskip] at hfits ⊢
      refine ⟨h.str, h.fits, fun id' hid' data' hd hen => ?_⟩
      rcases mem_append.1 hid' with hid' | hid'
      · exact h.free id' hid' data' hd hen
      · cases mem_singleton.1 hid'
        rw [hdata] at hd
        cases hd
        exact absurd hskip ((data.enabled_iff parseSpecial).1 hen)
    · rw [if_neg hskip] at hfits ⊢
      have hid : Fragment.str v raw (.token id) = data.text := by
        rw [Fragment.str, hdata]
        rfl
      have hparts : ∀ g ∈ buffer, (splitOf raw data.text id data.attr g).flatMap (Fragment.str v raw) =
          Fragment.str v raw g := by
        intro g _
        cases g with
        | token t => simp [splitOf]
        | rawText offset length => exact flatMap_splitFragment htext hl hr hid (le_refl _)
      refine ⟨?_, hfits, fun id' hid' data' hd hen f hf => ?_⟩
      · rw [flatMap_assoc, flatMap_congr hparts, h.str]
      · obtain ⟨g, hg, hf⟩ := mem_flatMap.1 hf
        cases g with
        | token t =>
          cases mem_singleton.1 hf
          trivial
        | rawText offset length =>
          rcases mem_append.1 hid' with hid' | hid'
          · exact free_of_free htext hl hr (h.free id' hid' data' hd hen _ hg) f hf
          · cases mem_singleton.1 hid'
            rw [hdata] at hd
            cases hd
            exact free_splitFragment htext hl hr (le_refl _) (h.fits _ hg).2 f hf

lemma partitioned (hstrip : StripsNothing v) (raw : Str) (parseSpecial : Bool) :
    Partitioned v raw parseSpecial v.cacheSpecialTokens (tokenizerStPartition v raw parseSpecial) := by
  suffices fold : ∀ (todo ids : List Nat) (buffer : List Fragment), (∀ id ∈ todo, id ∈ v.cacheSpecialTokens) →
      Partitioned v raw parseSpecial ids buffer →
      Partitioned v raw parseSpecial (ids ++ todo) (todo.foldl (partitionBy v raw parseSpecial) buffer) by
    have hstart : Partitioned v raw parseSpecial [] (textBuffer raw).fragments := by
      refine ⟨?_, fits_textBuffer raw, fun _ h => by cases h⟩
      rw [fragments_textBuffer]
      split
      · rename_i hnil
        rw [hnil]
        rfl
      · simp [Fragment.str, span]
    have hall := fold v.cacheSpecialTokens [] _ (fun _ h => h) hstart
    rw [fragments_textBuffer] at hall
    exact hall
  intro todo
  induction todo with
  | nil =>
    intro ids buffer _ h
    simpa using h
  | cons id todo ih =>
    intro ids buffer htodo h
    obtain ⟨hid, htodo⟩ := forall_mem_cons.1 htodo
    have hnext := ih (ids ++ [id]) _ htodo (h.step (hstrip id hid))
    rw [append_assoc] at hnext
    exact hnext

/-- The partition ends without a failed assertion; its fragments in order are the text, those of text are not empty,
and none of them contains the text of a special token that is looked for. -/
theorem stPartition_lossless (v : Vocab F) (hstrip : StripsNothing v) (raw : Str) (parseSpecial : Bool) :
    ∃ N buffer, (∀ fuel, N ≤ fuel → stPartition v raw parseSpecial fuel (textBuffer raw) = some buffer) ∧
      buffer.fragments.flatMap (Fragment.str v raw) = raw ∧
      ∀ offset length, .rawText offset length ∈ buffer.fragments → span raw offset length ≠ [] ∧
        ∀ id ∈ v.cacheSpecialTokens, ∀ data ∈ v.idToToken[id]?, data.Enabled parseSpecial →
          ¬ data.text <:+: span raw offset length := by
  obtain ⟨N, buffer, hrun, heq⟩ := stPartition_eq v raw parseSpecial
  have hall := partitioned hstrip raw parseSpecial
  rw [← heq] at hall
  refine ⟨N, buffer, hrun, hall.str, fun offset length hmem => ⟨fun hnil => ?_, fun id hid data hd hen => ?_⟩⟩
  · obtain ⟨hpos, hle⟩ := hall.fits _ hmem
    have hlen := length_span hle
    rw [hnil] at hlen
    exact absurd hlen (ne_of_lt hpos)
  · exact hall.free id hid data hd hen _ hmem

end

/-- The text `s<s>s<s>`, with its control tokens. -/
theorem stPartition_lossless_twice :
    ∃ N buffer, (∀ fuel, N ≤ fuel → stPartition bosVocab [115, 60, 115, 62, 115, 60, 115, 62] true fuel
        (textBuffer [115, 60, 115, 62, 115, 60, 115, 62]) = some buffer) ∧
      buffer.fragments.flatMap (Fragment.str bosVocab [115, 60, 115, 62, 115, 60, 115, 62]) =
        [115, 60, 115, 62, 115, 60, 115, 62] ∧ ∀ offset length, .rawText offset length ∈ buffer.fragments →
        span [115, 60, 115, 62, 115, 60, 115, 62] offset length ≠ [] ∧
        ∀ id ∈ bosVocab.cacheSpecialTokens, ∀ data ∈ bosVocab.idToToken[id]?, data.Enabled true →
          ¬ data.text <:+: span [115, 60, 115, 62, 115, 60, 115, 62] offset length := by
  refine stPartition_lossless bosVocab ?_ [115, 60, 115, 62, 115, 60, 115, 62] true
  intro id hid data hdata
  cases mem_singleton.1 hid
  cases hdata
  exact ⟨rfl, rfl⟩

example : (stPartition bosVocab [115, 60, 115, 62, 115, 60, 115, 62] true 20
    (textBuffer [115, 60, 115, 62, 115, 60, 115, 62])).map FragmentList.fragments =
      some [.rawText 0 1, .token 4, .rawText 4 1, .token 4] := by decide

end Mallana.Tokenizer
