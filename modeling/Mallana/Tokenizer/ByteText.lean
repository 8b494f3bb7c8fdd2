import Mallana.Tokenizer.SplitSum
import Mallana.Tokenizer.Utf8

/-!
# Byte-level texts

Model of `unicode_utf8_to_byte` in `unicode.cpp`, of `llama_decode_text` and of the BPE branch of
`llama_vocab::impl::token_to_piece` in `llama-vocab.cpp`. The encoding of bytes as characters is undone by
`llama_decode_text`, and the words of the pre-tokenizer are the encodings of parts of the text, nothing lost.
-/

namespace Mallana.Tokenizer

open List Option

variable {F : Type}

/-- `unicode_utf8_to_byte`: the entry of the map that is the inverse of `unicode_byte_to_utf8_map`. -/
def utf8ToByte (utf8 : Str) : Option UInt8 :=
  ((List.range 256).map UInt8.ofNat).find? fun b => byteToUtf8 b == utf8

/-- The format `%x` for half a byte. -/
def lowerHexDigit (n : UInt8) : UInt8 := if n < 10 then 48 + n else 87 + n

/-- What a code point is decoded to; an unknown one is spelled out, followed by the whole text. -/
def decodeCpt (text utf8 : Str) : Str :=
  match utf8ToByte utf8 with
  | some b => [b]
  | none =>
    ascii "[UNK_BYTE_0x" ++ utf8.flatMap (fun c : UInt8 => [lowerHexDigit (c >>> 4), lowerHexDigit (c &&& 15)]) ++
      (text ++ ascii "]")

/-- `llama_decode_text`. -/
def decodeText (text : Str) : Option Str :=
  ((cptsFromUtf8 text).mapM fun cpt => (cptToUtf8 cpt).map (decodeCpt text)).map List.flatten

/-- `llama_vocab::impl::token_to_piece` for a token of a BPE vocabulary, without `lstrip`. -/
def tokenToPiece (v : Vocab F) (special : Bool) (id : Int) : Option Str :=
  if id < 0 then none
  else match v.idToToken[id.toNat]? with
    | none => none
    | some d =>
      if !special && (d.attr.unknown || d.attr.control) then some []
      else if d.attr.unknown || d.attr.control || d.attr.userDefined then some d.text
      else if d.attr.normal then decodeText d.text
      -- all unsupported token types are suppressed
      else some []

def pieces (v : Vocab F) (special : Bool) (ids : List Int) : Option Str :=
  (ids.mapM (tokenToPiece v special)).map List.flatten

def cptByte (c : UInt32) : UInt8 :=
  if c < 256 then c.toUInt8
  else if c < 289 then (c - 256).toUInt8
  else if c < 323 then (c - 289).toUInt8 + 0x7F
  else 0xAD

lemma forall_byte (p : UInt8 → Prop) (h : ∀ n < 256, p (UInt8.ofNat n)) (b : UInt8) : p b := by
  have := h b.toNat (UInt8.toNat_lt b)
  rwa [UInt8.ofNat_toNat] at this

lemma byte_facts (b : UInt8) : cptToUtf8 (byteCpt b) = some (byteToUtf8 b) ∧ cptByte (byteCpt b) = b ∧
    lenUtf8 ((byteToUtf8 b).getD 0 0) = (byteToUtf8 b).length :=
  forall_byte (fun b => cptToUtf8 (byteCpt b) = some (byteToUtf8 b) ∧ cptByte (byteCpt b) = b ∧
    lenUtf8 ((byteToUtf8 b).getD 0 0) = (byteToUtf8 b).length) (by decide +kernel) b

lemma cptToUtf8_byteCpt (b : UInt8) : cptToUtf8 (byteCpt b) = some (byteToUtf8 b) := (byte_facts b).1

lemma cptByte_byteCpt (b : UInt8) : cptByte (byteCpt b) = b := (byte_facts b).2.1

lemma lenUtf8_byteToUtf8 (b : UInt8) : lenUtf8 ((byteToUtf8 b).getD 0 0) = (byteToUtf8 b).length := (byte_facts b).2.2

lemma byteToUtf8_ne_nil (b : UInt8) : byteToUtf8 b ≠ [] := cptToUtf8_ne_nil (cptToUtf8_byteCpt b)

lemma byteCpt_inj {b c : UInt8} (h : byteCpt b = byteCpt c) : b = c := by
  rw [← cptByte_byteCpt b, h, cptByte_byteCpt]

lemma byteToUtf8_inj {b c : UInt8} (h : byteToUtf8 b = byteToUtf8 c) : b = c := by
  have hb := cptFromUtf8_encode (cptToUtf8_byteCpt b) []
  rw [h, cptFromUtf8_encode (cptToUtf8_byteCpt c)] at hb
  simp only [Option.some.injEq, Prod.mk.injEq] at hb
  exact (byteCpt_inj hb.1).symm

lemma utf8ToByte_byteToUtf8 (b : UInt8) : utf8ToByte (byteToUtf8 b) = some b := by
  have hmem : b ∈ (List.range 256).map UInt8.ofNat := by
    refine List.mem_map.2 ⟨b.toNat, mem_range.2 (UInt8.toNat_lt b), ?_⟩
    exact UInt8.ofNat_toNat
  cases hfind : utf8ToByte (byteToUtf8 b) with
  | none =>
    have := find?_eq_none.1 hfind b hmem
    simp at this
  | some c =>
    have heq : (byteToUtf8 c == byteToUtf8 b) = true := find?_some (p := fun d => byteToUtf8 d == byteToUtf8 b) hfind
    rw [byteToUtf8_inj (eq_of_beq heq)]

def encodeBytes (bytes : Str) : Str := bytes.flatMap byteToUtf8

lemma cptsToUtf8_encodeBytes (bytes : Str) : cptsToUtf8 (bytes.map byteCpt) = some (encodeBytes bytes) := by
  induction bytes with
  | nil => rfl
  | cons b bytes ih => exact cptsToUtf8_cons_some (cptToUtf8_byteCpt b) ih

lemma encodeBytes_singleton (b : UInt8) : encodeBytes [b] = byteToUtf8 b := flatMap_singleton _ _

lemma encodeBytes_append (bs cs : Str) : encodeBytes (bs ++ cs) = encodeBytes bs ++ encodeBytes cs :=
  flatMap_append

lemma encodeBytes_inj {bs cs : Str} (h : encodeBytes bs = encodeBytes cs) : bs = cs := by
  have hb := cptsToUtf8_encodeBytes bs
  rw [h] at hb
  exact map_injective_iff.2 (fun _ _ => byteCpt_inj) (cptsToUtf8_inj hb (cptsToUtf8_encodeBytes cs))

lemma encodeBytes_eq_nil {bs : Str} (h : encodeBytes bs = []) : bs = [] := encodeBytes_inj (h.trans rfl)

lemma encodeBytes_flatten (bss : List Str) : encodeBytes bss.flatten = (bss.map encodeBytes).flatten := by
  induction bss with
  | nil => rfl
  | cons bs bss ih => rw [flatten_cons, encodeBytes_append, ih, map_cons, flatten_cons]

/-- Decoding undoes the encoding of bytes. -/
theorem decodeText_encodeBytes (bytes : Str) : decodeText (encodeBytes bytes) = some bytes := by
  rw [decodeText, cptsFromUtf8_encode (cptsToUtf8_encodeBytes bytes)]
  generalize encodeBytes bytes = text
  induction bytes with
  | nil => rfl
  | cons b bytes ih =>
    obtain ⟨rest, hrest, hflat⟩ := map_eq_some_iff.1 ih
    have hhead : decodeCpt text (byteToUtf8 b) = [b] := by
      rw [decodeCpt, utf8ToByte_byteToUtf8]
    rw [map_cons, mapM_cons, cptToUtf8_byteCpt, hrest]
    simp only [map_some, Option.pure_def, bind_eq_bind, bind_some, hhead]
    rw [flatten_cons, hflat]
    rfl

lemma cptsToUtf8_append : ∀ {cs ds : List UInt32} {text : Str}, cptsToUtf8 (cs ++ ds) = some text →
    ∃ head tail, cptsToUtf8 cs = some head ∧ cptsToUtf8 ds = some tail ∧ text = head ++ tail := by
  intro cs
  induction cs with
  | nil =>
    intro ds text h
    exact ⟨[], text, rfl, h, rfl⟩
  | cons c cs ih =>
    intro ds text h
    obtain ⟨first, rest, hfirst, hrest, rfl⟩ := cptsToUtf8_cons h
    obtain ⟨head, tail, hhead, htail, rfl⟩ := ih hrest
    exact ⟨first ++ head, tail, cptsToUtf8_cons_some hfirst hhead, htail, (append_assoc _ _ _).symm⟩

lemma byteEncode_encode {cs : List UInt32} {text : Str} (h : cptsToUtf8 cs = some text) :
    byteEncode text = some (encodeBytes text) := by
  rw [byteEncode, cptsFromUtf8_encode h, h]
  rfl

lemma mapM_parts : ∀ {ps : List (List UInt32)} {text : Str}, cptsToUtf8 ps.flatten = some text →
    ∃ ws, ps.mapM cptsToUtf8 = some ws ∧ ws.flatten = text ∧ ws.mapM byteEncode = some (ws.map encodeBytes) := by
  intro ps
  induction ps with
  | nil =>
    intro text h
    cases h
    exact ⟨[], rfl, rfl, rfl⟩
  | cons p ps ih =>
    intro text h
    obtain ⟨head, tail, hhead, htail, rfl⟩ := cptsToUtf8_append h
    obtain ⟨ws, hws, hflat, henc⟩ := ih htail
    refine ⟨head :: ws, ?_, ?_, ?_⟩
    · rw [mapM_cons, hhead, hws]
      rfl
    · rw [flatten_cons, hflat]
    · rw [mapM_cons, byteEncode_encode hhead, henc]
      rfl

/-- The pre-tokenizer cuts a valid text into words whose encodings it returns. -/
theorem unicodeRegexSplit_encode {u : Unicode} (hu : OrderedMatches u) (exprs : List Str) {cs : List UInt32} {text : Str}
    (h : cptsToUtf8 cs = some text) :
    ∃ ws : List Str, unicodeRegexSplit u exprs text = some (ws.map encodeBytes) ∧ ws.flatten = text := by
  obtain ⟨offsets, hoffsets, hsum⟩ := @splitAll_sum u hu cs exprs [cs.length] (by simp)
  have hflat := flatten_parts hsum
  obtain ⟨ws, hws, hwords, henc⟩ := mapM_parts (by rw [hflat]; exact h)
  refine ⟨ws, ?_, hwords⟩
  simp only [unicodeRegexSplit, cptsFromUtf8_encode h, hoffsets, hws, henc, bind_eq_bind, bind_some]

end Mallana.Tokenizer
