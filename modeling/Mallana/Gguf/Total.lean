import Mallana.Gguf.Reader

/-!
# Which files abort the reader

`gguf_init_from_file_ptr` rejects most malformed files with `nullptr`, but not all: an assertion or a
division by zero is reached by a pair with an empty key, by a `general.alignment` that is not one
`uint32_t`, by a dimension 0 other than the first, and, when the tensors are to be loaded, by a data
section for which no memory can be had. `no_fault_iff` says that these are all. The assertions on the
counts and on the memory pool never fail.
-/

namespace Mallana.Gguf

open Lib ByteParser

def Faults {α : Type} (r : Except Stop α) : Prop := ∃ f, r = .error (.fault f)

/-- The parser never faults: it fails with `nullptr` only. -/
abbrev Null {α : Type} (p : Reader α) : Prop := FailsOnly (fun e => e = Stop.null) p

section Rules
variable {α β : Type} {p : Reader α} {f : α → Reader β} {bs : List UInt8}

lemma faults_bind : Faults ((p >>= f) bs) ↔
    Faults (p bs) ∨ ∃ a rest, p bs = .ok (a, rest) ∧ Faults (f a rest) := by
  constructor
  · rintro ⟨e, h⟩
    obtain h | ⟨a, rest, hp, h⟩ := bind_eq_error.1 h
    · exact .inl ⟨e, h⟩
    · exact .inr ⟨a, rest, hp, e, h⟩
  · rintro (⟨e, h⟩ | ⟨a, rest, hp, e, h⟩)
    · exact ⟨e, bind_eq_error.2 (.inl h)⟩
    · exact ⟨e, bind_eq_error.2 (.inr ⟨a, rest, hp, h⟩)⟩

lemma not_faults_of_null (h : Null p) : ¬ Faults (p bs) := by
  rintro ⟨f, hf⟩
  cases h bs _ hf

lemma faults_bind_of_null (h : Null p) :
    Faults ((p >>= f) bs) ↔ ∃ a rest, p bs = .ok (a, rest) ∧ Faults (f a rest) := by
  rw [faults_bind, or_iff_right (not_faults_of_null h)]

lemma null_remaining : Null remaining := by
  intro bs e h
  cases h

lemma null_throw : Null (throw .null : Reader α) := by
  intro bs e h
  cases h
  rfl

lemma null_ite {c : Prop} [Decidable c] {q : Reader α} (hp : Null p) (hq : Null q) :
    Null (if c then p else q) := by
  split
  · exact hp
  · exact hq

lemma not_faults_ok (a : α) : ¬ Faults (.ok a : Except Stop α) := by
  rintro ⟨f, hf⟩
  cases hf

lemma not_faults_null : ¬ Faults (.error .null : Except Stop α) := by
  rintro ⟨f, hf⟩
  cases hf

lemma faults_fault (f : Fault) : Faults (.error (.fault f) : Except Stop α) := ⟨f, rfl⟩

lemma faults_bind_except {x : Except Stop α} {g : α → Except Stop β} :
    Faults (x >>= g) ↔ Faults x ∨ ∃ a, x = .ok a ∧ Faults (g a) := by
  cases x with
  | error e =>
    change Faults (.error e : Except Stop β) ↔ _
    simp [Faults]
  | ok a =>
    change Faults (g a) ↔ _
    simp [Faults]

end Rules

lemma null_bytes (n : Nat) : Null (bytes .null n) := by
  apply failsOnly_bytes
  rfl

lemma null_num (n : Nat) : Null (num .null n) := (null_bytes n).bind fun _ => failsOnly_pure _

lemma null_require (c : Bool) : Null (require .null c) := by
  apply failsOnly_require
  rfl

lemma null_readString : Null readString :=
  (null_num 8).bind fun _ => (null_require _).bind fun _ => null_bytes _

lemma null_readFixed (t : GgufType) : Null (readFixed t) :=
  (null_bytes _).bind fun _ => failsOnly_pure _

lemma null_readVector {α : Type} {elem : Reader α} (h : Null elem) (size n : Nat) :
    Null (readVector elem size n) :=
  (null_require _).bind fun _ => (null_require _).bind fun _ => null_remaining.bind fun _ =>
    (null_require _).bind fun _ => h.times n

lemma null_readStrings (isArray : Bool) (n : Nat) : Null (readStrings isArray n) :=
  null_ite (null_readVector null_readString 8 n) (null_readString.times 1)

lemma null_readElems (t : GgufType) (isArray : Bool) (n : Nat) : Null (readElems t isArray n) :=
  null_ite (null_readVector (null_readFixed t) t.size n) ((null_readFixed t).times 1)

lemma null_readValue (key : List UInt8) (t : GgufType) (isArray : Bool) (n : Nat) :
    Null (readValue key t isArray n) :=
  null_ite ((null_readStrings _ _).bind fun _ => failsOnly_pure _)
    ((null_readElems _ _ _).bind fun _ => failsOnly_pure _)

lemma null_readTyped (key : List UInt8) (tag : Nat) (isArray : Bool) (n : Nat) :
    Null (readTyped key tag isArray n) := by
  unfold readTyped
  split
  · exact null_throw
  · exact null_ite null_throw (null_readValue _ _ _ _)

lemma null_readPair (kvs : List GgufKv) : Null (readPair kvs) := by
  refine null_readString.bind fun key => (null_require _).bind fun _ => (null_num 4).bind fun tag => ?_
  refine null_ite ?_ (null_readTyped _ _ _ _)
  exact (null_num 4).bind fun _ => (null_num 8).bind fun _ => null_readTyped _ _ _ _

lemma null_readHeader : Null readHeader :=
  (null_bytes 4).bind fun _ => (null_require _).bind fun _ => (null_num 4).bind fun _ =>
    (null_require _).bind fun _ => (null_require _).bind fun _ => (null_require _).bind fun _ =>
    (null_require _).bind fun _ => (null_num 8).bind fun _ => (null_require _).bind fun _ =>
    (null_num 8).bind fun _ => (null_require _).bind fun _ => failsOnly_pure _

lemma null_readName (infos : List GgufTensorInfo) : Null (readName infos) :=
  null_readString.bind fun _ => (null_require _).bind fun _ => (null_require _).bind fun _ =>
    failsOnly_pure _

lemma null_readDims : Null readDims :=
  (null_num 4).bind fun _ => (null_require _).bind fun _ =>
    FailsOnly.times ((null_num 8).bind fun _ => (null_require _).bind fun _ => failsOnly_pure _) _

lemma null_readType (name : List UInt8) (ne0 ne1 ne2 ne3 : Nat) : Null (readType name ne0 ne1 ne2 ne3) :=
  (null_num 4).bind fun _ => (null_require _).bind fun _ => (null_require _).bind fun _ =>
    (null_require _).bind fun _ => failsOnly_pure _

/-- No division by zero: each dimension is not 0, unless the check has failed before it. -/
def Divides (ne0 ne1 ne2 ne3 : Nat) : Prop :=
  ne1 ≠ 0 ∧ (ne0 < int64Max / ne1 → ne2 ≠ 0 ∧ (ne0 * ne1 < int64Max / ne2 → ne3 ≠ 0))

variable {kvs : List GgufKv} {bs : List UInt8} {infos : List GgufTensorInfo} {n : Nat}
  {rest file : List UInt8} {ctx : GgufContext} {mem : Nat → Bool} {params : GgufInitParams}

lemma faults_readKv : Faults (readKv kvs bs) ↔ ∃ kv rest, readPair kvs bs = .ok (kv, rest) ∧ kv.key = [] := by
  have hback : ∀ kv rest, Faults (emplaceBack kvs kv rest) ↔ kv.key = [] := by
    intro kv rest
    unfold emplaceBack
    split
    next h => exact iff_of_true (faults_fault _) h
    next h => exact iff_of_false (not_faults_ok _) h
  rw [readKv, faults_bind_of_null (null_readPair kvs)]
  simp only [hback]

lemma faults_getValU32 {kv : GgufKv} : Faults (getValU32 kv bs) ↔ ¬ (kv.getNe = 1 ∧ kv.type = .uint32) := by
  unfold getValU32
  split
  next h => exact iff_of_true (faults_fault _) fun hc => h hc.1
  next h1 =>
    split
    next h => exact iff_of_true (faults_fault _) fun hc => h hc.2
    next h2 => exact iff_of_false (not_faults_ok _) fun hc => hc ⟨not_not.1 h1, not_not.1 h2⟩

lemma faults_readAlignment : Faults (readAlignment kvs bs) ↔
      ∃ kv, findKey kvs keyGeneralAlignment = some kv ∧ ¬ (kv.getNe = 1 ∧ kv.type = .uint32) := by
  have htail : ∀ a : Nat, Null (do require .null (alignmentOk a); return a : Reader Nat) := fun a =>
    (null_require _).bind fun _ => failsOnly_pure _
  rw [readAlignment, faults_bind, or_iff_left (fun h => by
    obtain ⟨a, rest, -, h⟩ := h
    exact not_faults_of_null (htail a) h)]
  unfold alignmentValue
  cases hf : findKey kvs keyGeneralAlignment with
  | none => exact iff_of_false (not_faults_ok _) (by simp)
  | some kv =>
    simp only [Option.some.injEq, exists_eq_left']
    exact faults_getValU32

lemma faults_checkElements {ne0 ne1 ne2 ne3 : Nat} :
    Faults (checkElements ne0 ne1 ne2 ne3 bs) ↔ ¬ Divides ne0 ne1 ne2 ne3 := by
  unfold checkElements Divides
  split
  next h1 => exact iff_of_true (faults_fault _) fun hd => hd.1 h1
  next h1 =>
    split
    next hc => exact iff_of_false not_faults_null (not_not.2 ⟨h1, fun h => absurd h (by omega)⟩)
    next hc =>
      split
      next h2 => exact iff_of_true (faults_fault _) fun hd => (hd.2 (by omega)).1 h2
      next h2 =>
        split
        next hc => exact iff_of_false not_faults_null
                    (not_not.2 ⟨h1, fun _ => ⟨h2, fun h => absurd h (by omega)⟩⟩)
        next hc2 =>
          split
          next h3 => exact iff_of_true (faults_fault _) fun hd => (hd.2 (by omega)).2 (by omega) h3
          next h3 =>
            refine iff_of_false ?_ (not_not.2 ⟨h1, fun _ => ⟨h2, fun _ => h3⟩⟩)
            split
            · exact not_faults_null
            · exact not_faults_ok _

lemma faults_readInfo : Faults (readInfo infos bs) ↔ ∃ name r1 ne r2, readName infos bs = .ok (name, r1) ∧
      readDims r1 = .ok (ne, r2) ∧ ¬ Divides (ne.getD 0 1) (ne.getD 1 1) (ne.getD 2 1) (ne.getD 3 1) := by
  have htail : ∀ (name : List UInt8) (n0 n1 n2 n3 : Nat), Null (do
      let t ← readType name n0 n1 n2 n3
      let offset ← num .null 8
      return infos ++ [⟨t, offset⟩] : Reader (List GgufTensorInfo)) := fun name n0 n1 n2 n3 =>
    (null_readType _ _ _ _ _).bind fun _ => (null_num 8).bind fun _ => failsOnly_pure _
  rw [readInfo, faults_bind_of_null (null_readName infos)]
  constructor
  · rintro ⟨name, r1, hn, h⟩
    obtain ⟨ne, r2, hd, h⟩ := (faults_bind_of_null null_readDims).1 h
    obtain h | ⟨_, _, _, h⟩ := faults_bind.1 h
    · exact ⟨name, r1, ne, r2, hn, hd, faults_checkElements.1 h⟩
    · exact absurd h (not_faults_of_null (htail _ _ _ _ _))
  · rintro ⟨name, r1, ne, r2, hn, hd, h⟩
    refine ⟨name, r1, hn, (faults_bind_of_null null_readDims).2 ⟨ne, r2, hd, ?_⟩⟩
    exact faults_bind.2 (.inl (faults_checkElements.2 h))

lemma faults_loop {σ : Type} {step : σ → Reader σ} {s : σ} : Faults (loop step n s bs) ↔
      ∃ k < n, ∃ s' rest, loop step k s bs = .ok (s', rest) ∧ Faults (step s' rest) := by
  constructor
  · rintro ⟨f, h⟩
    obtain ⟨k, hk, s', rest, hl, he⟩ := loop_eq_error.1 h
    exact ⟨k, hk, s', rest, hl, f, he⟩
  · rintro ⟨k, hk, s', rest, hl, f, he⟩
    exact ⟨f, loop_eq_error.2 ⟨k, hk, s', rest, hl, he⟩⟩

lemma ggmlPad_memAlign {x : Nat} (h : x + 15 < sizeMod) : ggmlPad x ggmlMemAlign = (x + 15) / 16 * 16 :=
  ggmlPad_eq (k := 4) (by decide) h

lemma poolBytes_eq {memSize : Nat} (hlt : memSize < sizeMod) (h : poolBytes memSize ≠ 0) :
    poolBytes memSize = ((if memSize = 0 then 16 else memSize) + 15) / 16 * 16 ∧ poolBytes memSize < sizeMod := by
  refine ⟨?_, ggmlPad_lt _ _⟩
  unfold poolBytes at h ⊢
  change ggmlPad (if memSize = 0 then 16 else memSize) ggmlMemAlign ≠ 0 at h
  change ggmlPad (if memSize = 0 then 16 else memSize) ggmlMemAlign = _
  generalize hx : (if memSize = 0 then 16 else memSize) = x at h ⊢
  have hxlt : x < sizeMod := by
    rw [← hx]
    split
    · decide
    · exact hlt
  by_cases hfit : x + 15 < sizeMod
  · exact ggmlPad_memAlign hfit
  · -- the sum wraps below 16, and the mask leaves nothing
    refine absurd ?_ h
    have hM : sizeMod = 18446744073709551616 := rfl
    have hmod : (x + 16 - 1) % sizeMod = x + 15 - sizeMod := by
      have he : x + 16 - 1 = x + 15 - sizeMod + sizeMod := by omega
      rw [he, Nat.add_mod_right, Nat.mod_eq_of_lt (by omega)]
    have hmask := and_mask (k := 4) (y := x + 15 - sizeMod) (by decide) (by omega)
    change (x + 16 - 1) % sizeMod &&& (sizeMod - 2 ^ 4) = 0
    rw [hmod, hmask]
    omega

lemma newTensor_eq_ok {P cur size : Nat} (hP : P < sizeMod) (hsize : size + 351 < sizeMod)
    (h : cur + (336 + size + 15) / 16 * 16 + 32 ≤ P) :
    newTensor P cur size = .ok (cur + 32 + (336 + size + 15) / 16 * 16) := by
  have hpad : ggmlPad (336 + size) ggmlMemAlign = (336 + size + 15) / 16 * 16 :=
    ggmlPad_memAlign (by omega)
  unfold newTensor newObject
  simp only [ggmlTensorSize, hpad]
  unfold sizeMod at hP hsize
  unfold sizeMax ggmlMemAlign ggmlObjectSize
  rw [if_neg (by omega), if_neg (by omega), if_neg (by omega), if_neg (by omega), if_neg (by omega)]

lemma newTensors_eq_ok {P : Nat} (hP : P < sizeMod) (infos : List GgufTensorInfo) {cur : Nat}
    (h : cur + infos.length * tensorOverhead ≤ P) :
    newTensors P infos cur = .ok (cur + infos.length * tensorOverhead) := by
  induction infos generalizing cur with
  | nil => rfl
  | cons ti infos ih =>
    have hlen : (ti :: infos).length * tensorOverhead = infos.length * tensorOverhead + 368 := by
      rw [List.length_cons, Nat.succ_mul]
      rfl
    rw [hlen] at h ⊢
    clear hlen
    generalize infos.length * tensorOverhead = m at h ih ⊢
    have hroom : cur + 368 ≤ P := le_trans (Nat.add_le_add_left (Nat.le_add_left 368 m) cur) h
    have hzero : 0 + 351 < sizeMod := by
      unfold sizeMod
      omega
    have hstep := newTensor_eq_ok hP hzero hroom
    rw [newTensors, hstep]
    change newTensors P infos (cur + 368) = _
    rw [ih (by omega), add_assoc cur 368, add_comm 368]

lemma not_faults_pool {noAlloc : Bool} {size memSize : Nat}
    (hm : poolSize noAlloc infos.length size = some memSize) (h0 : poolBytes memSize ≠ 0) :
    if noAlloc then ¬ Faults (newTensors (poolBytes memSize) infos 0)
    else ∃ curEnd, newTensor (poolBytes memSize) 0 size = .ok curEnd ∧
      ¬ Faults (newTensors (poolBytes memSize) infos curEnd) := by
  have hover : tensorOverhead = 368 := rfl
  unfold poolSize at hm
  split at hm
  next hna =>
    rw [if_pos hna]
    split at hm
    · cases hm
    next hfit =>
      cases hm
      have hle : infos.length * tensorOverhead ≤ sizeMax := by
        by_cases hz : infos.length = 0
        · rw [hz, zero_mul]
          exact Nat.zero_le _
        · have hdiv : tensorOverhead ≤ sizeMax / infos.length := by
            by_contra hc
            exact hfit ⟨hz, by omega⟩
          rw [mul_comm]
          exact (Nat.le_div_iff_mul_le (Nat.pos_of_ne_zero hz)).1 hdiv
      obtain ⟨heq, hlt⟩ := poolBytes_eq (by unfold sizeMod; unfold sizeMax at hle; omega) h0
      rw [newTensors_eq_ok hlt infos (by rw [heq]; split <;> omega)]
      exact not_faults_ok _
  next hna =>
    rw [if_neg hna]
    split at hm
    · cases hm
    · split at hm
      · cases hm
      next hfit1 hfit2 =>
        cases hm
        have hle : (infos.length + 1) * tensorOverhead ≤ sizeMax := by
          rw [mul_comm]
          exact (Nat.le_div_iff_mul_le (Nat.succ_pos _)).1 (Nat.not_lt.1 hfit1)
        have hmul : (infos.length + 1) * tensorOverhead = infos.length * tensorOverhead + 368 := by
          rw [Nat.succ_mul]
          rfl
        have hsum : (infos.length + 1) * tensorOverhead + size < sizeMod := by
          unfold sizeMod
          unfold sizeMax at hle hfit2
          omega
        obtain ⟨heq, hlt⟩ := poolBytes_eq hsum h0
        rw [if_neg (by omega)] at heq
        rw [hmul] at heq hsum
        have hno : size + 351 < sizeMod := by
          unfold sizeMod at hlt hsum ⊢
          omega
        rw [← hmul] at heq
        generalize poolBytes ((infos.length + 1) * tensorOverhead + size) = P at heq hlt ⊢
        rw [hmul, hover] at heq
        have hroom : 0 + (336 + size + 15) / 16 * 16 + 32 ≤ P := by
          rw [heq]
          omega
        have hcur := newTensor_eq_ok hlt hno hroom
        refine ⟨_, hcur, ?_⟩
        rw [newTensors_eq_ok hlt infos (by rw [heq, hover]; omega)]
        exact not_faults_ok _

/-- The header and `k` pairs of the file were read, and `rest` follows. -/
def KvsRead (file : List UInt8) (h : Header) (k : Nat) (kvs : List GgufKv) (rest : List UInt8) : Prop :=
  file.length ≤ int64Max ∧ ∃ r, readHeader file = .ok (h, r) ∧ loop readKv k [] r = .ok (kvs, rest)

/-- All pairs, the alignment and `k` tensor infos of the file were read, and `rest` follows. -/
def InfosRead (file : List UInt8) (h : Header) (kvs : List GgufKv) (alignment k : Nat)
    (infos : List GgufTensorInfo) (rest : List UInt8) : Prop :=
  ∃ r r', KvsRead file h h.nKv kvs r ∧ readAlignment kvs r = .ok (alignment, r') ∧
    loop readInfo k [] r' = .ok (infos, rest)

lemma length_of_loop_readKv (h : loop readKv n [] bs = .ok (kvs, rest)) : kvs.length = n := by
  have hinv := loop_inv (P := fun k (kvs : List GgufKv) => kvs.length = k) (m := 0) h rfl
  rw [zero_add] at hinv
  refine hinv fun k kvs bs kvs' rest hk hr => ?_
  obtain ⟨kv, r, -, hr⟩ := bind_eq_ok.1 hr
  unfold emplaceBack at hr
  split at hr
  · cases hr
  · cases hr
    rw [List.length_append, hk, List.length_singleton]

lemma length_of_loop_readInfo (h : loop readInfo n [] bs = .ok (infos, rest)) : infos.length = n := by
  have hinv := loop_inv (P := fun k (infos : List GgufTensorInfo) => infos.length = k) (m := 0) h rfl
  rw [zero_add] at hinv
  refine hinv fun k infos bs infos' rest hk hr => ?_
  obtain ⟨name, r1, -, hr⟩ := bind_eq_ok.1 hr
  obtain ⟨ne, r2, -, hr⟩ := bind_eq_ok.1 hr
  obtain ⟨_, r3, -, hr⟩ := bind_eq_ok.1 hr
  obtain ⟨t, r4, -, hr⟩ := bind_eq_ok.1 hr
  obtain ⟨offset, r5, -, hr⟩ := bind_eq_ok.1 hr
  cases hr
  rw [List.length_append, hk, List.length_singleton]

lemma readMeta_eq_ok (hlen : file.length ≤ int64Max) :
    readMeta file = .ok (ctx, rest) ↔ ∃ h, InfosRead file h ctx.kv ctx.alignment h.nTensors ctx.info rest ∧
      ctx = ⟨h.version, ctx.kv, ctx.info, ctx.alignment, 0, 0, none⟩ := by
  constructor
  · intro hm
    obtain ⟨h, r0, hh, hm⟩ := bind_eq_ok.1 hm
    obtain ⟨kvs, r1, hk, hm⟩ := bind_eq_ok.1 hm
    obtain ⟨_, r2, hc, hm⟩ := bind_eq_ok.1 hm
    obtain ⟨-, he⟩ := require_eq_ok.1 hc
    cases he
    obtain ⟨a, r3, ha, hm⟩ := bind_eq_ok.1 hm
    obtain ⟨infos, r4, hi, hm⟩ := bind_eq_ok.1 hm
    obtain ⟨_, r5, hc, hm⟩ := bind_eq_ok.1 hm
    obtain ⟨-, he⟩ := require_eq_ok.1 hc
    cases he
    cases hm
    exact ⟨h, ⟨_, _, ⟨hlen, r0, hh, hk⟩, ha, hi⟩, rfl⟩
  · rintro ⟨h, ⟨r1, r2, ⟨-, r0, hh, hk⟩, ha, hi⟩, hctx⟩
    refine bind_eq_ok.2 ⟨h, r0, hh, bind_eq_ok.2 ⟨ctx.kv, r1, hk, bind_eq_ok.2 ⟨(), r1, ?_, ?_⟩⟩⟩
    · exact require_eq_ok.2 ⟨decide_eq_true (length_of_loop_readKv hk), rfl⟩
    · refine bind_eq_ok.2 ⟨ctx.alignment, r2, ha, bind_eq_ok.2 ⟨ctx.info, rest, hi, ?_⟩⟩
      refine bind_eq_ok.2 ⟨(), rest, ?_, ?_⟩
      · exact require_eq_ok.2 ⟨decide_eq_true (length_of_loop_readInfo hi), rfl⟩
      · rw [hctx]
        rfl

/-- The condition on the file under which nothing aborts. -/
structure Clean (mem : Nat → Bool) (params : GgufInitParams) (file : List UInt8) : Prop where
  /-- no pair that the reader gets to has an empty key -/
  keys : ∀ h k kvs rest kv rest', k < h.nKv → KvsRead file h k kvs rest →
    readPair kvs rest = .ok (kv, rest') → kv.key ≠ []
  /-- the alignment, if the file has one, is one `uint32_t` -/
  alignment : ∀ h kvs rest kv, KvsRead file h h.nKv kvs rest →
    findKey kvs keyGeneralAlignment = some kv → kv.getNe = 1 ∧ kv.type = .uint32
  /-- no tensor info that the reader gets to has a dimension 0 to divide by -/
  dims : ∀ h kvs a k infos rest name r1 ne r2, k < h.nTensors → InfosRead file h kvs a k infos rest →
    readName infos rest = .ok (name, r1) → readDims r1 = .ok (ne, r2) →
    Divides (ne.getD 0 1) (ne.getD 1 1) (ne.getD 2 1) (ne.getD 3 1)
  /-- there is memory for the tensors, if they are to be loaded -/
  memory : params.ctx = true → ∀ h kvs a infos rest size memSize, InfosRead file h kvs a h.nTensors infos rest →
    ggmlPad (file.length - rest.length) a ≤ int64Max → computeSize a infos 0 = .ok size →
    poolSize params.noAlloc infos.length size = some memSize →
    poolBytes memSize ≠ 0 ∧ mem (poolBytes memSize) = true

lemma faults_readMeta (hlen : file.length ≤ int64Max) : Faults (readMeta file) ↔
      (∃ h k kvs rest kv rest', k < h.nKv ∧ KvsRead file h k kvs rest ∧
        readPair kvs rest = .ok (kv, rest') ∧ kv.key = []) ∨
      (∃ h kvs rest kv, KvsRead file h h.nKv kvs rest ∧ findKey kvs keyGeneralAlignment = some kv ∧
        ¬ (kv.getNe = 1 ∧ kv.type = .uint32)) ∨
      (∃ h kvs a k infos rest name r1 ne r2, k < h.nTensors ∧ InfosRead file h kvs a k infos rest ∧
        readName infos rest = .ok (name, r1) ∧ readDims r1 = .ok (ne, r2) ∧
        ¬ Divides (ne.getD 0 1) (ne.getD 1 1) (ne.getD 2 1) (ne.getD 3 1)) := by
  constructor
  · intro hf
    obtain ⟨h, r0, hh, hf⟩ := (faults_bind_of_null null_readHeader).1 hf
    obtain hf | ⟨kvs, r1, hk, hf⟩ := faults_bind.1 hf
    · obtain ⟨k, hlt, kvs, rest, hl, hf⟩ := faults_loop.1 hf
      obtain ⟨kv, rest', hp, hkey⟩ := faults_readKv.1 hf
      exact .inl ⟨h, k, kvs, rest, kv, rest', hlt, ⟨hlen, r0, hh, hl⟩, hp, hkey⟩
    rw [require_bind_of_true (decide_eq_true (length_of_loop_readKv hk))] at hf
    obtain hf | ⟨a, r2, ha, hf⟩ := faults_bind.1 hf
    · obtain ⟨kv, hfind, hbad⟩ := faults_readAlignment.1 hf
      exact .inr (.inl ⟨h, kvs, r1, kv, ⟨hlen, r0, hh, hk⟩, hfind, hbad⟩)
    obtain hf | ⟨infos, r3, hi, hf⟩ := faults_bind.1 hf
    · obtain ⟨k, hlt, infos, rest, hl, hf⟩ := faults_loop.1 hf
      obtain ⟨name, s1, ne, s2, hn, hd, hbad⟩ := faults_readInfo.1 hf
      exact .inr (.inr ⟨h, kvs, a, k, infos, rest, name, s1, ne, s2, hlt,
        ⟨r1, r2, ⟨hlen, r0, hh, hk⟩, ha, hl⟩, hn, hd, hbad⟩)
    rw [require_bind_of_true (decide_eq_true (length_of_loop_readInfo hi))] at hf
    exact absurd hf (not_faults_ok _)
  · rintro (⟨h, k, kvs, rest, kv, rest', hlt, ⟨-, r0, hh, hl⟩, hp, hkey⟩ | hf | hf)
    · refine (faults_bind_of_null null_readHeader).2 ⟨h, r0, hh, faults_bind.2 (.inl ?_)⟩
      exact faults_loop.2 ⟨k, hlt, kvs, rest, hl, faults_readKv.2 ⟨kv, rest', hp, hkey⟩⟩
    · obtain ⟨h, kvs, rest, kv, ⟨-, r0, hh, hk⟩, hfind, hbad⟩ := hf
      refine (faults_bind_of_null null_readHeader).2 ⟨h, r0, hh, faults_bind.2 (.inr ⟨kvs, rest, hk, ?_⟩)⟩
      rw [require_bind_of_true (decide_eq_true (length_of_loop_readKv hk))]
      exact faults_bind.2 (.inl (faults_readAlignment.2 ⟨kv, hfind, hbad⟩))
    · obtain ⟨h, kvs, a, k, infos, rest, name, s1, ne, s2, hlt, ⟨r1, r2, ⟨-, r0, hh, hk⟩, ha, hl⟩, hn, hd,
        hbad⟩ := hf
      refine (faults_bind_of_null null_readHeader).2 ⟨h, r0, hh, faults_bind.2 (.inr ⟨kvs, r1, hk, ?_⟩)⟩
      rw [require_bind_of_true (decide_eq_true (length_of_loop_readKv hk))]
      refine faults_bind.2 (.inr ⟨a, r2, ha, faults_bind.2 (.inl ?_)⟩)
      exact faults_loop.2 ⟨k, hlt, infos, rest, hl, faults_readInfo.2 ⟨name, s1, ne, s2, hn, hd, hbad⟩⟩

lemma not_faults_computeSize (alignment : Nat) (infos : List GgufTensorInfo) (size : Nat) :
    ¬ Faults (computeSize alignment infos size) := by
  induction infos generalizing size with
  | nil => exact not_faults_ok _
  | cons ti infos ih =>
    rw [computeSize]
    split
    · exact not_faults_null
    · split
      · exact not_faults_null
      · exact ih _

lemma faults_loadTensors {remain : Nat} : Faults (loadTensors mem params ctx remain rest) ↔ params.ctx = true ∧
      ∃ memSize, poolSize params.noAlloc ctx.info.length ctx.size = some memSize ∧
        ¬ (poolBytes memSize ≠ 0 ∧ mem (poolBytes memSize) = true) := by
  unfold loadTensors
  split
  next h => exact iff_of_false (not_faults_ok _) (by simp [h])
  next hctx =>
    have hctx : params.ctx = true := by simpa using hctx
    split
    next hm => exact iff_of_false not_faults_null (by simp [hm])
    next memSize hm =>
      split
      next hbad =>
        refine iff_of_true (faults_fault _) ⟨hctx, memSize, hm, fun hok => ?_⟩
        obtain h | h := hbad
        · exact hok.1 h
        · rw [hok.2] at h
          cases h
      next hok =>
        obtain ⟨h0, hmem⟩ := not_or.1 hok
        have hpool := not_faults_pool hm h0
        refine iff_of_false ?_ ?_
        · split
          next hna =>
            rw [if_pos hna] at hpool
            rw [faults_bind_except]
            rintro (h | ⟨_, -, h⟩)
            · exact hpool h
            · exact not_faults_ok _ h
          next hna =>
            rw [if_neg hna] at hpool
            obtain ⟨curEnd, hcur, hrest⟩ := hpool
            rw [hcur, faults_bind_except]
            rintro (h | ⟨_, heq, h⟩)
            · exact not_faults_ok _ h
            · cases heq
              obtain h | ⟨data, -, h⟩ := faults_bind_except.1 h
              · unfold readBlob at h
                split at h
                · exact not_faults_null h
                · exact not_faults_ok _ h
              · obtain h | ⟨_, -, h⟩ := faults_bind_except.1 h
                · exact hrest h
                · exact not_faults_ok _ h
        · rintro ⟨-, memSize', hm', hbad⟩
          rw [hm] at hm'
          cases hm'
          exact hbad ⟨h0, by simpa using hmem⟩

lemma faults_initFromFilePtr : Faults (initFromFilePtr mem params file) ↔ file.length ≤ int64Max ∧
      (Faults (readMeta file) ∨ ∃ ctx rest, readMeta file = .ok (ctx, rest) ∧
        Faults (readData mem params file ctx rest)) := by
  unfold initFromFilePtr
  split
  next h => exact iff_of_false not_faults_null fun hc => absurd hc.1 (by omega)
  next h =>
    rw [faults_bind_except, and_iff_right (by omega)]
    refine or_congr_right ⟨?_, ?_⟩
    · rintro ⟨⟨ctx, rest⟩, hm, hf⟩
      exact ⟨ctx, rest, hm, hf⟩
    · rintro ⟨ctx, rest, hm, hf⟩
      exact ⟨(ctx, rest), hm, hf⟩

lemma faults_readData : Faults (readData mem params file ctx rest) ↔ params.ctx = true ∧
      ∃ size memSize, ggmlPad (file.length - rest.length) ctx.alignment ≤ int64Max ∧
        computeSize ctx.alignment ctx.info 0 = .ok size ∧
        poolSize params.noAlloc ctx.info.length size = some memSize ∧
        ¬ (poolBytes memSize ≠ 0 ∧ mem (poolBytes memSize) = true) := by
  unfold readData
  simp only
  split
  next h =>
    refine iff_of_false not_faults_null ?_
    rintro ⟨-, size, memSize, hle, -⟩
    omega
  next h =>
    rw [faults_bind_except, or_iff_right (not_faults_computeSize _ _ _)]
    simp only [faults_loadTensors]
    constructor
    · rintro ⟨size, hs, hctx, memSize, hm, hbad⟩
      exact ⟨hctx, size, memSize, by omega, hs, hm, hbad⟩
    · rintro ⟨hctx, size, memSize, -, hs, hm, hbad⟩
      exact ⟨size, hs, hctx, memSize, hm, hbad⟩

/-- The reader returns `nullptr` or a context exactly on the files that meet the condition. -/
theorem returns_iff_clean (mem : Nat → Bool) (params : GgufInitParams) (file : List UInt8) :
    (initFromFilePtr mem params file = .error .null ∨ ∃ ctx, initFromFilePtr mem params file = .ok ctx) ↔
      Clean mem params file := by
  have hreturns : (initFromFilePtr mem params file = .error .null ∨
      ∃ ctx, initFromFilePtr mem params file = .ok ctx) ↔ ¬ Faults (initFromFilePtr mem params file) := by
    cases initFromFilePtr mem params file with
    | ok ctx => exact iff_of_true (.inr ⟨ctx, rfl⟩) (not_faults_ok _)
    | error e =>
      cases e with
      | null => exact iff_of_true (.inl rfl) not_faults_null
      | fault f => exact iff_of_false (by simp) (not_not.2 (faults_fault f))
  rw [hreturns, faults_initFromFilePtr]
  constructor
  · intro hno
    have hmeta : ∀ hlen : file.length ≤ int64Max, ¬ Faults (readMeta file) := fun hlen hf =>
      hno ⟨hlen, .inl hf⟩
    refine ⟨?_, ?_, ?_, ?_⟩
    · intro h k kvs rest kv rest' hlt hk hp hkey
      exact hmeta hk.1 ((faults_readMeta hk.1).2 (.inl ⟨h, k, kvs, rest, kv, rest', hlt, hk, hp, hkey⟩))
    · intro h kvs rest kv hk hfind
      by_contra hbad
      exact hmeta hk.1 ((faults_readMeta hk.1).2 (.inr (.inl ⟨h, kvs, rest, kv, hk, hfind, hbad⟩)))
    · intro h kvs a k infos rest name r1 ne r2 hlt hi hn hd
      have hlen : file.length ≤ int64Max := by
        obtain ⟨_, _, hk, -⟩ := hi
        exact hk.1
      by_contra hbad
      exact hmeta hlen ((faults_readMeta hlen).2
        (.inr (.inr ⟨h, kvs, a, k, infos, rest, name, r1, ne, r2, hlt, hi, hn, hd, hbad⟩)))
    · intro hctx h kvs a infos rest size memSize hi hpad hs hm
      have hlen : file.length ≤ int64Max := by
        obtain ⟨_, _, hk, -⟩ := hi
        exact hk.1
      by_contra hbad
      refine hno ⟨hlen, .inr ⟨⟨h.version, kvs, infos, a, 0, 0, none⟩, rest, ?_, ?_⟩⟩
      · exact (readMeta_eq_ok hlen).2 ⟨h, hi, rfl⟩
      · exact faults_readData.2 ⟨hctx, size, memSize, hpad, hs, hm, hbad⟩
  · rintro hc ⟨hlen, hf | ⟨ctx, rest, hm, hf⟩⟩
    · obtain ⟨h, k, kvs, rest, kv, rest', hlt, hk, hp, hkey⟩ | ⟨h, kvs, rest, kv, hk, hfind, hbad⟩ |
        ⟨h, kvs, a, k, infos, rest, name, r1, ne, r2, hlt, hi, hn, hd, hbad⟩ := (faults_readMeta hlen).1 hf
      · exact hc.keys h k kvs rest kv rest' hlt hk hp hkey
      · exact hbad (hc.alignment h kvs rest kv hk hfind)
      · exact hbad (hc.dims h kvs a k infos rest name r1 ne r2 hlt hi hn hd)
    · obtain ⟨h, hi, -⟩ := (readMeta_eq_ok hlen).1 hm
      obtain ⟨hctx, size, memSize, hpad, hs, hps, hbad⟩ := faults_readData.1 hf
      exact hbad (hc.memory hctx h ctx.kv ctx.alignment ctx.info rest size memSize hi hpad hs hps)

/-- A file with one pair, whose key is empty and whose value is the `uint8_t` 7. -/
def emptyKeyFile : List UInt8 :=
  ggufMagic ++ leBytes 4 3 ++ leBytes 8 0 ++ leBytes 8 1 ++ leBytes 8 0 ++ leBytes 4 0 ++ [7]

def zeroDimFile : List UInt8 :=
  ggufMagic ++ leBytes 4 3 ++ leBytes 8 1 ++ leBytes 8 0 ++ leBytes 8 1 ++ [97] ++ leBytes 4 2 ++
    leBytes 8 4 ++ leBytes 8 0 ++ leBytes 4 0 ++ leBytes 8 0

/-- A file with the alignment 32 as a `uint64_t`. -/
def wideAlignmentFile : List UInt8 :=
  ggufMagic ++ leBytes 4 3 ++ leBytes 8 0 ++ leBytes 8 1 ++ leBytes 8 17 ++ keyGeneralAlignment ++
    leBytes 4 10 ++ leBytes 8 32

/-- An empty key, a dimension 0 and an alignment of the wrong type abort the reader. -/
theorem aborts_on_malformed :
    initFromFilePtr (fun _ => true) ⟨true, false⟩ emptyKeyFile = .error (.fault .emptyKey) ∧
    initFromFilePtr (fun _ => true) ⟨true, false⟩ zeroDimFile = .error (.fault .zeroDim) ∧
    initFromFilePtr (fun _ => true) ⟨true, false⟩ wideAlignmentFile = .error (.fault .alignmentValue) := by
  decide +kernel

end Mallana.Gguf
