import Mallana.Peg.Basic
import Mathlib.Data.List.Basic

/-!
# Saving an arena

`common_peg_arena::to_json` and `from_json`. The JSON of an arena keeps the members of an object by their keys, but an
attached schema keeps them in the order in which they came, and the order matters for the grammar that is built from it.
So a schema comes back as it was exactly if it had its members in the order of their keys. A schema that is the value
`null` is taken for no schema.
-/

namespace Mallana.Peg

open List
open Tokenizer (Str)

/-- A JSON value, with the members of an object in the order in which they are kept. `F`: numbers with a fraction. -/
inductive Json (F : Type) where
  | null
  | bool (b : Bool)
  | uint (n : Nat)
  | int (x : Int)
  | float (x : F)
  | string (s : Str)
  | array (xs : List (Json F))
  | object (members : List (Str × Json F))

/-- The bytes of a word. -/
def bytes (s : String) : Str := s.toByteArray.data.toList

@[simp] lemma bytes_inj {s t : String} : bytes s = bytes t ↔ s = t := by
  constructor
  · intro h
    exact String.toByteArray_inj.1 (ByteArray.ext (Array.toList_inj.1 h))
  · rintro rfl
    rfl

section
variable {F : Type}

/-- A member in front of others, in the order of the keys; it takes the place of one with its key. -/
def insertMember {V : Type} (k : Str) (v : V) : List (Str × V) → List (Str × V)
  | [] => [(k, v)]
  | m :: ms => if k < m.1 then (k, v) :: m :: ms else if k = m.1 then (k, v) :: ms else m :: insertMember k v ms

mutual

/-- The conversion of an `ordered_json` to a `json`, whose objects are maps. -/
def Json.toMaps : Json F → Json F
  | .array xs => .array (toMapsAll xs)
  | .object members => .object (toMapsMembers members)
  | .null => .null
  | .bool b => .bool b
  | .uint n => .uint n
  | .int x => .int x
  | .float x => .float x
  | .string s => .string s

def toMapsAll : List (Json F) → List (Json F)
  | [] => []
  | x :: xs => x.toMaps :: toMapsAll xs

def toMapsMembers : List (Str × Json F) → List (Str × Json F)
  | [] => []
  | (k, v) :: members => insertMember k v.toMaps (toMapsMembers members)

end

mutual

/-- The members of every object are in the order of their keys. -/
def Json.InOrder : Json F → Prop
  | .array xs => AllInOrder xs
  | .object members => (members.map Prod.fst).Pairwise (· < ·) ∧ MembersInOrder members
  | _ => True

def AllInOrder : List (Json F) → Prop
  | [] => True
  | x :: xs => x.InOrder ∧ AllInOrder xs

def MembersInOrder : List (Str × Json F) → Prop
  | [] => True
  | (_, v) :: members => v.InOrder ∧ MembersInOrder members

end

@[simp] lemma lookup_eq_ite {K V : Type} [BEq K] [LawfulBEq K] [DecidableEq K] (k : K) (a : K × V) (ms : List (K × V)) :
    (a :: ms).lookup k = if k = a.1 then some a.2 else ms.lookup k := by
  obtain ⟨k', v⟩ := a
  rw [lookup_cons]
  by_cases h : k = k'
  · rw [if_pos h, beq_iff_eq.2 h]
  · rw [if_neg h, beq_false_of_ne h]

section
variable {V : Type} {k : Str} {v : V} {ms : List (Str × V)}

lemma insertMember_first (h : ∀ m ∈ ms, k < m.1) : insertMember k v ms = (k, v) :: ms := by
  cases ms with
  | nil => rfl
  | cons m ms => exact if_pos (h m mem_cons_self)

lemma mem_insertMember {m : Str × V} (h : m ∈ insertMember k v ms) : m = (k, v) ∨ m ∈ ms := by
  induction ms with
  | nil => exact .inl (mem_singleton.1 h)
  | cons a ms ih =>
    rw [insertMember] at h
    split at h
    · exact mem_cons.1 h
    · split at h
      · exact (mem_cons.1 h).imp_right (mem_cons_of_mem a)
      · rcases mem_cons.1 h with rfl | h
        · exact .inr mem_cons_self
        · exact (ih h).imp_right (mem_cons_of_mem a)

lemma sorted_insertMember (h : (ms.map Prod.fst).Pairwise (· < ·)) :
    ((insertMember k v ms).map Prod.fst).Pairwise (· < ·) := by
  induction ms with
  | nil => exact pairwise_singleton _ _
  | cons a ms ih =>
    obtain ⟨hhead, htail⟩ := pairwise_cons.1 h
    rw [insertMember]
    split
    · rename_i hlt
      refine pairwise_cons.2 ⟨?_, h⟩
      intro k' hk'
      rcases mem_cons.1 hk' with rfl | hk'
      · exact hlt
      · exact List.lt_trans hlt (hhead k' hk')
    · split
      · rename_i heq
        exact pairwise_cons.2 ⟨fun k' hk' => heq ▸ hhead k' hk', htail⟩
      · rename_i hle hne
        refine pairwise_cons.2 ⟨?_, ih htail⟩
        intro k' hk'
        obtain ⟨m, hm, rfl⟩ := mem_map.1 hk'
        rcases mem_insertMember hm with rfl | hm
        · exact Std.lt_of_le_of_ne (Std.not_lt.1 hle) (Ne.symm hne)
        · exact hhead _ (mem_map_of_mem hm)

lemma lookup_insertMember (name : Str) : (insertMember k v ms).lookup name = if name = k then some v else ms.lookup name := by
  induction ms with
  | nil => exact lookup_eq_ite name (k, v) []
  | cons a ms ih =>
    rw [insertMember]
    split
    · exact lookup_eq_ite name (k, v) (a :: ms)
    · split
      · rename_i heq
        rw [lookup_eq_ite name (k, v), lookup_eq_ite name a, ← heq]
        split <;> rfl
      · rename_i hne
        rw [lookup_eq_ite name a, lookup_eq_ite name a, ih]
        grind

lemma lookup_of_sorted (h : (ms.map Prod.fst).Pairwise (· < ·)) {m : Str × V} (hm : m ∈ ms) :
    ms.lookup m.1 = some m.2 := by
  induction ms with
  | nil => cases hm
  | cons a ms ih =>
    obtain ⟨hhead, htail⟩ := pairwise_cons.1 h
    rw [lookup_eq_ite]
    rcases mem_cons.1 hm with rfl | hm
    · exact if_pos rfl
    · rw [if_neg fun heq => List.lt_irrefl _ (heq ▸ hhead _ (mem_map_of_mem hm)), ih htail hm]

end

lemma sorted_toMapsMembers (members : List (Str × Json F)) :
    ((toMapsMembers members).map Prod.fst).Pairwise (· < ·) := by
  induction members with
  | nil => exact Pairwise.nil
  | cons m members ih => exact sorted_insertMember ih

lemma key_toMapsMembers {m : Str × Json F} {members : List (Str × Json F)} (h : m ∈ toMapsMembers members) :
    m.1 ∈ members.map Prod.fst := by
  induction members with
  | nil => cases h
  | cons a members ih =>
    rcases mem_insertMember h with rfl | h
    · exact mem_cons_self
    · exact mem_cons_of_mem _ (ih h)

mutual

lemma Json.toMaps_eq_self : ∀ j : Json F, j.toMaps = j ↔ j.InOrder
  | .array xs => by
    rw [Json.toMaps, Json.InOrder, Json.array.injEq]
    exact toMapsAll_eq_self xs
  | .object members => by
    rw [Json.toMaps, Json.InOrder, Json.object.injEq]
    constructor
    · intro heq
      have hsorted := sorted_toMapsMembers members
      rw [heq] at hsorted
      exact ⟨hsorted, (toMapsMembers_eq_self members hsorted).1 heq⟩
    · rintro ⟨hsorted, hall⟩
      exact (toMapsMembers_eq_self members hsorted).2 hall
  | .null => iff_of_true rfl trivial
  | .bool _ => iff_of_true rfl trivial
  | .uint _ => iff_of_true rfl trivial
  | .int _ => iff_of_true rfl trivial
  | .float _ => iff_of_true rfl trivial
  | .string _ => iff_of_true rfl trivial

lemma toMapsAll_eq_self : ∀ xs : List (Json F), toMapsAll xs = xs ↔ AllInOrder xs
  | [] => iff_of_true rfl trivial
  | x :: xs => by
    rw [toMapsAll, AllInOrder, cons.injEq, x.toMaps_eq_self, toMapsAll_eq_self xs]

lemma toMapsMembers_eq_self : ∀ members : List (Str × Json F), (members.map Prod.fst).Pairwise (· < ·) →
    (toMapsMembers members = members ↔ MembersInOrder members)
  | [], _ => iff_of_true rfl trivial
  | (k, v) :: members, hsorted => by
    obtain ⟨hhead, htail⟩ := pairwise_cons.1 hsorted
    have hfirst := fun m hm => hhead _ (@key_toMapsMembers F m members hm)
    rw [toMapsMembers, insertMember_first hfirst, MembersInOrder, cons.injEq, Prod.mk.injEq, eq_self_iff_true, true_and,
      v.toMaps_eq_self, toMapsMembers_eq_self members htail]

end

/-- The member of an object. -/
def Json.find (j : Json F) (k : String) : Option (Json F) :=
  match j with
  | .object members => members.lookup (bytes k)
  | _ => none

/-- An object with these members. -/
def fields (members : List (String × Json F)) : Json F :=
  .object (members.foldr (fun m ms => insertMember (bytes m.1) m.2 ms) [])

def Node.takesSchema : Node → Bool
  | .schema _ _ _ => true
  | _ => false

/-- A `common_peg_parser_variant` with the schema that is attached to it. -/
structure Parser (F : Type) where
  node : Node
  schema : Option (Json F)
  takes : schema ≠ none → node.takesSchema = true

/-- A parser without a schema. -/
def plain (node : Node) : Parser F := ⟨node, none, fun h => absurd rfl h⟩

def ids (children : List Nat) : Json F := .array (children.map .uint)

/-- `serialize_parser_variant`. -/
def serialize (p : Parser F) : Json F :=
  match p.node with
  | .epsilon => fields [("type", .string (bytes "epsilon"))]
  | .start => fields [("type", .string (bytes "start"))]
  | .end_ => fields [("type", .string (bytes "end"))]
  | .literal literal => fields [("type", .string (bytes "literal")), ("literal", .string literal)]
  | .sequence children => fields [("type", .string (bytes "sequence")), ("children", ids children)]
  | .choice children => fields [("type", .string (bytes "choice")), ("children", ids children)]
  | .repetition child minCount maxCount =>
    fields [("type", .string (bytes "repetition")), ("child", .uint child), ("min_count", .int minCount),
      ("max_count", .int maxCount)]
  | .and child => fields [("type", .string (bytes "and")), ("child", .uint child)]
  | .not child => fields [("type", .string (bytes "not")), ("child", .uint child)]
  | .any => fields [("type", .string (bytes "any"))]
  | .space => fields [("type", .string (bytes "space"))]
  | .chars pattern ranges negated minCount maxCount =>
    fields [("type", .string (bytes "chars")), ("pattern", .string pattern),
      ("ranges", .array (ranges.map fun r => fields [("start", .uint r.start.toNat), ("end", .uint r.stop.toNat)])),
      ("negated", .bool negated), ("min_count", .int minCount), ("max_count", .int maxCount)]
  | .string delimiter => fields [("type", .string (bytes "string")), ("delimiter", .string [delimiter])]
  | .until_ delimiters => fields [("type", .string (bytes "until")), ("delimiters", .array (delimiters.map .string))]
  | .schema child name raw =>
    fields [("type", .string (bytes "schema")), ("child", .uint child), ("name", .string name),
      ("schema", (p.schema.map Json.toMaps).getD .null), ("raw", .bool raw)]
  | .rule name child trigger =>
    fields [("type", .string (bytes "rule")), ("name", .string name), ("child", .uint child), ("trigger", .bool trigger)]
  | .ref name => fields [("type", .string (bytes "ref")), ("name", .string name)]
  | .atomic child => fields [("type", .string (bytes "atomic")), ("child", .uint child)]
  | .tag child tag => fields [("type", .string (bytes "tag")), ("child", .uint child), ("tag", .string tag)]

/-- `contains`, or the error. -/
def need (j : Json F) (k : String) (error : String) : Except Str (Json F) :=
  match j.find k with
  | some v => .ok v
  | none => .error (bytes error)

def getString : Json F → Except Str Str
  | .string s => .ok s
  | _ => .error (bytes "type must be string")

def getBool : Json F → Except Str Bool
  | .bool b => .ok b
  | _ => .error (bytes "type must be boolean")

/-- A number as a `size_t`. `trunc`: the conversion of a `double`. -/
def getSize (trunc : F → Int) : Json F → Except Str Nat
  | .uint n => .ok n
  | .int x => .ok (x % 2 ^ 64).toNat
  | .float x => .ok (trunc x % 2 ^ 64).toNat
  | _ => .error (bytes "type must be number")

/-- A number as an integer of 32 bits, before it is cut. -/
def getNumber (trunc : F → Int) : Json F → Except Str Int
  | .uint n => .ok n
  | .int x => .ok x
  | .float x => .ok (trunc x)
  | .bool b => .ok b.toInt
  | _ => .error (bytes "type must be number")

def getInt (trunc : F → Int) (j : Json F) : Except Str Int :=
  (getNumber trunc j).map fun x => (x + 2 ^ 31) % 2 ^ 32 - 2 ^ 31

def getUInt32 (trunc : F → Int) (j : Json F) : Except Str UInt32 :=
  (getNumber trunc j).map fun x => UInt32.ofNat (x % 2 ^ 32).toNat

def needString (j : Json F) (k error : String) : Except Str Str :=
  match j.find k with
  | some (.string s) => .ok s
  | _ => .error (bytes error)

def needArray (j : Json F) (k error : String) : Except Str (List (Json F)) :=
  match j.find k with
  | some (.array xs) => .ok xs
  | _ => .error (bytes error)

/-- What a loop over a value visits. -/
def Json.items : Json F → List (Json F)
  | .array xs => xs
  | .object members => members.map Prod.snd
  | .null => []
  | j => [j]

def getRange (trunc : F → Int) (j : Json F) : Except Str CharRange := do
  let start ← need j "start" "char_range missing 'start' or 'end' field"
  let stop ← need j "end" "char_range missing 'start' or 'end' field"
  .ok ⟨← getUInt32 trunc start, ← getUInt32 trunc stop⟩

/-- `deserialize_parser_variant`. -/
def deserialize (trunc : F → Int) (j : Json F) : Except Str (Parser F) := do
  let type ← needString j "type" "Parser variant JSON missing or invalid 'type' field"
  if type = bytes "epsilon" then .ok (plain .epsilon)
  else if type = bytes "start" then .ok (plain .start)
  else if type = bytes "end" then .ok (plain .end_)
  else if type = bytes "literal" then
    .ok (plain (.literal (← needString j "literal" "literal parser missing or invalid 'literal' field")))
  else if type = bytes "sequence" then do
    let children ← needArray j "children" "sequence parser missing or invalid 'children' field"
    .ok (plain (.sequence (← children.mapM (getSize trunc))))
  else if type = bytes "choice" then do
    let children ← needArray j "children" "choice parser missing or invalid 'children' field"
    .ok (plain (.choice (← children.mapM (getSize trunc))))
  else if type = bytes "repetition" then do
    let child ← need j "child" "repetition parser missing required fields"
    let minCount ← need j "min_count" "repetition parser missing required fields"
    let maxCount ← need j "max_count" "repetition parser missing required fields"
    .ok (plain (.repetition (← getSize trunc child) (← getInt trunc minCount) (← getInt trunc maxCount)))
  else if type = bytes "and" then do
    let child ← need j "child" "and parser missing 'child' field"
    .ok (plain (.and (← getSize trunc child)))
  else if type = bytes "not" then do
    let child ← need j "child" "not parser missing 'child' field"
    .ok (plain (.not (← getSize trunc child)))
  else if type = bytes "any" then .ok (plain .any)
  else if type = bytes "space" then .ok (plain .space)
  else if type = bytes "chars" then do
    let pattern ← need j "pattern" "chars parser missing required fields"
    let ranges ← need j "ranges" "chars parser missing required fields"
    let negated ← need j "negated" "chars parser missing required fields"
    let minCount ← need j "min_count" "chars parser missing required fields"
    let maxCount ← need j "max_count" "chars parser missing required fields"
    let pattern ← getString pattern
    let negated ← getBool negated
    let minCount ← getInt trunc minCount
    let maxCount ← getInt trunc maxCount
    .ok (plain (.chars pattern (← ranges.items.mapM (getRange trunc)) negated minCount maxCount))
  else if type = bytes "string" then do
    match ← getString (← need j "delimiter" "string parser missing delimiter field.") with
    | [] => .error (bytes "string parser delimiter is empty.")
    | delimiter :: _ => .ok (plain (.string delimiter))
  else if type = bytes "until" then do
    let delimiters ← needArray j "delimiters" "until parser missing or invalid 'delimiters' field"
    .ok (plain (.until_ (← delimiters.mapM getString)))
  else if type = bytes "schema" then do
    let child ← need j "child" "schema parser missing required fields"
    let name ← need j "name" "schema parser missing required fields"
    let schema ← need j "schema" "schema parser missing required fields"
    let raw ← need j "raw" "schema parser missing required fields"
    let child ← getSize trunc child
    let name ← getString name
    .ok ⟨.schema child name (← getBool raw), match schema with
      | .null => none
      | schema => some schema, fun _ => rfl⟩
  else if type = bytes "rule" then do
    let name ← need j "name" "rule parser missing required fields"
    let child ← need j "child" "rule parser missing required fields"
    let trigger ← need j "trigger" "rule parser missing required fields"
    .ok (plain (.rule (← getString name) (← getSize trunc child) (← getBool trigger)))
  else if type = bytes "ref" then
    .ok (plain (.ref (← needString j "name" "ref parser missing or invalid 'name' field")))
  else if type = bytes "atomic" then do
    let child ← need j "child" "tag parser missing required fields"
    .ok (plain (.atomic (← getSize trunc child)))
  else if type = bytes "tag" then do
    let child ← need j "child" "tag parser missing required fields"
    let tag ← need j "tag" "tag parser missing required fields"
    .ok (plain (.tag (← getSize trunc child) (← getString tag)))
  else .error (bytes "Unknown parser type: " ++ type)

/-- A `common_peg_arena` as it is saved. -/
structure SavedArena (F : Type) where
  parsers : List (Parser F)
  rules : List (Str × Nat)
  root : Nat

/-- `COMMON_PEG_INVALID_PARSER_ID`. -/
def invalidParserId : Nat := 2 ^ 64 - 1

/-- The rules by their names. -/
def SavedArena.ruleMap (a : SavedArena F) : List (Str × Nat) :=
  a.rules.foldr (fun r ms => insertMember r.1 r.2 ms) []

/-- `to_json`. -/
def SavedArena.toJson (a : SavedArena F) : Json F :=
  fields [("parsers", .array (a.parsers.map serialize)), ("rules", .object (a.ruleMap.map fun r => (r.1, .uint r.2))),
    ("root", .uint a.root)]

/-- `from_json`. -/
def fromJson (trunc : F → Int) (j : Json F) : Except Str (SavedArena F) := do
  let parsers ← needArray j "parsers" "JSON missing or invalid 'parsers' array"
  let rules ← match j.find "rules" with
    | some (.object members) => Except.ok members
    | _ => .error (bytes "JSON missing or invalid 'rules' object")
  let root ← need j "root" "JSON missing 'root' field"
  let parsers ← parsers.mapM (deserialize trunc)
  let rules ← rules.mapM fun m => (getSize trunc m.2).map fun id => (m.1, id)
  match rules.find? fun r => parsers.length ≤ r.2 with
  | some r => .error (bytes "Rule '" ++ r.1 ++ bytes "' references invalid parser ID: " ++ bytes (toString r.2))
  | none =>
    let root ← getSize trunc root
    if root ≠ invalidParserId ∧ parsers.length ≤ root then
      .error (bytes "Root references invalid parser ID: " ++ bytes (toString root))
    else .ok ⟨parsers, rules, root⟩

/-- The arena comes back as it was, with the rules as a map. -/
def SavedArena.RoundTrips (trunc : F → Int) (a : SavedArena F) : Prop :=
  ∃ b, fromJson trunc a.toJson = .ok b ∧ b.parsers = a.parsers ∧ b.root = a.root ∧
    ∀ name, b.rules.lookup name = a.rules.lookup name

/-- The counts are of type `int`. -/
def Node.Fits : Node → Prop
  | .repetition _ minCount maxCount | .chars _ _ _ minCount maxCount =>
    (-2 ^ 31 ≤ minCount ∧ minCount < 2 ^ 31) ∧ -2 ^ 31 ≤ maxCount ∧ maxCount < 2 ^ 31
  | _ => True

/-- What becomes of a schema. -/
def kept (schema : Option (Json F)) : Option (Json F) :=
  match (schema.map Json.toMaps).getD .null with
  | .null => none
  | schema => some schema

/-- What becomes of a parser. -/
def Parser.restored (p : Parser F) : Parser F where
  node := p.node
  schema := kept p.schema
  takes h := p.takes fun hnone => h (by rw [hnone]; rfl)

@[simp] lemma find_fields (members : List (String × Json F)) (k : String) : (fields members).find k = members.lookup k := by
  induction members with
  | nil => rfl
  | cons m members ih =>
    have hstep : (fields (m :: members)).find k = if bytes k = bytes m.1 then some m.2 else (fields members).find k :=
      lookup_insertMember (bytes k)
    rw [hstep, ih, lookup_eq_ite]
    exact if_congr bytes_inj rfl rfl

@[simp] lemma need_fields {members : List (String × Json F)} {k error : String} :
    need (fields members) k error = match members.lookup k with
      | some v => .ok v
      | none => .error (bytes error) := by rw [need, find_fields]

lemma mapM_map_ok {α β γ : Type} {f : α → β} {g : β → Except Str γ} {h : α → γ} {xs : List α}
    (hall : ∀ x ∈ xs, g (f x) = .ok (h x)) : (xs.map f).mapM g = .ok (xs.map h) := by
  induction xs with
  | nil => rfl
  | cons x xs ih =>
    rw [map_cons, mapM_cons, hall x mem_cons_self, ih fun y hy => hall y (mem_cons_of_mem x hy)]
    rfl

variable {trunc : F → Int}

@[simp] lemma ok_bind {α β : Type} (a : α) (f : α → Except Str β) : (Except.ok a >>= f) = f a := rfl

lemma getInt_int {x : Int} (h : -2 ^ 31 ≤ x ∧ x < 2 ^ 31) : getInt trunc (.int x) = .ok x := by
  have hcut : (x + 2 ^ 31) % 2 ^ 32 - 2 ^ 31 = x := by omega
  exact congrArg Except.ok hcut

lemma getUInt32_toNat (x : UInt32) : getUInt32 trunc (.uint x.toNat) = .ok x := by
  have hlt := x.toNat_lt
  have hcut : ((x.toNat : Int) % 2 ^ 32).toNat = x.toNat := by omega
  refine congrArg Except.ok ?_
  dsimp only
  rw [hcut, UInt32.ofNat_toNat]

lemma getRange_fields (r : CharRange) :
    getRange trunc (fields [("start", .uint r.start.toNat), ("end", .uint r.stop.toNat)]) = .ok r := by
  simp [getRange, getUInt32_toNat]

lemma type_fields {β : Type} {type : Str} {members : List (String × Json F)} {error : String} {f : Str → Except Str β} :
    (needString (fields (("type", .string type) :: members)) "type" error >>= f) = f type := by
  simp [needString]

lemma deserialize_serialize {p : Parser F} (hfits : p.node.Fits) : deserialize trunc (serialize p) = .ok p.restored := by
  obtain ⟨node, schema, takes⟩ := p
  have hnone : node.takesSchema = false → schema = none := by
    intro hnot
    by_contra hsome
    rw [takes hsome] at hnot
    cases hnot
  have hids : ∀ children : List Nat, (children.map (.uint : Nat → Json F)).mapM (getSize trunc) = .ok children := by
    intro children
    have := @mapM_map_ok _ _ _ (.uint : Nat → Json F) (getSize trunc) id children fun _ _ => rfl
    rwa [map_id] at this
  cases node with
  | sequence children | choice children =>
    obtain rfl := hnone rfl
    refine type_fields.trans ?_
    simp [serialize, needArray, ids, hids, plain, Parser.restored, kept]
  | repetition child minCount maxCount =>
    obtain rfl := hnone rfl
    refine type_fields.trans ?_
    simp [serialize, getSize, plain, Parser.restored, kept, getInt_int hfits.1, getInt_int hfits.2]
  | chars pattern ranges negated minCount maxCount =>
    obtain rfl := hnone rfl
    have hranges := mapM_map_ok fun r (_ : r ∈ ranges) => @getRange_fields F trunc r
    rw [map_id'] at hranges
    refine type_fields.trans ?_
    simp [serialize, getString, getBool, Json.items, hranges, plain, Parser.restored, kept,
      getInt_int hfits.1, getInt_int hfits.2]
  | until_ delimiters =>
    obtain rfl := hnone rfl
    have hall : (delimiters.map (.string : Str → Json F)).mapM getString = .ok delimiters := by
      have := @mapM_map_ok _ _ _ (.string : Str → Json F) getString id delimiters fun _ _ => rfl
      rwa [map_id] at this
    refine type_fields.trans ?_
    simp [serialize, needArray, hall, plain, Parser.restored, kept]
  | schema child name raw =>
    refine type_fields.trans ?_
    simp [serialize, getSize, getString, getBool, Parser.restored, kept]
  | _ =>
    obtain rfl := hnone rfl
    refine type_fields.trans ?_
    simp [serialize, needString, getSize, getString, getBool, plain, Parser.restored, kept]

lemma kept_eq_self {schema : Option (Json F)} :
    kept schema = schema ↔ ∀ j, schema = some j → j ≠ .null ∧ j.InOrder := by
  cases schema with
  | none => exact iff_of_true rfl nofun
  | some j =>
    have hsome : (∀ j', some j = some j' → j' ≠ .null ∧ j'.InOrder) ↔ j ≠ .null ∧ j.InOrder :=
      ⟨fun h => h j rfl, fun h j' hj => Option.some.inj hj ▸ h⟩
    rw [hsome, ← j.toMaps_eq_self]
    cases j <;> simp [kept, Json.toMaps]

variable {a : SavedArena F}

lemma lookup_ruleMap (name : Str) : a.ruleMap.lookup name = a.rules.lookup name := by
  rw [SavedArena.ruleMap]
  induction a.rules with
  | nil => rfl
  | cons r rules ih => rw [foldr_cons, lookup_insertMember, ih, lookup_eq_ite]

lemma sorted_ruleMap : (a.ruleMap.map Prod.fst).Pairwise (· < ·) := by
  rw [SavedArena.ruleMap]
  induction a.rules with
  | nil => exact Pairwise.nil
  | cons r rules ih => exact sorted_insertMember ih

lemma fromJson_toJson (hfits : ∀ p ∈ a.parsers, p.node.Fits) :
    fromJson trunc a.toJson = match a.ruleMap.find? fun r => a.parsers.length ≤ r.2 with
      | some r => .error (bytes "Rule '" ++ r.1 ++ bytes "' references invalid parser ID: " ++ bytes (toString r.2))
      | none =>
        if a.root ≠ invalidParserId ∧ a.parsers.length ≤ a.root then
          .error (bytes "Root references invalid parser ID: " ++ bytes (toString a.root))
        else .ok ⟨a.parsers.map Parser.restored, a.ruleMap, a.root⟩ := by
  have hparsers := @mapM_map_ok _ _ _ serialize (deserialize trunc) Parser.restored a.parsers fun p hp =>
    deserialize_serialize (hfits p hp)
  have hrules : (a.ruleMap.map fun r => (r.1, (.uint r.2 : Json F))).mapM
      (fun m => (getSize trunc m.2).map fun id => (m.1, id)) = .ok a.ruleMap := by
    have := @mapM_map_ok _ _ _ (fun r : Str × Nat => (r.1, (.uint r.2 : Json F)))
      (fun m => (getSize trunc m.2).map fun id => (m.1, id)) id a.ruleMap fun _ _ => rfl
    rwa [map_id] at this
  have hroot : getSize trunc (.uint a.root) = .ok a.root := rfl
  simp [fromJson, SavedArena.toJson, needArray, hparsers, hrules, hroot, -mapM_map]

end

/-- An arena comes back from its JSON as it was exactly if every number of a rule and of the root is one of a parser, no
schema is `null`, and every schema has the members of its objects in the order of their keys. -/
theorem savedArena_iff {F : Type} {trunc : F → Int} {a : SavedArena F} (hfits : ∀ p ∈ a.parsers, p.node.Fits) :
    a.RoundTrips trunc ↔ (∀ p ∈ a.parsers, ∀ j, p.schema = some j → j ≠ .null ∧ j.InOrder) ∧
      (∀ name id, a.rules.lookup name = some id → id < a.parsers.length) ∧
      (a.root = invalidParserId ∨ a.root < a.parsers.length) := by
  have hschemas : a.parsers.map Parser.restored = a.parsers ↔
      ∀ p ∈ a.parsers, ∀ j, p.schema = some j → j ≠ .null ∧ j.InOrder := by
    have hmap : a.parsers.map Parser.restored = a.parsers.map id ↔ _ := map_inj_left
    rw [map_id] at hmap
    rw [hmap]
    refine forall₂_congr fun p _ => ?_
    rw [← kept_eq_self]
    obtain ⟨node, schema, takes⟩ := p
    simp [Parser.restored]
  have hnames : (a.ruleMap.find? fun r => a.parsers.length ≤ r.2) = none ↔
      ∀ name id, a.rules.lookup name = some id → id < a.parsers.length := by
    simp only [find?_eq_none, decide_eq_true_eq, not_le]
    constructor
    · intro hall name id hlookup
      rw [← lookup_ruleMap] at hlookup
      obtain ⟨l, r, hmap, -⟩ := lookup_eq_some_iff.1 hlookup
      exact hall (name, id) (hmap ▸ mem_append_right l mem_cons_self)
    · intro hall r hr
      exact hall r.1 r.2 (by rw [← lookup_ruleMap, lookup_of_sorted sorted_ruleMap hr])
  rw [SavedArena.RoundTrips, fromJson_toJson hfits, ← hschemas, ← hnames]
  constructor
  · rintro ⟨b, hb, hparsers, hroot, hrules⟩
    split at hb
    · cases hb
    · rename_i hnone
      split at hb
      · cases hb
      · rename_i hvalid
        cases hb
        exact ⟨hparsers, hnone, by simpa [imp_iff_not_or] using hvalid⟩
  · rintro ⟨hparsers, hnone, hroot⟩
    rw [hnone]
    refine ⟨⟨_, a.ruleMap, a.root⟩, if_neg ?_, hparsers, rfl, lookup_ruleMap⟩
    rintro ⟨hne, hle⟩
    exact hroot.elim hne (Nat.not_lt.2 hle)

/-- An arena whose root has the schema. -/
def schemaArena (schema : Json Empty) : SavedArena Empty where
  parsers := [plain .any, ⟨.schema 0 (bytes "s") false, some schema, fun _ => rfl⟩]
  rules := []
  root := 1

def member (name : String) : Str × Json Empty := (bytes name, .object [])

theorem roundTrips_ordered : (schemaArena (.object [member "a", member "b"])).RoundTrips nofun :=
  (savedArena_iff (by simp [schemaArena, plain, Node.Fits])).2
    ⟨by simp [schemaArena, plain, member, Json.InOrder, MembersInOrder, show bytes "a" < bytes "b" by decide],
      fun _ _ h => absurd h (by simp [schemaArena]), .inr (by decide)⟩

lemma not_ordered : ¬ (Json.object [member "b", member "a"]).InOrder := by
  simp [member, Json.InOrder, show ¬ bytes "b" < bytes "a" by decide]

/-- The members "b" and "a" change places. -/
theorem roundTrips_swapped : ¬ (schemaArena (.object [member "b", member "a"])).RoundTrips nofun := by
  rintro ⟨b, hb, hparsers, -, -⟩
  rw [fromJson_toJson (by simp [schemaArena, plain, Node.Fits])] at hb
  cases hb
  have hkept : kept (some (.object [member "b", member "a"])) = some (.object [member "b", member "a"]) :=
    congrArg (fun ps => (ps.getD 1 (plain .any)).schema) hparsers
  exact not_ordered (kept_eq_self.1 hkept _ rfl).2

end Mallana.Peg
