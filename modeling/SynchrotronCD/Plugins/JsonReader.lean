import SynchrotronCD.Lib.JsonTree
import SynchrotronCD.Plugins.Mapping

/-!
# Reading JSON back

`serde_json` as a reader. What it does with the text of a document is known up to
how it reads a float, which need not be the double that was written; nesting is
bounded. A value is read from a document as a value of YAML: members become
entries under string keys, and a key that stands twice is an error.

`readDoc` says in one pass what becomes of a document that is written and read.
-/

namespace SynchrotronCD

open Lib
open List (Forall₂)

namespace Value

/-! ## The reader -/

/-- `serde_json` refuses a document nested this deep. -/
def recursionLimit : Nat := 128

/-- Integers are read as they are written. -/
def readNumber (readFloat : FiniteF64 → Option FiniteF64) : JsonNumber → Option JsonNumber
  | .posInt n => some (.posInt n)
  | .negInt k => some (.negInt k)
  | .float x => (readFloat x).map .float

end Value

open Value

/-- The serializer of floats, and the reader of JSON texts. -/
class JsonReader extends FloatText where
  /-- What is read from the text of a double; without `float_roundtrip` it may be a neighbour. -/
  readFloat : FiniteF64 → Option FiniteF64
  /-- The sign of a zero is read. -/
  readFloat_zero : ∀ {x y}, readFloat x = some y → x.val.isZero = true → y.val.isZero = true → y = x
  parse : List UInt8 → Option Doc
  parse_jsonBytes : ∀ j, parse (jsonBytes j) =
    if j.depth < recursionLimit then j.mapNums (readNumber readFloat) else none

/-- A reader for runs in which no document holds a float. -/
@[reducible] noncomputable def JsonReader.ofBits : JsonReader :=
  letI := FloatText.ofBits
  { readFloat := some
    readFloat_zero := fun h _ _ => (Option.some.inj h).symm
    parse := fun bytes => (Function.partialInv jsonBytes bytes).bind fun j =>
      if j.depth < recursionLimit then j.mapNums (readNumber some) else none
    parse_jsonBytes := fun j => by rw [Function.partialInv_left jsonBytes_injective]; rfl }

namespace Value

/-! ## Values from documents -/

mutual

/-- `Value::deserialize`. -/
def readValue : Doc → Option Value
  | .null => some .null
  | .bool b => some (.bool b)
  | .num n => some (.number n.toNumber)
  | .str s => some (.string s)
  | .arr xs => (readElems xs).map .sequence
  | .obj kvs => if (kvs.map Prod.fst).Nodup then (readMembers kvs).map .mapping else none

def readElems : List Doc → Option (List Value)
  | [] => some []
  | x :: xs => do
    let v ← readValue x
    let vs ← readElems xs
    return v :: vs

def readMembers : List (String × Doc) → Option (List (Value × Value))
  | [] => some []
  | (k, x) :: kvs => do
    let v ← readValue x
    let vs ← readMembers kvs
    return (.string k, v) :: vs

end

theorem readElems_eq_mapM (xs : List Doc) : readElems xs = xs.mapM readValue := by
  induction xs with
  | nil => rfl
  | cons x xs ih => rw [readElems, ih, List.mapM_cons]

theorem readMembers_eq_mapM (kvs : List (String × Doc)) :
    readMembers kvs = kvs.mapM (fun kv => (readValue kv.2).map (Prod.mk (.string kv.1))) := by
  induction kvs with
  | nil => rfl
  | cons kv kvs ih =>
      rw [readMembers, ih, List.mapM_cons]
      cases readValue kv.2 <;> rfl

/-- Replacing numbers leaves the keys. -/
theorem mapMembers_keys {f : JsonNumber → Option JsonNumber} {kvs kvs' : List (String × Doc)}
    (h : Json.mapMembers f kvs = some kvs') : kvs'.map Prod.fst = kvs.map Prod.fst := by
  rw [Json.mapMembers_eq_mapM, mapM_eq_some_iff] at h
  have hkeys : Forall₂ (fun kv kv' => kv.1 = kv'.1) kvs kvs' := by
    refine h.imp fun kv kv' he => ?_
    obtain ⟨w, -, rfl⟩ := Option.map_eq_some_iff.mp he
    rfl
  exact (map_eq_of_forall₂ hkeys).symm

/-! ## Documents, written and read -/

section

variable [JsonReader]

/-- `serde_json::from_slice::<Value>`. -/
def fromSlice (bytes : List UInt8) : Option Value := (JsonReader.parse bytes).bind readValue

/-- What is read as a value from the text of a document. -/
def readDoc (j : Doc) : Option Value :=
  (j.mapNums (readNumber JsonReader.readFloat)).bind readValue

theorem fromSlice_jsonBytes (j : Doc) :
    fromSlice (jsonBytes j) = if j.depth < recursionLimit then readDoc j else none := by
  unfold fromSlice
  rw [JsonReader.parse_jsonBytes]
  split <;> rfl

theorem readDoc_arr (js : List Doc) : readDoc (.arr js) = (js.mapM readDoc).map .sequence := by
  have helems : js.mapM readDoc
      = (Json.mapElems (readNumber JsonReader.readFloat) js).bind readElems := by
    rw [Json.mapElems_eq_mapM, funext readElems_eq_mapM, mapM_bind_mapM]
    rfl
  rw [helems]
  unfold readDoc
  rw [Json.mapNums]
  cases Json.mapElems (readNumber JsonReader.readFloat) js <;> rfl

theorem readDoc_obj (kvs : List (String × Doc)) : readDoc (.obj kvs) =
    if (kvs.map Prod.fst).Nodup then
      (kvs.mapM fun kv => (readDoc kv.2).map (Prod.mk (.string kv.1))).map .mapping
    else none := by
  have hmembers : kvs.mapM (fun kv => (readDoc kv.2).map (Prod.mk (.string kv.1)))
      = (Json.mapMembers (readNumber JsonReader.readFloat) kvs).bind readMembers := by
    rw [Json.mapMembers_eq_mapM, funext readMembers_eq_mapM, mapM_bind_mapM]
    refine congrArg (List.mapM · kvs) (funext fun kv => ?_)
    unfold readDoc
    cases kv.2.mapNums (readNumber JsonReader.readFloat) <;> rfl
  rw [hmembers]
  unfold readDoc
  rw [Json.mapNums]
  cases hkvs : Json.mapMembers (readNumber JsonReader.readFloat) kvs with
  | none => simp
  | some kvs' =>
      rw [Option.map_some, Option.bind_some, Option.bind_some, readValue, mapMembers_keys hkvs]

/-- An array is read element by element. -/
theorem readDoc_arr_iff {js : List Doc} {w : Value} : readDoc (.arr js) = some w ↔
    ∃ ws, Forall₂ (fun j w => readDoc j = some w) js ws ∧ .sequence ws = w := by
  rw [readDoc_arr, Option.map_eq_some_iff]
  simp only [mapM_eq_some_iff]

/-- An object is read member by member, if its keys are distinct. -/
theorem readDoc_obj_iff {kvs : List (String × Doc)} {w : Value} : readDoc (.obj kvs) = some w ↔
    (kvs.map Prod.fst).Nodup ∧ ∃ es,
      Forall₂ (fun kv e => readDoc kv.2 = some e.2 ∧ e.1 = .string kv.1) kvs es ∧ .mapping es = w := by
  have hentry : ∀ (kv : String × Doc) (e : Value × Value),
      (readDoc kv.2).map (Prod.mk (.string kv.1)) = some e ↔
        readDoc kv.2 = some e.2 ∧ e.1 = .string kv.1 := by
    intro kv e
    obtain ⟨k, u⟩ := e
    rw [Option.map_eq_some_iff]
    refine ⟨?_, ?_⟩
    · intro h
      obtain ⟨u', hu, he⟩ := h
      obtain ⟨rfl, rfl⟩ := Prod.mk.inj he
      exact ⟨hu, rfl⟩
    · intro h
      obtain ⟨hu, rfl⟩ := h
      exact ⟨u, hu, rfl⟩
  rw [readDoc_obj]
  split
  · rename_i hnd
    rw [Option.map_eq_some_iff]
    simp only [mapM_eq_some_iff, hentry, hnd, true_and]
  · rename_i hnd
    simp [hnd]

end

end Value

end SynchrotronCD
