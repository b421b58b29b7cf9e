import SynchrotronCD.Diff.Equivalent
import SynchrotronCD.Diff.Ownership
import SynchrotronCD.Lib.JsonUnescaped
import SynchrotronCD.Lib.Text

/-!
# Keyed segments

An element of a list-map stands in `fieldsV1` under `k:` and the JSON object of its key
fields. The differ keeps the key fields of an element as texts, in the order the list-map is
registered with, and `candidateKey` puts each of them between quotes.

That is the JSON object only if every key field is a string, and none has a
character that JSON escapes. A port is a number.
-/

namespace SynchrotronCD

open Lib

/-- A key field: a string, a number JSON can write, or a boolean. -/
inductive Scalar where
  | str (s : String)
  | num (n : Value.JsonNumber)
  | bool (b : Bool)

namespace Scalar

def value : Scalar → Value
  | .str s => .string s
  | .num n => .number n.toNumber
  | .bool b => .bool b

/-- Strings are quoted and escaped in JSON, numbers and booleans are not. -/
def doc : Scalar → Value.Doc
  | .str s => .str s
  | .num n => .num n
  | .bool b => .bool b

end Scalar

/-- An element of a list-map with these keys: every key field is there, and a scalar. -/
structure KeyedElement (keys : List String) where
  element : Value
  scalars : ∀ k ∈ keys, ∃ s : Scalar, element.get k = some s.value

section

variable [FloatText]

theorem Scalar.toJson_value (s : Scalar) : s.value.toJson = some s.doc := by
  match s with
  | .str _ | .bool _ | .num (.posInt _) | .num (.negInt _) => rfl
  | .num (.float x) =>
      simp [value, doc, Value.toJson, Value.JsonNumber.toNumber, Value.numberToJson, x.2]

/-- How the differ writes a key field. -/
def docText : Value.Doc → String
  | .str s => s
  | .num n => String.ofList n.print
  | .bool b => toString b
  | _ => ""

theorem Scalar.scalarToString_value [YamlText] (s : Scalar) :
    scalarToString s.value = docText s.doc := by
  match s with
  | .str _ | .bool _ | .num (.posInt _) | .num (.negInt _) => rfl
  | .num (.float x) =>
      simp [value, doc, docText, scalarToString, numberText, Value.JsonNumber.toNumber,
        Value.JsonNumber.print, x.2]

/-- Only a string has quotes in its text. -/
theorem Scalar.quotes (s : Scalar) :
    (∃ t, s.doc = .str t) ∨ (Json.print s.doc).count '"' = 0 := by
  cases s with
  | str t => exact Or.inl ⟨t, rfl⟩
  | bool b => exact Or.inr (by cases b <;> rfl)
  | num n =>
      refine Or.inr (List.count_eq_zero.mpr fun hquote => ?_)
      exact absurd (NumberText.chars n _ hquote) (by decide)

end

/-! ## The key of a segment -/

theorem candidateKey_keyed (ps : List (String × String)) : candidateKey (.keyed ps)
    = "k:" ++ String.ofList (Json.braced (ps.map fun p => Json.unescapedMember p.1 p.2)) := by
  refine String.toList_inj.mp ?_
  cases ps with
  | nil => rfl
  | cons p ps =>
      have hmember : ∀ q : String × String, ("\"" ++ q.1 ++ "\":\"" ++ q.2 ++ "\"").toList
          = Json.unescapedMember q.1 q.2 := fun q => by
        simp [Json.unescapedMember]
      have hmembers : ((p :: ps).map fun q => "\"" ++ q.1 ++ "\":\"" ++ q.2 ++ "\"").map String.toList
          = (p :: ps).map fun q => Json.unescapedMember q.1 q.2 := by
        rw [List.map_map]
        exact List.map_congr_left fun q _ => hmember q
      rw [candidateKey, String.toList_append, String.toList_append, String.toList_intercalate,
        hmembers, List.map_cons, String.toList_append, Json.braced]
      have hcomma : ",".toList = [','] := rfl
      rw [hcomma, Lib.intercalate_cons]
      simp

/-- A node of one empty child owns what the child's key is the key of. -/
theorem fieldsV1Owns_single (seg : PathSegment) (key : String) :
    fieldsV1Owns [seg] (.mapping [(.string key, .mapping [])]) = true ↔ candidateKey seg = key := by
  have hentry : entry [(.string key, .mapping [])] (.string (candidateKey seg))
      = if candidateKey seg = key then some (.mapping []) else none := by
    rw [entry_cons]
    simp [Value.beq, entry]
  unfold fieldsV1Owns
  simp only [Value.asMapping, Value.untag]
  rw [hentry]
  by_cases h : candidateKey seg = key <;> simp [h, Value.untag]

namespace KeyedElement

variable [FloatText] {keys : List String}

/-- The key fields, in some order. -/
def keyFields (el : KeyedElement keys) (order : List String) : List (String × Value.Doc) :=
  order.map fun k => (k, ((el.element.get k).bind Value.toJson).getD .null)

/-- The canonical key: the JSON object of the key fields, in some order. -/
def canonicalKey (el : KeyedElement keys) (order : List String) : String :=
  "k:" ++ String.ofList (Json.print (.obj (el.keyFields order)))

/-- A node with this key and nothing else is found to own the element. -/
def Recognises [YamlText] (el : KeyedElement keys) (key : String) : Prop :=
  fieldsV1Owns [.keyed (extractKeys el.element keys)]
    (.mapping [(.string key, .mapping [])]) = true

/-- The canonical key of the element is recognised, and none of an element with other key fields. -/
def RecognisesOwnKeyOnly [YamlText] (el : KeyedElement keys) (order : List String) : Prop :=
  el.Recognises (el.canonicalKey order) ∧
    ∀ other : KeyedElement keys, el.Recognises (other.canonicalKey order) →
      other.keyFields order = el.keyFields order

/-- The key field `k` is a string in which nothing has to be escaped. -/
def PlainString (el : KeyedElement keys) (k : String) : Prop :=
  ∃ s, el.element.get k = some (.string s) ∧ Json.Plain s

theorem doc_of_get {el : KeyedElement keys} {k : String} {s : Scalar}
    (h : el.element.get k = some s.value) :
    ((el.element.get k).bind Value.toJson).getD .null = s.doc := by
  rw [h, Option.bind_some, s.toJson_value]
  rfl

theorem extractKeys_eq [YamlText] (el : KeyedElement keys) :
    extractKeys el.element keys = (el.keyFields keys).map fun kv => (kv.1, docText kv.2) := by
  unfold extractKeys keyFields
  rw [List.map_map]
  refine List.map_congr_left fun k hk => ?_
  obtain ⟨s, hs⟩ := el.scalars k hk
  rw [Function.comp_apply, doc_of_get hs, hs, Option.map_some, s.scalarToString_value]
  rfl

/-- What is recognised is the object of the texts, with nothing escaped. -/
theorem recognises_iff [YamlText] (el other : KeyedElement keys) (order : List String) :
    el.Recognises (other.canonicalKey order) ↔
      Json.unescaped docText (el.keyFields keys) = Json.print (.obj (other.keyFields order)) := by
  have hkey : candidateKey (.keyed (extractKeys el.element keys))
      = "k:" ++ String.ofList (Json.unescaped docText (el.keyFields keys)) := by
    rw [candidateKey_keyed, extractKeys_eq, List.map_map]
    rfl
  rw [Recognises, fieldsV1Owns_single, hkey, canonicalKey, String.append_right_inj,
    String.ofList_inj]

theorem keyFields_quotes (el : KeyedElement keys) {order : List String} (hperm : order.Perm keys) :
    ∀ kv ∈ el.keyFields order, (∃ s, kv.2 = .str s) ∨ (Json.print kv.2).count '"' = 0 := by
  intro kv hkv
  obtain ⟨k, hk, rfl⟩ := List.mem_map.mp hkv
  obtain ⟨s, hs⟩ := el.scalars k (hperm.mem_iff.mp hk)
  dsimp only
  rw [doc_of_get hs]
  exact s.quotes

theorem plainString_iff (el : KeyedElement keys) {k : String} (hk : k ∈ keys) : el.PlainString k ↔
    ∃ s, ((el.element.get k).bind Value.toJson).getD .null = .str s ∧ Json.Plain s := by
  obtain ⟨s, hs⟩ := el.scalars k hk
  rw [PlainString, doc_of_get hs, hs]
  cases s <;> simp [Scalar.value, Scalar.doc]

/--
**When an element is recognised by its key.**

For every list-map and every element whose key fields are scalars, in whatever order
the key fields stand in the canonical key: the canonical key is recognised, and no key of an
element with other key fields is, if and only if the key fields stand in the order of the
list-map, and they are strings in which, as in their names, nothing has to be escaped.
-/
theorem recognises_own_key_only_iff [YamlText] {order : List String} (hperm : order.Perm keys)
    (el : KeyedElement keys) : el.RecognisesOwnKeyOnly order ↔
      order = keys ∧ ∀ k ∈ keys, Json.Plain k ∧ el.PlainString k := by
  have hown : el.Recognises (el.canonicalKey order) ↔
      order = keys ∧ ∀ k ∈ keys, Json.Plain k ∧ el.PlainString k := by
    have hkeyFields : (el.keyFields keys).Perm (el.keyFields order) := hperm.symm.map _
    rw [recognises_iff, Json.unescaped_eq_print_iff (fun _ => rfl) hkeyFields
      (el.keyFields_quotes hperm)]
    have horder : el.keyFields keys = el.keyFields order ↔ order = keys := by
      refine ⟨fun h => ?_, fun h => by rw [h]⟩
      have hnames := congrArg (List.map Prod.fst) h
      rw [keyFields, keyFields, List.map_map, List.map_map] at hnames
      exact (List.map_id keys).symm.trans hnames |>.trans (List.map_id order) |>.symm
    rw [horder]
    refine and_congr_right fun heq => ?_
    subst heq
    rw [keyFields, List.forall_mem_map]
    exact forall₂_congr fun k hk => and_congr_right fun _ => (el.plainString_iff hk).symm
  refine ⟨fun h => hown.mp h.1, fun h => ⟨hown.mpr h, fun other hother => ?_⟩⟩
  -- both canonical keys are the one text that is recognised
  have htext := (recognises_iff el el order).mp (hown.mpr h)
  have htext' := (recognises_iff el other order).mp hother
  exact Json.obj.inj (Json.print_injective (htext'.symm.trans htext))

end KeyedElement

/-! ## Ports -/

/-- A port with this number in its `containerPort`. -/
def portElement (number : Scalar) : KeyedElement ["containerPort", "protocol"] where
  element := .mapping [(.string "name", .string "http"), (.string "containerPort", number.value),
    (.string "protocol", .string "TCP")]
  scalars k hk := by
    rcases List.mem_pair.mp hk with rfl | rfl
    · exact ⟨number, rfl⟩
    · exact ⟨.str "TCP", rfl⟩

/-- A port with a string for its number would be found under its own key only. -/
theorem recognises_own_key_only_text : @KeyedElement.RecognisesOwnKeyOnly .ofBits _ .sample
    (portElement (.str "80")) ["containerPort", "protocol"] := by
  refine (@KeyedElement.recognises_own_key_only_iff .ofBits _ .sample _ (List.Perm.refl _)
    (portElement (.str "80"))).mpr ⟨rfl, fun k hk => ?_⟩
  rcases List.mem_pair.mp hk with rfl | rfl
  · exact ⟨Json.plain_of_length (by decide), "80", rfl, Json.plain_of_length (by decide)⟩
  · exact ⟨Json.plain_of_length (by decide), "TCP", rfl, Json.plain_of_length (by decide)⟩

/-- Port 80 is not found under its own key, and is found under that of a port `"80"`. -/
theorem port_not_recognised :
    ¬@KeyedElement.RecognisesOwnKeyOnly .ofBits _ .sample (portElement (.num (.posInt 80)))
      ["containerPort", "protocol"] ∧
    @KeyedElement.Recognises .ofBits _ .sample (portElement (.num (.posInt 80)))
      (@KeyedElement.canonicalKey .ofBits _ (portElement (.str "80"))
        ["containerPort", "protocol"]) := by
  refine ⟨fun h => absurd h.1 ?_, ?_⟩
  · rw [@KeyedElement.recognises_iff .ofBits]
    decide
  · rw [@KeyedElement.recognises_iff .ofBits]
    decide

end SynchrotronCD
