import SynchrotronCD.Diff.ListMap
import SynchrotronCD.Plugins.Mapping

/-!
# Structural compare

Recursive compare of a normalized desired body with a live one. Mappings are
compared key by key; a list that is registered as a list-map has its elements
matched by their key fields, any other list goes by position; everything else is
equal or it is not. A difference is reported as a `Change` at its path.

Server-managed fields are stripped from both sides first.

How the YAML library writes a value that is no scalar, and how it shows a mapping
key that is no string, are parameters (`YamlText`).
-/

namespace SynchrotronCD

open Lib

inductive Change where
  /-- Field present in desired, absent in live. -/
  | added (path : ValuePath) (desired : Value)
  /-- Field absent in desired, present in live. -/
  | removed (path : ValuePath) (live : Value)
  /-- Field present in both with non-equal values. -/
  | modified (path : ValuePath) (desired live : Value)

def Change.path : Change → ValuePath
  | .added path _ | .removed path _ | .modified path _ _ => path

structure Diff where
  changes : List Change

def Diff.isEmpty (d : Diff) : Bool := d.changes.isEmpty

/-- What the compare takes from the YAML library as text. -/
class YamlText where
  /-- `serde_yaml_ng::to_string`, trimmed; empty if it fails. -/
  text : Value → String
  /-- The `Debug` rendering of a mapping key. -/
  debug : Value → String

/-! ## Excluded fields -/

/-- Server-managed fields of `metadata`. -/
def excludedMetadata : List String :=
  ["resourceVersion", "uid", "generation", "creationTimestamp", "managedFields", "selfLink"]

/-- Drop the server-managed fields of `metadata`, if it is a mapping. -/
def stripMetadata (kvs : List (Value × Value)) : List (Value × Value) :=
  match entry kvs (.string "metadata") with
  | some (.mapping fields) =>
    setEntry (.string "metadata")
      (.mapping (excludedMetadata.foldl (fun m k => removeEntry (.string k) m) fields)) kvs
  | _ => kvs

/-- Drop server-managed fields from a body before comparison. -/
def stripExcluded : Value → Value
  | .mapping kvs => .mapping (removeEntry (.string "status") (stripMetadata kvs))
  | v => v

/-! ## Keys -/

section

variable [FloatText] [YamlText]

/-- `Number::to_string`. -/
def numberText : Number → String
  | .posInt n => String.ofList (Value.JsonNumber.posInt n).print
  | .negInt k => String.ofList (Value.JsonNumber.negInt k).print
  | .float x =>
    if h : x.isFinite = true then String.ofList (FloatText.print ⟨x, h⟩)
    else if x.isNan then ".nan"
    else if x.bits.toNat < 2 ^ 63 then ".inf"
    else "-.inf"

def scalarToString : Value → String
  | .string s => s
  | .number n => numberText n
  | .bool b => toString b
  | .null => "null"
  | v => YamlText.text v

/-- Pull each named key off the element; a missing key gives an empty string. -/
def extractKeys (v : Value) (keys : List String) : List (String × String) :=
  keys.map fun k => (k, ((v.get k).map scalarToString).getD "")

/-- The name of a mapping key in a path. -/
def fieldName (k : Value) : String := k.asStr.getD (YamlText.debug k)

/-- The first element with these keys, and the others. -/
def takeMatch (keys : List String) (pairs : List (String × String)) :
    List Value → Option (Value × List Value)
  | [] => none
  | l :: rest =>
    if extractKeys l keys = pairs then some (l, rest)
    else (takeMatch keys pairs rest).map fun m => (m.1, l :: m.2)

/-! ## Compare -/

/-- The changes that report `live` elements, from index `i` on, as removed. -/
def removedFrom (path : ValuePath) : Nat → List Value → List Change
  | _, [] => []
  | i, l :: live => .removed (path.index i) l :: removedFrom path (i + 1) live

mutual

def diffValue (gvk : Gvk) (listMaps : ListMapKeys) : Value → Value → ValuePath → List Change
  | .mapping d, .mapping l, path =>
    diffEntries gvk listMaps d l path
      ++ (l.filter fun p => (entry d p.1).isNone).map
        fun p => .removed (path.field (fieldName p.1)) p.2
  | .sequence d, .sequence l, path =>
    match listMaps.keysFor gvk path with
    | some keys => diffListmap gvk listMaps d l keys path
    | none => diffPositional gvk listMaps d l 0 path
  | a, b, path => if Value.beq a b then [] else [.modified path a b]
termination_by structural d => d

/-- Walk the desired keys: recurse where live has them, report the others as added. -/
def diffEntries (gvk : Gvk) (listMaps : ListMapKeys) :
    List (Value × Value) → List (Value × Value) → ValuePath → List Change
  | [], _, _ => []
  | (k, dv) :: d, l, path =>
    (match entry l k with
      | some lv => diffValue gvk listMaps dv lv (path.field (fieldName k))
      | none => [.added (path.field (fieldName k)) dv])
    ++ diffEntries gvk listMaps d l path
termination_by structural d => d

/-- The elements from index `i` on, by position. -/
def diffPositional (gvk : Gvk) (listMaps : ListMapKeys) :
    List Value → List Value → Nat → ValuePath → List Change
  | [], l, i, path => removedFrom path i l
  | d :: desired, [], i, path =>
    .added (path.index i) d :: diffPositional gvk listMaps desired [] (i + 1) path
  | d :: desired, l :: live, i, path =>
    diffValue gvk listMaps d l (path.index i)
      ++ diffPositional gvk listMaps desired live (i + 1) path
termination_by structural d => d

/-- Match each desired element with the first live one of its keys that is not matched yet. -/
def diffListmap (gvk : Gvk) (listMaps : ListMapKeys) :
    List Value → List Value → List String → ValuePath → List Change
  | [], unmatched, keys, path =>
    unmatched.map fun l => .removed (path.keyed (extractKeys l keys)) l
  | d :: desired, unmatched, keys, path =>
    match takeMatch keys (extractKeys d keys) unmatched with
    | some (l, rest) =>
      diffValue gvk listMaps d l (path.keyed (extractKeys d keys))
        ++ diffListmap gvk listMaps desired rest keys path
    | none =>
      .added (path.keyed (extractKeys d keys)) d
        :: diffListmap gvk listMaps desired unmatched keys path
termination_by structural d => d

end

/-- Compare two manifests structurally. -/
def diff (desired live : Manifest) (listMaps : ListMapKeys) : Diff :=
  ⟨diffValue desired.gvk listMaps (stripExcluded desired.body.value)
    (stripExcluded live.body.value) .root⟩

def manifestsEquivalent (desired live : Manifest) (listMaps : ListMapKeys) : Bool :=
  (diff desired live listMaps).isEmpty

end

end SynchrotronCD
