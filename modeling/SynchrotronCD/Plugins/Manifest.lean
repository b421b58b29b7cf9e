import SynchrotronCD.Plugins.Value

/-!
# Manifests

The common manifest type produced by every plugin runtime: identifying fields
extracted from a parsed document, and the document itself as canonical JSON
bytes with their FNV-1a hash and the parsed view.

A panic is an outcome of its own here. `from_value` expects the serializer to
succeed and panics when it does not; the model returns `none` there.
-/

namespace SynchrotronCD

open Lib

/-- Group/Version/Kind, parsed from a manifest's `apiVersion` + `kind`. -/
structure Gvk where
  group : String
  version : String
  kind : String
deriving DecidableEq, Repr, Inhabited

/-- `s.split_once('/')`. -/
def splitOnce (sep : Char) (s : String) : Option (String × String) :=
  let cs := s.toList
  match cs.dropWhile (· ≠ sep) with
  | [] => none
  | _ :: rest => some (String.ofList (cs.takeWhile (· ≠ sep)), String.ofList rest)

/-- The core group is the empty string. -/
def Gvk.parse (apiVersion kind : String) : Gvk :=
  match splitOnce '/' apiVersion with
  | some (g, v) => ⟨g, v, kind⟩
  | none => ⟨"", apiVersion, kind⟩

/-- FNV-1a, 64 bits, wrapping. -/
def fnv1a64 (bytes : List UInt8) : UInt64 :=
  bytes.foldl (fun h b => (h ^^^ b.toUInt64) * 0x00000100000001b3) 0xcbf29ce484222325

/-- The verbatim manifest body. -/
structure ManifestBody where
  /-- Canonical JSON bytes. -/
  bytes : List UInt8
  /-- FNV-1a 64-bit hash over `bytes`, computed once at construction. -/
  hash : UInt64
  /-- The parsed view. -/
  value : Value
  hash_eq : hash = fnv1a64 bytes

/-- A single Kubernetes manifest. -/
structure Manifest where
  gvk : Gvk
  name : String
  /-- `none` for cluster-scoped resources or manifests that omit it. -/
  «namespace» : Option String
  body : ManifestBody

namespace ManifestBody

/-! ## Construction -/

section

variable [FloatText]

/-- `serde_json::to_vec`: fails exactly on a mapping key without a text. -/
def toVec (v : Value) : Option (List UInt8) :=
  v.toJson.map (fun j => (String.ofList j.print).toUTF8.data.toList)

/-- Build from an in-memory parsed value; `none` is the `expect` panicking. -/
def fromValue (v : Value) : Option ManifestBody :=
  (toVec v).map (fun bytes => ⟨bytes, fnv1a64 bytes, v, rfl⟩)

/-- The value of a JSON document always has a body. -/
theorem fromValue_ofJson (j : Value.Doc) : ∃ b, fromValue (.ofJson j) = some b := by
  unfold fromValue toVec
  rw [Value.toJson_ofJson]
  exact ⟨_, rfl⟩

theorem fromValue_spec {v : Value} {b : ManifestBody} (h : fromValue v = some b) :
    toVec v = some b.bytes ∧ b.value = v := by
  unfold fromValue at h
  cases hv : toVec v with
  | none => rw [hv] at h; simp at h
  | some bytes =>
      rw [hv] at h
      simp only [Option.map_some, Option.some.injEq] at h
      subst h
      exact ⟨rfl, rfl⟩

/-- **The bytes determine the value.** -/
theorem toVec_inj {v w : Value} (hv : v.jsonCompatible = true) (hw : w.jsonCompatible = true)
    (h : toVec v = toVec w) : v = w := by
  obtain ⟨i, hi, hiv⟩ := Value.toJson_of_compatible hv
  obtain ⟨j, hj, hjw⟩ := Value.toJson_of_compatible hw
  simp only [toVec, hi, hj, Option.map_some, Option.some.injEq] at h
  have hij : i = j := Value.jsonBytes_injective h
  rw [← hiv, ← hjw, hij]

end

/-! ## Equality -/

/--
Tiered equality. `samePtr` says whether the two bodies share one byte buffer,
which the values themselves do not show.
-/
def eqTiers (samePtr : Bool) (a b : ManifestBody) : Bool :=
  if a.hash != b.hash then false
  else if samePtr then true
  else if a.bytes == b.bytes then true
  else a.value.beq b.value

/-- `PartialEq` for bodies in separate buffers. -/
def beq (a b : ManifestBody) : Bool := eqTiers false a b

/-- The pointer tier only saves time: one buffer holds one sequence of bytes. -/
theorem eqTiers_ptr {p : Bool} {a b : ManifestBody} (hp : p = true → a.bytes = b.bytes) :
    eqTiers p a b = a.beq b := by
  unfold beq eqTiers
  cases p with
  | false => rfl
  | true => simp [hp rfl]

theorem beq_iff {a b : ManifestBody} :
    a.beq b = true ↔ a.hash = b.hash ∧ (a.bytes = b.bytes ∨ a.value.beq b.value = true) := by
  unfold beq eqTiers
  by_cases h : a.hash = b.hash
  · by_cases hb : a.bytes = b.bytes <;> simp [h, hb]
  · simp [h]

/-- **Two bodies of JSON-compatible values compare equal exactly when the values
are equal and their texts have the same hash.** -/
theorem beq_iff_of_compatible [FloatText] {v w : Value} {a b : ManifestBody}
    (hv : v.jsonCompatible = true) (hw : w.jsonCompatible = true)
    (ha : fromValue v = some a) (hb : fromValue w = some b) :
    a.beq b = true ↔ v.beq w = true ∧ a.hash = b.hash := by
  obtain ⟨hav, rfl⟩ := fromValue_spec ha
  obtain ⟨hbw, rfl⟩ := fromValue_spec hb
  rw [beq_iff]
  refine ⟨?_, ?_⟩
  · intro h
    rcases h with ⟨hh, hbytes | hval⟩
    · have : a.value = b.value := toVec_inj hv hw (by rw [hav, hbw, hbytes])
      refine ⟨?_, hh⟩
      rw [this]
      exact Value.beq_self hw
    · exact ⟨hval, hh⟩
  · intro h
    obtain ⟨hval, hh⟩ := h
    exact ⟨hh, Or.inr hval⟩

end ManifestBody

/-! ## Parsing a stream -/

inductive ManifestParseError where
  | yaml (sourceLabel : String) (docIndex : Nat) (source : String)
  | missingField (sourceLabel : String) (docIndex : Nat) (field : String)
deriving DecidableEq, Repr

/-- How parsing can stop. -/
inductive Abort where
  | error (e : ManifestParseError)
  | panic (message : String)
deriving DecidableEq, Repr

section

variable [FloatText]

def requiredStr (value : Value) (field : String) (sourceLabel : String) (docIndex : Nat) :
    Except Abort String :=
  match (value.get field).bind Value.asStr with
  | some s => .ok s
  | none => .error (.error (.missingField sourceLabel docIndex field))

/-- The string at `metadata.<field>`. -/
def metadataStr (value : Value) (field : String) : Option String :=
  ((value.get "metadata").bind (fun m => m.get field)).bind Value.asStr

def valueToManifest (sourceLabel : String) (docIndex : Nat) (value : Value) :
    Except Abort Manifest := do
  let apiVersion ← requiredStr value "apiVersion" sourceLabel docIndex
  let kind ← requiredStr value "kind" sourceLabel docIndex
  let name ← match metadataStr value "name" with
    | some s => .ok s
    | none => .error (.error (.missingField sourceLabel docIndex "metadata.name"))
  let ns := metadataStr value "namespace"
  match ManifestBody.fromValue value with
  | some body => .ok ⟨Gvk.parse apiVersion kind, name, ns, body⟩
  | none => .error (.panic "manifest body must be JSON-serializable")

/-- The loop of `parse_stream` from the document at `docIndex` on. A document is
what the YAML deserializer yields for it: a value or its error. -/
def parseDocs (sourceLabel : String) : Nat → List (Except String Value) →
    Except Abort (List Manifest)
  | _, [] => .ok []
  | docIndex, .error source :: _ => .error (.error (.yaml sourceLabel docIndex source))
  | docIndex, .ok value :: docs =>
    if value.isNull then parseDocs sourceLabel (docIndex + 1) docs
    else do
      let m ← valueToManifest sourceLabel docIndex value
      let ms ← parseDocs sourceLabel (docIndex + 1) docs
      return m :: ms

/-- Parse a multi-document YAML stream, given as the deserializer's documents. -/
def parseStream (sourceLabel : String) (docs : List (Except String Value)) :
    Except Abort (List Manifest) := parseDocs sourceLabel 0 docs

/-- What `value_to_manifest` takes from a document. -/
theorem valueToManifest_ok {label : String} {i : Nat} {v : Value} {m : Manifest}
    (h : valueToManifest label i v = .ok m) :
    ∃ apiVersion kind, (v.get "apiVersion").bind Value.asStr = some apiVersion
      ∧ (v.get "kind").bind Value.asStr = some kind
      ∧ m.gvk = Gvk.parse apiVersion kind
      ∧ metadataStr v "name" = some m.name
      ∧ m.namespace = metadataStr v "namespace"
      ∧ ManifestBody.fromValue v = some m.body := by
  unfold valueToManifest requiredStr at h
  cases ha : (v.get "apiVersion").bind Value.asStr with
  | none => rw [ha] at h; simp [bind, Except.bind] at h
  | some apiVersion =>
  cases hk : (v.get "kind").bind Value.asStr with
  | none => rw [ha, hk] at h; simp [bind, Except.bind] at h
  | some kind =>
  cases hn : metadataStr v "name" with
  | none => rw [ha, hk, hn] at h; simp [bind, Except.bind] at h
  | some name =>
  cases hb : ManifestBody.fromValue v with
  | none => rw [ha, hk, hn, hb] at h; simp [bind, Except.bind] at h
  | some body =>
      rw [ha, hk, hn, hb] at h
      simp only [bind, Except.bind, Except.ok.injEq] at h
      subst h
      exact ⟨apiVersion, kind, rfl, rfl, rfl, rfl, rfl, rfl⟩

/-- Every manifest of a stream comes from one of its documents. -/
theorem mem_parseDocs {label : String} : ∀ {docs : List (Except String Value)} {i : Nat}
    {ms : List Manifest}, parseDocs label i docs = .ok ms → ∀ m ∈ ms,
    ∃ j v, .ok v ∈ docs ∧ v.isNull = false ∧ valueToManifest label j v = .ok m
  | [], _, ms, h, m, hm => by
      simp only [parseDocs, Except.ok.injEq] at h
      subst h
      simp at hm
  | .error e :: docs, _, _, h, _, _ => by simp [parseDocs] at h
  | .ok v :: docs, i, ms, h, m, hm => by
      rw [parseDocs] at h
      split at h
      · obtain ⟨j, w, h1, h2, h3⟩ := mem_parseDocs h m hm
        exact ⟨j, w, List.mem_cons_of_mem _ h1, h2, h3⟩
      · rename_i hnull
        cases hv : valueToManifest label i v with
        | error e => rw [hv] at h; simp [bind, Except.bind] at h
        | ok m' =>
        cases hd : parseDocs label (i + 1) docs with
        | error e => rw [hv, hd] at h; simp [bind, Except.bind] at h
        | ok ms' =>
            rw [hv, hd] at h
            simp only [bind, Except.bind, pure, Except.pure, Except.ok.injEq] at h
            subst h
            rcases List.mem_cons.mp hm with rfl | hm
            · exact ⟨i, v, List.mem_cons_self, by simpa using hnull, hv⟩
            · obtain ⟨j, w, h1, h2, h3⟩ := mem_parseDocs hd m hm
              exact ⟨j, w, List.mem_cons_of_mem _ h1, h2, h3⟩

end

/-- A config map with one datum, in namespace `app`. -/
def configMap (name marker : String) : Manifest :=
  let v : Value := .mapping [(.string "apiVersion", .string "v1"),
    (.string "kind", .string "ConfigMap"),
    (.string "metadata", .mapping [(.string "name", .string name),
      (.string "namespace", .string "app")]),
    (.string "data", .mapping [(.string "marker", .string marker)])]
  let bytes := (@ManifestBody.toVec .ofBits v).getD []
  ⟨⟨"", "v1", "ConfigMap"⟩, name, some "app", ⟨bytes, fnv1a64 bytes, v, rfl⟩⟩

end SynchrotronCD
